import StatesLanguage.Client.Reply
import StatesLanguage.Client.Transport

/-!
# Scripted services

Services that answer by a script: each call takes the next entry of its line, and the last entry
answers all further calls. What was asked of a service is kept.
-/

namespace StatesLanguage.Client

/-- A request to one of the services. -/
inductive Call where
  | invoke (request : Value)
  | runTask (request : Value)
  | describeTasks (request : Value)
  deriving Inhabited

namespace Call

def request : Call → Value
  | invoke r | runTask r | describeTasks r => r

def service : Call → Service
  | invoke _ => .lambda
  | runTask _ | describeTasks _ => .ecs

def operation : Call → String
  | invoke _ => "Invoke"
  | runTask _ => "RunTask"
  | describeTasks _ => "DescribeTasks"

/-- Which answers of a script a call gets: a function has its own. -/
def line : Call → String
  | invoke r => ((r.get? "FunctionName").bind Value.asString?).getD ""
  | runTask _ => "run_task"
  | describeTasks _ => "describe_tasks"

variable [Room]

def plainReply (c : Call) (reply : Value) : Outcome Value :=
  match c with
  | invoke _ => plainInvocation reply
  | runTask _ | describeTasks _ => Client.plainReply reply

end Call

/-- What a service answers, and how long it takes. -/
structure Answer where
  delay : Nat
  outcome : Outcome Value
  deriving Inhabited

/-- The first entry of a line and the line after it. -/
def nextEntry : List Answer → Option (Answer × List Answer)
  | [] => none
  | [last] => some (last, [last])
  | entry :: rest => some (entry, rest)

/-- A request as a service got it. -/
structure Received where
  line : String
  time : Nat
  request : Value
  deriving Inhabited

/-- The services with what they are to answer and what they were asked. -/
structure Services where
  lambda : Transport
  ecs : Transport
  script : Table (List Answer)
  received : List Received
  created : List (Service × Members)
  deriving Inhabited

namespace Services

def transport (s : Services) : Service → Transport
  | .lambda => s.lambda
  | .ecs => s.ecs

def setTransport (s : Services) (t : Transport) : Service → Services
  | .lambda => { s with lambda := t }
  | .ecs => { s with ecs := t }

variable [Room]

/-- The answer to a call that a script says nothing of. -/
def unscripted (c : Call) : Answer :=
  ⟨0, .error (serviceError (.obj [("Error", .obj [("Code", .str "ResourceNotFoundException"),
    ("Message", .str ("Nothing scripted for " ++ c.line))])]) c.operation)⟩

/-- A call first needs a client for its target. -/
def connect (s : Services) (c : Call) (override : Target) : Outcome Services := do
  let connection := (s.transport c.service).connect (fun _ => .ok ()) override
  let () ← connection.client
  return { s.setTransport connection.pool c.service with
    created := s.created ++ (connection.asked.map fun arguments => (c.service, arguments)).toList }

/-- The next answer of the script to a call, which is noted with the time. -/
def serve (s : Services) (now : Nat) (c : Call) : Answer × Services :=
  let s := { s with received := s.received ++ [⟨c.line, now, c.request⟩] }
  match nextEntry ((Table.get? s.script c.line).getD []) with
  | none => (unscripted c, s)
  | some (answer, rest) =>
    (⟨answer.delay, answer.outcome.bind c.plainReply⟩,
      { s with script := Table.put s.script c.line rest })

/-- Makes a call at a time; the answer comes after its delay. -/
def call (s : Services) (now : Nat) (c : Call) (override : Target) : Answer × Services :=
  match s.connect c override with
  | .error e => (⟨0, .error e⟩, s)
  | .ok s =>
    if c.request.isObject then s.serve now c
    else (⟨0, .error (.wrongType "a request has to be an object")⟩, s)

end Services

end StatesLanguage.Client
