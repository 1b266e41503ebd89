import StatesLanguage.ActivityQueue
import StatesLanguage.Client.Script
import StatesLanguage.Execution
import StatesLanguage.Metrics
import StatesLanguage.Template

/-!
# Processes

The states of a workflow run as processes. A process is a tree: it asks for something and goes on
with the answer. What it asks for at once are effects on the world that all processes share; what
it may have to wait for is left to the scheduler. A process says nothing about how either answers,
so it can be reasoned about under every world and every schedule.
-/

namespace StatesLanguage

/-- What is told of a call once it has ended. -/
structure Span where
  resource : String
  execution : String
  /-- The error of the call, where it could be told. -/
  told : Option Failure
  /-- The error that came out of the call, or of telling its error. -/
  raised : Option Failure
  deriving Inhabited

/-- What a worker or a poll notes about itself. -/
inductive Note where
  | claimed (task : Value)
  | reported
  | failed (e : Failure)
  | checked
  deriving Inhabited

/-- What a process asks for and gets at once. -/
inductive Effect where
  /-- The time, in microseconds since 1970. -/
  | now
  /-- The microseconds since the run began. -/
  | elapsed
  /-- The value of a payload template; this may draw identifiers. -/
  | expand (input context template : Value)
  | record (scope : Scope) (type : String) (details : Members)
  | historySize
  | log (level : Level) (text : String)
  /-- A number for a machine that is started inside another. -/
  | numberMachine (parent : List Nat)
  | conclude (outcome : Outcome Value)
  | hasActivity (arn : String)
  | scheduleTask (arn input : String)
  | isClaimed (token : String)
  | takeReport (token : String)
  | cancelTask (token : String)
  /-- A worker's request for work. -/
  | getActivityTask (arn worker : Value)
  | enqueueResult (token output error cause : Value)
  | createMetrics
  | count (space : String) (family : Metrics.Family) (event : Metrics.Event) (resource : String)
  | observe (space : String) (family : Metrics.Family) (resource : String) (micros : Nat)
  | span (s : Span)
  | note (n : Note)

/-- What an effect is answered with. -/
abbrev Effect.Reply : Effect → Type
  | now | elapsed | historySize | numberMachine _ => Nat
  | expand _ _ _ | getActivityTask _ _ => Outcome Value
  | hasActivity _ | isClaimed _ => Bool
  | scheduleTask _ _ => Outcome String
  | takeReport _ => Option Report
  | enqueueResult _ _ _ _ => Outcome Unit
  | _ => Unit

/-- An iteration of a Map state, with what its input is made from. -/
structure Iteration where
  state : String
  processor : Value
  index : Nat
  item : Value
  /-- The template for the iteration's input, if it is not the item itself. -/
  selector : Option Value
  input : Value
  context : Value
  deriving Inhabited

/-- What a state runs beside itself: a branch, or an iteration that needs a slot. -/
inductive Job where
  | branch (parent : List Nat) (definition input : Value)
  | iteration (parent : List Nat) (slots : Nat) (i : Iteration)
  deriving Inhabited

/-- What a process may have to wait for. -/
inductive Wait where
  | sleep (micros : Nat)
  /-- A call to a service, up to a limit of time. -/
  | call (c : Client.Call) (limit : Option Nat)
  /-- The outputs of jobs that run at the same time, in their order. -/
  | join (jobs : List Job)
  | makeSlots (capacity : Option Nat)
  | takeSlot (slots : Nat)
  | freeSlot (slots : Nat)

/-- The answer to a wait; a call that reaches its limit has none. -/
abbrev Wait.Reply : Wait → Type
  | call _ _ => Option (Outcome Value)
  | join _ => Outcome (List Value)
  | makeSlots _ => Nat
  | _ => Unit

/-- What a thread does: it asks the world for something and goes on with the answer at once, or it
waits and lets others go on. -/
inductive Process (α : Type) where
  | ret (a : α)
  | effect (e : Effect) (next : e.Reply → Process α)
  | wait (w : Wait) (next : w.Reply → Process α)

namespace Process

variable {α β : Type}

def bind : Process α → (α → Process β) → Process β
  | ret a, f => f a
  | effect e next, f => effect e fun r => bind (next r) f
  | wait w next, f => wait w fun r => bind (next r) f

instance : Monad Process where
  pure := ret
  bind := bind

end Process

/-- A process that may fail. -/
abbrev Work := ExceptT Failure Process

namespace Work

variable {α : Type}

def ofOutcome (o : Outcome α) : Work α :=
  ExceptT.mk (pure o)

def perform (e : Effect) : Work e.Reply :=
  ExceptT.mk (.effect e fun r => .ret (.ok r))

def await (w : Wait) : Work w.Reply :=
  ExceptT.mk (.wait w fun r => .ret (.ok r))

/-- Runs work to its outcome, which may be an error. -/
def outcome (work : Work α) : Work (Outcome α) :=
  ExceptT.mk (Process.bind work.run fun o => .ret (.ok o))

def now : Work Nat := perform .now

def elapsed : Work Nat := perform .elapsed

/-- A template with its paths and calls replaced by what they come to. -/
def expand (input context template : Value) : Work Value := do
  ofOutcome (← perform (.expand input context template))

/-- An event with details that are texts already. -/
def record (scope : Scope) (type : String) (details : Members) : Work Unit :=
  perform (.record scope type details)

variable [Room]

/-- Fails where details have no text that could be logged. -/
def shown (details : Members) : Work Unit := do
  let _ ← ofOutcome (Value.obj details).display

/-- Records an event whose details may have no text. Such an event is recorded, but what is to be
logged of it fails. -/
def recordValues (scope : Scope) (type : String) (details : Members) : Work Unit := do
  record scope type details
  shown details

/-- Records a failure. What is said beside the error always has a text. -/
def recordFailure (scope : Scope) (type : String) (details : Members) (e : Failure) : Work Unit := do
  let text ← ofOutcome e.text
  record scope type (Event.fullDetails details e.name (.str text))
  shown (Event.fullDetails [] e.name (.str text))

def log (level : Level) (text : String) : Work Unit :=
  perform (.log level text)

/-- Logs a text that is still to be made. -/
def tell (level : Level) (text : Outcome String) : Work Unit := do
  log level (← ofOutcome text)

def sleep (micros : Nat) : Work Unit :=
  await (.sleep micros)

end Work

end StatesLanguage
