import StatesLanguage.Arn
import StatesLanguage.Fresh
import StatesLanguage.Instant
import StatesLanguage.Log
import StatesLanguage.Text.Case
import StatesLanguage.Value.Access

/-!
# Executions

The record of one run of a workflow: who it is, how it ended, and its history, to which events are
only ever added. Each event is also logged, at a level that depends on its type and on how much the
execution is asked to log.
-/

namespace StatesLanguage

/-- Where in an execution something happens: in which of the machines nested in one another, by
their numbers, and, for the events of an iteration itself, in which iteration of a state of that
machine. -/
structure Scope where
  machine : List Nat
  iteration : Option Nat
  deriving DecidableEq, Inhabited

def Scope.top : Scope := ⟨[], none⟩

def Scope.render (s : Scope) : String :=
  ".".intercalate (s.machine.map toString) ++
    ((s.iteration.map fun i => "[" ++ toString i ++ "]").getD "")

/-- An event of a history. -/
structure Event where
  id : Nat
  time : Nat
  type : String
  details : Members
  scope : Scope
  deriving Inhabited

/-- How an execution stands. -/
inductive Status where
  | running
  | succeeded
  | failed
  deriving DecidableEq, Inhabited

def Status.name : Status → String
  | running => "RUNNING"
  | succeeded => "SUCCEEDED"
  | failed => "FAILED"

/-- What an execution is known by while it runs. -/
structure Identity where
  name : String
  arn : String
  machineArn : String
  input : Value
  started : Nat
  logging : Value
  deriving Inhabited

/-- An execution with its history and how it has ended, if it has. -/
structure Execution where
  identity : Identity
  status : Status
  output : Value
  error : Value
  cause : Value
  stopped : Option Nat
  history : Array Event
  deriving Inhabited

/-! ## Log levels of events -/

/-- The types of the events that a history may have. -/
def eventTypes : List String :=
  ["ChoiceStateEntered", "ChoiceStateExited", "ExecutionFailed", "ExecutionStarted",
    "ExecutionSucceeded", "FailStateEntered", "MapIterationFailed", "MapIterationStarted",
    "MapIterationSucceeded", "MapStateEntered", "MapStateExited", "MapStateFailed",
    "MapStateStarted", "MapStateSucceeded", "ParallelStateEntered", "ParallelStateExited",
    "ParallelStateFailed", "ParallelStateStarted", "ParallelStateSucceeded", "PassStateEntered",
    "PassStateExited", "SucceedStateEntered", "SucceedStateExited", "TaskFailed", "TaskScheduled",
    "TaskStarted", "TaskStateEntered", "TaskStateExited", "TaskSucceeded", "WaitStateEntered",
    "WaitStateExited"]

/-- The types of the events that are logged where only errors are. -/
def errorTypes : List String :=
  ["ExecutionFailed", "FailStateEntered", "MapIterationFailed", "MapStateFailed",
    "ParallelStateFailed", "TaskFailed"]

/-- Whether events of a type are logged at a level. -/
def isLoggedAt (level type : String) : Bool :=
  (level == "ALL" && eventTypes.contains type) ||
    (level == "ERROR" && errorTypes.contains type) ||
    (level == "FATAL" && type == "ExecutionFailed")

/-- The details that are logged only on demand. -/
def dataFields : List String := ["input", "output", "parameters"]

namespace Identity

def localMachine : String := "arn:aws:states:local:0123456789:stateMachine:local_state_machine"

/-- The name of an execution, by default a fresh identifier. -/
def drawName (name : Value) : Draw Value :=
  if name.truthy then pure name else do return .str (← Draw.fresh)

/-- A new execution's identity. Its resource name is that of its machine with the type changed and
its own name added. -/
def create (name machineArn input logging : Value) (now : Nat) : Draw Identity := do
  let name ← drawName name
  let machine := machineArn.orElse (.str localMachine)
  let arn ← Draw.ofOutcome (Arn.ofValue machine)
  match name, machine with
  | .str name, .str machine =>
    let own := { arn with
      resourceType := some "execution"
      resource := arn.resource ++ ":" ++ name }
    return ⟨name, own.render, machine, input, now, logging.orElse (.obj [])⟩
  | _, _ => throw (.wrongType "can only concatenate str (not another kind) to str")

/-- The level that events are logged at, and whether with their data. -/
def logPolicy (i : Identity) : Outcome (Option String × Bool) := do
  let level ← i.logging.memberOr "level" (.str "OFF")
  let data ← i.logging.memberOr "includeExecutionData" (.bool false)
  return (← level.asKey, data.truthy)

/-- What is logged of an event. -/
def logEntry [Room] (i : Identity) (type : String) (details : Members) : Outcome LogEntry := do
  let (level, data) ← i.logPolicy
  let line (details : Members) : Outcome String := do
    return i.arn ++ " " ++ type ++ " " ++ (← (Value.obj details).display)
  if (level.map (isLoggedAt · type)).getD false then
    return ⟨.info, ← line (details.filter fun (key, _) => data || !dataFields.contains key)⟩
  else return ⟨.debug, ← line details⟩

/-- The type of an event, which has to be a text that is not empty. Of another value it matters where
it is found out: one that holds the type of a state's event is taken for a type until it is logged,
and the first item of any other is taken for the first letter. -/
def eventType (i : Identity) : Value → Outcome String
  | .str type =>
    if type.isEmpty then .error (.fault .noSuchIndex "string index out of range") else .ok type
  | v => do
    let items ← v.iterate
    if items.any fun | .str s => s == "StateEntered" || s == "StateExited" | _ => false then
      let _ ← i.logPolicy
      throw (.wrongType ("unhashable type: '" ++ v.kindName ++ "'"))
    match ← v.first with
    | .str _ => throw (.wrongType "can only concatenate str (not \"list\") to str")
    | item => throw (.noField ("'" ++ item.kindName ++ "' object has no attribute 'lower'"))

/-- The context that paths with two dollar signs are about. -/
def context (i : Identity) (state entered retries : Value) : Value :=
  .obj [
    ("Execution", .obj [("Id", .str i.arn), ("Input", i.input), ("Name", .str i.name),
      ("StartTime", .str (Instant.render i.started))]),
    ("State", .obj [("Name", state), ("EnteredTime", entered), ("RetryCount", retries)]),
    ("StateMachine", .obj [("Id", .str i.machineArn)])]

end Identity

namespace Event

/-- The member of an event in a history that its details stand in. -/
def detailsKey (type : String) : String :=
  if Value.occursIn "StateEntered".toList type.toList then "stateEnteredEventDetails"
  else if Value.occursIn "StateExited".toList type.toList then "stateExitedEventDetails"
  else Text.uncapitalize type ++ "EventDetails"

def previousId (e : Event) : Nat :=
  e.id - 1

def pairOf (pair : Value) : Outcome (String × Value) := do
  match ← pair.iterate with
  | [key, value] =>
    match ← key.asKey with
    | some key => return (key, value)
    | none => throw (.wrongType "keys must be strings")
  | _ => throw (.fault .badValue "dictionary update sequence element has a length other than 2")

/-- The details that a value gives: an object's members, or those a list of pairs makes. -/
def detailsOf : Value → Outcome Members
  | .obj members => .ok members
  | v => do
    if !v.truthy then return []
    let pairs ← (← v.iterate).mapM pairOf
    return pairs.foldl (fun details (key, value) => Table.put details key value) []

/-- Details with what an error says, if the event is about one. -/
def fullDetails (details : Members) (cause error : Value) : Members :=
  let put (details : Members) (key : String) : Value → Members
    | .null => details
    | v => Table.put details key v
  put (put details "cause" cause) "error" error

end Event

namespace Execution

def create (identity : Identity) : Execution :=
  ⟨identity, .running, .null, .null, .null, none, #[]⟩

/-- Adds an event to the history; events are numbered from one. -/
def addEvent (x : Execution) (scope : Scope) (time : Nat) (type : String) (details : Members) :
    Execution :=
  { x with history := x.history.push ⟨x.history.size + 1, time, type, details, scope⟩ }

/-- Adds an event that loose values describe, with the entry that is logged for it. -/
def describe [Room] (x : Execution) (time : Nat) (type details cause error : Value) :
    Outcome (LogEntry × Execution) := do
  let details := Event.fullDetails (← Event.detailsOf details) cause error
  let type ← x.identity.eventType type
  return (← x.identity.logEntry type details, x.addEvent .top time type details)

/-- The execution with its output, ended at a time. -/
def succeed (x : Execution) (time : Nat) (output : Value) : Execution :=
  { x with status := .succeeded, output, stopped := some time }

/-- Marks an execution as failed. Where the error has no text, nothing is noted behind its name. -/
def fail [Room] (x : Execution) (time : Nat) (e : Failure) : Execution :=
  let x := { x with status := .failed, error := e.name }
  match e.text with
  | .ok text => { x with cause := .str text, stopped := some time }
  | .error _ => x

@[simp] theorem history_fail [Room] (x : Execution) (time : Nat) (e : Failure) :
    (x.fail time e).history = x.history := by
  unfold fail
  split <;> rfl

@[simp] theorem identity_fail [Room] (x : Execution) (time : Nat) (e : Failure) :
    (x.fail time e).identity = x.identity := by
  unfold fail
  split <;> rfl

@[simp] theorem status_fail [Room] (x : Execution) (time : Nat) (e : Failure) :
    (x.fail time e).status = .failed := by
  unfold fail
  split <;> rfl

theorem history_addEvent (x : Execution) (scope : Scope) (time : Nat) (type : String)
    (details : Members) :
    (x.addEvent scope time type details).history.toList =
      x.history.toList ++ [⟨x.history.size + 1, time, type, details, scope⟩] := by
  simp [addEvent]

end Execution

end StatesLanguage
