import StatesLanguage.State.FanOut
import StatesLanguage.State.Simple
import StatesLanguage.Task.Attempt

/-!
# Running a state

A state is made from its definition, entered, run and exited. Its output may not be too large.
-/

namespace StatesLanguage.State

/-- The most characters that the JSON text of an output may have. -/
def maxDataLength : Nat := 262144

def tooLarge (name : String) : Failure :=
  .ofKind .dataLimit ("The state/task '" ++ name ++
    "' returned a result with a size exceeding the maximum number of characters service limit.")

variable [Room]

def attemptTask (s : State) (task : Task) (site : Site) (input context : Value) : Work Value := do
  let effective ← s.filterInput input context
  let parameters ← s.parameters effective context
  let result ← task.invokeResource site.identity.arn site.scope parameters
  s.finish input result context

def runTask (s : State) (task : Task) (site : Site) (entered : Nat) (input : Value) :
    Work Transition :=
  s.runWithRetry input (fun failed => s.attemptTask task site input (s.context site entered failed))
    fun _ => pure ()

/-- What the state does between being entered and being exited. -/
def run (s : State) (site : Site) (entered : Nat) (input : Value) : Work Transition :=
  match s.kind with
  | .pass => s.runPass site entered input
  | .wait => s.runWait site entered input
  | .choice => s.runChoice site entered input
  | .succeed => s.runSucceed site entered input
  | .fail => throw s.failure
  | .task task => s.runTask task site entered input
  | .parallel => s.runParallel site entered input
  | .map processor => s.runMap site entered processor input

def execute (s : State) (site : Site) (input : Value) : Work Transition := do
  let entered ← Work.now
  let text ← Work.ofOutcome (Json.encode input)
  Work.record site.scope (s.kind.name ++ "StateEntered")
    [("name", .str s.name), ("input", .str text)]
  let result ← s.run site entered input
  let text ← Work.ofOutcome (Json.encode result.output)
  -- A state with too large an output was entered and is never left.
  if text.length > maxDataLength then throw (tooLarge s.name)
  Work.record site.scope (s.kind.name ++ "StateExited")
    [("name", .str s.name), ("output", .str text)]
  return result

/-! ## Making states -/

def configurationError (text : String) : Failure :=
  .ofKind .configuration text

/-- A task, which may need an activity and may ask for metrics. -/
def makeTask (site : Site) (name : String) (definition : Value) : Work StateKind := do
  let exists? ← match definition.get? "Resource" with
    | some (.str arn) => Work.perform (.hasActivity arn)
    | _ => pure false
  let task ← Work.ofOutcome (Task.create name definition site.config exists?)
  if task.metrics.isSome then Work.perform .createMetrics
  return .task task

def makeParallel (name : String) (definition : Value) : Outcome StateKind :=
  if ((definition.get? "Branches").getD .null).truthy then .ok .parallel
  else .error (configurationError
    ("Parallel state " ++ name ++ " must have a non-empty Branches array"))

def makeMap (name : String) (definition : Value) : Outcome StateKind :=
  let processor := (definition.get? "ItemProcessor").getD ((definition.get? "Iterator").getD .null)
  if processor.truthy then .ok (.map processor)
  else .error (configurationError
    ("Map state " ++ name ++ " must have an Iterator or ItemProcessor"))

def unsupported (name : String) (type : Value) : Failure :=
  .telling type.display fun type =>
    configurationError ("State " ++ name ++ " has unsupported Type " ++ type)

def noSuchState (name : Value) : Failure :=
  .telling name.display fun name =>
    configurationError ("State " ++ name ++ " does not exist in the state machine")

def makeKind (site : Site) (name : String) (definition type : Value) : Work StateKind := do
  match ← Work.ofOutcome type.asKey with
  | some "Task" => makeTask site name definition
  | some "Parallel" => Work.ofOutcome (makeParallel name definition)
  | some "Map" => Work.ofOutcome (makeMap name definition)
  | some "Pass" => return .pass
  | some "Wait" => return .wait
  | some "Choice" => return .choice
  | some "Succeed" => return .succeed
  | some "Fail" => return .fail
  | _ => throw (unsupported name type)

def make (site : Site) (states name : Value) : Work State := do
  match states with
  | .obj members =>
    match ← Work.ofOutcome name.asKey with
    | none => throw (noSuchState name)
    | some key =>
      match Table.get? members key with
      | none | some .null => throw (noSuchState name)
      | some definition =>
        let type ← Work.ofOutcome (definition.memberOr "Type" .null)
        return ⟨key, ← makeKind site key definition type, definition⟩
  | v => throw (.noField ("'" ++ v.kindName ++ "' object has no attribute 'get'"))

end StatesLanguage.State
