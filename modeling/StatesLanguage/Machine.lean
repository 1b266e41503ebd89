import StatesLanguage.State.Run

/-!
# Machines

A machine runs its states one after another, each on the output of the one before, until one ends
it. Machines inside a state are machines too, under a number of their own.
-/

namespace StatesLanguage

/-- The most events that a history may have when a state is started. -/
def maxHistory : Nat := 25000

def historyExceeded (arn : String) : Failure :=
  .runtime ("Execution " ++ arn ++ " exceeded the limit of " ++ toString maxHistory ++
    " history events")

/-- A state machine: where it starts and its states. -/
structure Machine where
  states : Value
  startAt : Value
  deriving Inhabited

namespace Machine

/-- The machine of a definition, which may be given as JSON text. -/
def ofDefinition (definition : Value) : Outcome Machine := do
  let definition ← match definition with
    | .str text => Json.decode text
    | v => pure v
  let states ← definition.memberOr "States" (.obj [])
  let startAt ← definition.memberOr "StartAt" .null
  return ⟨states, startAt⟩

/-- The most states that one run of a machine can start: a state that is left has recorded two
events at least, so with one more the history has exceeded its limit. -/
def maxStates : Nat := maxHistory / 2 + 1

variable [Room]

def noNext (name : Value) : Failure :=
  .telling name.display fun name =>
    .ofKind .configuration ("State " ++ name ++ " has neither a Next nor an End field")

/-- Whether a state is the last. -/
def isEnd (s : State) : Bool :=
  match s.kind with
  | .succeed | .fail => true
  | _ => (s.field "End" .null).truthy

/-- Runs from a state to the last, with so many rounds at most. -/
def runFrom (site : Site) (states : Value) : Nat → Value → Value → Work Value
  | 0, _, _ => throw (historyExceeded site.identity.arn)
  | fuel + 1, current, data => do
    if (← Work.perform .historySize) > maxHistory then throw (historyExceeded site.identity.arn)
    let state ← State.make site states current
    let result ← state.execute site data
    match result.next with
    | .null => if isEnd state then return result.output else throw (noNext current)
    | next => runFrom site states fuel next result.output

def run (m : Machine) (site : Site) (input : Value) : Work Value :=
  runFrom site m.states maxStates m.startAt input

end Machine

/-! ## Machines inside states -/

namespace Job

variable [Room]

/-- A machine of its own inside an execution, with a number of its own. -/
def runMachine (site : Site) (definition input : Value) : Work Value := do
  let number ← Work.perform (.numberMachine site.machine)
  let machine ← Work.ofOutcome (Machine.ofDefinition definition)
  machine.run { site with machine := site.machine ++ [number] } input

/-- The part of the context that tells an iteration its index and item. -/
def iterationContext (i : Iteration) : Value :=
  let item : Value := .obj [("Index", .int i.index), ("Value", i.item)]
  match i.context with
  | .obj members => .obj (Table.put members "Map" (.obj [("Item", item)]))
  | v => v

/-- An iteration that has its slot: its input is made, its machine run, and what comes of it
recorded. -/
def runSlotted (site : Site) (i : Iteration) (input : Value) : Work Value := do
  let scope := site.iteration i.index
  let details : Members := [("index", .int i.index), ("name", .str i.state)]
  Work.record scope "MapIterationStarted" details
  match ← (runMachine site i.processor input).outcome with
  | .ok output =>
    Work.record scope "MapIterationSucceeded" details
    return output
  | .error e =>
    Work.recordFailure scope "MapIterationFailed" details e
    throw e

/-- An iteration waits for a slot, and gives it back when it is over. -/
def runIteration (site : Site) (slots : Nat) (i : Iteration) : Work Value := do
  let input ← match i.selector with
    | none => pure i.item
    | some template => Work.expand i.input (iterationContext i) template
  Work.await (.takeSlot slots)
  let outcome ← (runSlotted site i input).outcome
  Work.await (.freeSlot slots)
  Work.ofOutcome outcome

/-- What a thread does that is started for a job. -/
def work (identity : Identity) (config : Value) : Job → Work Value
  | .branch parent definition input => runMachine ⟨identity, config, parent⟩ definition input
  | .iteration parent slots i => runIteration ⟨identity, config, parent⟩ slots i

end Job

end StatesLanguage
