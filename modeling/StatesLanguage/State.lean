import StatesLanguage.Task

/-!
# States

A state of a machine, by its type, and the steps that states of several types share: what a state
sees of its surroundings, and how paths and templates carry data in and out of it.
-/

namespace StatesLanguage

/-- Where a state stands: in which execution, under which configuration and in which machine. -/
structure Site where
  identity : Identity
  config : Value
  /-- The machine that the state belongs to. -/
  machine : List Nat
  deriving Inhabited

def Site.scope (site : Site) : Scope := ⟨site.machine, none⟩

def Site.iteration (site : Site) (index : Nat) : Scope := ⟨site.machine, some index⟩

/-- The types of states, with what each has of its own. -/
inductive StateKind where
  | pass
  | wait
  | choice
  | succeed
  | fail
  | task (t : Task)
  | parallel
  | map (processor : Value)
  deriving Inhabited

def StateKind.name : StateKind → String
  | pass => "Pass"
  | wait => "Wait"
  | choice => "Choice"
  | succeed => "Succeed"
  | fail => "Fail"
  | task _ => "Task"
  | parallel => "Parallel"
  | map _ => "Map"

/-- A state with its definition. -/
structure State where
  name : String
  kind : StateKind
  definition : Value
  deriving Inhabited

/-- What a state ends with: its output and the next state, null if there is none. -/
structure Transition where
  output : Value
  next : Value
  deriving Inhabited

namespace State

def field (s : State) (key : String) (default : Value) : Value :=
  (s.definition.get? key).getD default

/-- The next state, of which a state that ends the machine has none. -/
def next (s : State) : Value :=
  if (s.field "End" .null).truthy then .null else s.field "Next" .null

def context (s : State) (site : Site) (entered : Nat) (retries : Nat) : Value :=
  site.identity.context (.str s.name) (.str (Instant.render entered)) (.int retries)

variable [Room]

def filterInput (s : State) (input context : Value) : Work Value :=
  Work.ofOutcome (Path.filter input context (s.field "InputPath" Path.root))

def filterOutput (s : State) (output context : Value) : Work Value :=
  Work.ofOutcome (Path.filter output context (s.field "OutputPath" Path.root))

/-- What a state works on: its parameters, expanded over its input. -/
def parameters (s : State) (input context : Value) : Work Value :=
  Work.expand input context (s.field "Parameters" .null)

/-- The raw input with a result put in its place, and the output that is made of it. -/
def combine (s : State) (input result context : Value) : Work Value := do
  let output ← Work.ofOutcome (Reference.combine input (s.field "ResultPath" Path.root) result)
  s.filterOutput output context

/-- The output of a state: what is selected of its result, put into its input. -/
def finish (s : State) (input result context : Value) : Work Value := do
  let result ← Work.expand result context (s.field "ResultSelector" .null)
  s.combine input result context

end State

end StatesLanguage
