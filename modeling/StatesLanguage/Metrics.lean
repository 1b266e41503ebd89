import StatesLanguage.Value.Access
import StatesLanguage.Value.Arithmetic
import StatesLanguage.Resource
import StatesLanguage.Json.Writer

/-!
# Metrics of tasks

Counters of what became of tasks and sums of the time that they took, by the resource that they
called. Each family of resources has its own metrics; the names of all may begin with a namespace.
-/

namespace StatesLanguage.Metrics

/-- The names of the metrics of one kind of resource. -/
structure Family where
  counters : String
  timer : String
  label : String
  deriving DecidableEq, Inhabited

def functions : Family := ⟨"LambdaFunctions", "LambdaFunctionTime", "LambdaFunctionArn"⟩

def integrations : Family :=
  ⟨"ServiceIntegrations", "ServiceIntegrationTime", "ServiceIntegrationResourceArn"⟩

def activities : Family := ⟨"Activities", "ActivityTime", "ActivityArn"⟩

def families : List Family := [functions, integrations, activities]

def Family.of : ResourceKind → Family
  | .function => functions
  | .runTaskSync | .runTaskAsync => integrations
  | .activity => activities

/-- What is counted of calls. -/
inductive Event where
  | scheduled
  | succeeded
  | failed
  | timedOut
  deriving DecidableEq, Inhabited

def Event.name : Event → String
  | scheduled => "Scheduled"
  | succeeded => "Succeeded"
  | failed => "Failed"
  | timedOut => "TimedOut"

def Event.all : List Event := [scheduled, succeeded, failed, timedOut]

def names (space : String) : List String :=
  families.flatMap fun family =>
    (space ++ family.timer) :: Event.all.map fun event => space ++ family.counters ++ event.name

/-- Whether a metric may have a name: letters, digits, underscores and colons, no digit first. -/
def isName (name : String) : Bool :=
  let isLetter (c : Char) : Bool := c.isAlpha || c = '_' || c = ':'
  match name.toList with
  | [] => false
  | c :: rest => isLetter c && rest.all fun c => isLetter c || c.isDigit

/-- The first part of the names of metrics, if the configuration asks for metrics. -/
def namespace? (config : Value) : Outcome (Option String) := do
  let part ← if config.truthy then config.memberOr "metrics" (.obj []) else pure (.obj [])
  let implementation ← part.memberOr "implementation" (.str "")
  if !implementation.same (.str "Prometheus") then return none
  let space ← part.memberOr "namespace" (.str "")
  let space ← if !space.truthy then pure "" else match space with
    | .str s => pure (s ++ "_")
    | v => throw (Value.noOperator v (.str "_"))
  if (names space).all isName then return some space
  else throw (.fault .badValue "Invalid metric name")

/-- The metrics as they stand: counters and histograms under their labelled names. -/
structure Registry where
  /-- Whether metrics were asked for. -/
  created : Bool
  counters : Table Nat
  /-- The number of measurements and their sum in microseconds. -/
  timers : Table (Nat × Nat)
  deriving Inhabited

namespace Registry

def empty : Registry := ⟨false, [], []⟩

/-- The name of a metric with the resource that it is about. -/
def labelled (metric label resource : String) : String :=
  metric ++ "\x7b" ++ Json.string false label ++ ": " ++ Json.string false resource ++ "\x7d"

/-- One more event of a resource. -/
def count (r : Registry) (space : String) (family : Family) (event : Event) (resource : String) :
    Registry :=
  let key := labelled (space ++ family.counters ++ event.name) family.label resource
  { r with counters := Table.put r.counters key ((Table.get? r.counters key).getD 0 + 1) }

/-- One more duration of a resource. -/
def observe (r : Registry) (space : String) (family : Family) (resource : String) (micros : Nat) :
    Registry :=
  let key := labelled (space ++ family.timer) family.label resource
  let (number, sum) := (Table.get? r.timers key).getD (0, 0)
  { r with timers := Table.put r.timers key (number + 1, sum + micros) }

end Registry

end StatesLanguage.Metrics
