import StatesLanguage.RetryPolicy
import StatesLanguage.Json.Reader

/-!
# Configuration

Configuration is an object of sections. Sections and settings that are missing get defaults, and
most settings can be overridden from the environment. Settings that nobody asks for are kept.
-/

namespace StatesLanguage.Config

/-- The variables of the environment. -/
abbrev Environment := List (String × String)

/-- Where a configuration comes from: a value, or a file with its text. -/
inductive Source where
  | given (v : Value)
  /-- The text of a file; `none` if there is no such file. -/
  | file (text : Option String)

/-- A setting of the environment, or else one from elsewhere. -/
def override (env : Environment) (name : String) (setting : Value) : Value :=
  ((env.lookup name).map Value.str).getD setting

def notANumber : Failure :=
  .fault .badValue "could not convert string to float"

/-- The floating number that a setting holds or is the numeral of. -/
def toFloat (v : Value) : Outcome Float :=
  match v with
  | .str s => (Decimal.readFloat? s.toList).elim (.error notANumber) .ok
  | v =>
    match v.number? with
    | some n => n.toFloat
    | none => .error (.wrongType "an interval has to be a number or a numeral")

/-- An interval in whole milliseconds, the fraction dropped. -/
def interval (v : Value) : Outcome Value := do
  match Binary.ofFloat (← toFloat v) with
  | .nan => throw (.fault .badValue "cannot convert float NaN to integer")
  | .infinite _ => throw (.fault .overflow "cannot convert float infinity to integer")
  | .finite neg mant exp =>
    let (num, den) := Binary.ratio neg mant exp
    return .int (Int.tdiv num den)

/-- A section with one of its members set; only objects have members. -/
def setting (s : Value) (key : String) (value : Value) : Outcome Value :=
  match s with
  | .obj members => .ok (.obj (Table.put members key value))
  | v => .error (.wrongType ("'" ++ v.kindName ++ "' object does not support item assignment"))

def service (env : Environment) (endpoint region : String) (s : Value) : Outcome Value := do
  let s ← setting s "endpoint" (override env endpoint (← s.memberOr "endpoint" .null))
  setting s "region" (override env region (← s.memberOr "region" .null))

/-- The interval of a poll: from the environment, or as it is given, or a default. -/
def polling (env : Environment) (name : String) (default : Int) (s : Value) : Outcome Value := do
  let given ← s.memberOr "poll_interval" (.int default)
  setting s "poll_interval" (← interval (override env name given))

def logging (env : Environment) (s : Value) : Outcome Value := do
  let l ← s.memberOr "logging_configuration" (.obj [])
  let l ← setting l "level" (override env "LOGGING_LEVEL" (← l.memberOr "level" (.str "OFF")))
  let l ← setting l "includeExecutionData" (← l.memberOr "includeExecutionData" (.bool false))
  setting s "logging_configuration" l

def metrics (env : Environment) (s : Value) : Outcome Value := do
  let s ← setting s "implementation"
    (override env "METRICS_IMPLEMENTATION" (← s.memberOr "implementation" (.str "")))
  setting s "namespace" (override env "METRICS_NAMESPACE" (← s.memberOr "namespace" (.str "")))

def sections : List String := ["lambda", "ecs", "activity", "state_machine", "metrics"]

def withSections (config : Value) : List String → Outcome Value
  | [] => .ok config
  | name :: rest => do
    withSections (← setting config name (← config.memberOr name (.obj []))) rest

/-- A change of one section. -/
def within (config : Value) (name : String) (change : Value → Outcome Value) : Outcome Value := do
  setting config name (← change (← config.memberOr name (.obj [])))

variable [Room]

def Source.read : Source → Outcome Value
  | .given .null => .ok (.obj [])
  | .given (.obj members) => Nesting.copied id (.obj members)
  | .given (.str path) => .error (.fault .fileNotFound path)
  | .given v => .error (.wrongType ("'" ++ v.kindName ++ "' object is no configuration"))
  | .file none => .error (.fault .fileNotFound "No such file or directory")
  | .file (some text) => Json.decodeFile text

/-- A configuration with all that was left out of it. -/
def load (env : Environment) (source : Source) : Outcome Value := do
  let config ← withSections (← source.read) sections
  let config ← within config "lambda" (service env "LAMBDA_ENDPOINT" "LAMBDA_REGION")
  let config ← within config "ecs" fun s => do
    polling env "ECS_POLL_INTERVAL" 3000 (← service env "ECS_ENDPOINT" "ECS_REGION" s)
  let config ← within config "activity" (polling env "ACTIVITY_POLL_INTERVAL" 1000)
  let config ← within config "state_machine" (logging env)
  within config "metrics" (metrics env)

end StatesLanguage.Config
