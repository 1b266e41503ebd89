import StatesLanguage.Log
import StatesLanguage.Config
import StatesLanguage.Json.Writer
import StatesLanguage.Text.Percent

/-!
# Loggers

A logger writes the entries from its level on, either as lines for people or as JSON objects. The
environment chooses the level and the form.
-/

namespace StatesLanguage

/-- A logger with its name, its level and how it writes entries. -/
structure Logger where
  name : String
  level : Int
  structured : Bool
  /-- The name of the execution that entries belong to. -/
  execution : Option Value
  deriving Inhabited

namespace Logger

/-- The level of loggers that have none of their own. -/
def inheritedLevel : Int := Level.warning.number

def environmentLevels : Table Int :=
  [("DEBUG", 10), ("INFO", 20), ("WARN", 30), ("WARNING", 30), ("ERROR", 40), ("CRITICAL", 50)]

def callerLevels : Table Int :=
  environmentLevels ++ [("FATAL", 50), ("NOTSET", 0)]

/-- The capital of a letter of a level's name; the dotless i counts as an i. -/
def capital (c : Char) : Char :=
  if c = 'ı' then 'I' else c.toUpper

def callerLevel : Value → Outcome Int
  | .int n => .ok n
  | .bool b => .ok (if b then 1 else 0)
  | .str s =>
    match Table.get? callerLevels s with
    | some n => .ok n
    | none => .error (.fault .badValue ("Unknown level: " ++ Text.quoted s))
  | _ => .error (.wrongType "Level not an integer or a valid string")

def environmentLevel? (env : Config.Environment) : Option Int :=
  (env.lookup "LOG_LEVEL").bind fun text => Table.get? environmentLevels (text.map capital)

def create (env : Config.Environment) (name : String) (level : Value) : Outcome Logger := do
  let level ← match environmentLevel? env with
    | some n => pure n
    | none => callerLevel level
  return {
    name
    level
    structured := ((env.lookup "USE_STRUCTURED_LOGGING").map (·.map Char.toLower)) == some "true"
    execution := none }

/-- Whether entries of a level are written. -/
def writes (logger : Logger) (level : Level) : Bool :=
  (if logger.level = 0 then inheritedLevel else logger.level) ≤ level.number

def argument [Room] (v : Value) : Text.Percent.Argument :=
  { shown := v.display.toOption
    quoted := (v.inner Room.texts).toOption
    number := v.number?
    isText := v.asString?.isSome }

/-- The arguments of a message: in order or, if a single object is given, by the names of its
members. -/
def arguments [Room] : List Value → Text.Percent.Arguments
  | [.obj (member :: members)] =>
    ⟨[argument (.obj (member :: members))],
      some fun name => (Table.get? (member :: members) name).map argument, false⟩
  | args => ⟨args.map argument, none, true⟩

/-- The message of an entry; without arguments it is taken as it stands. -/
def message? [Room] (text : String) (args : List Value) : Option String :=
  if args.isEmpty then some text else Text.Percent.filled? text (arguments args)

/-- A text brought to a width by blanks behind it. -/
def padRight (width : Nat) (text : String) : String :=
  text ++ String.ofList (List.replicate (width - text.length) ' ')

def plainLine (logger : Logger) (time : String) (entry : LogEntry) : String :=
  time ++ " " ++ padRight 8 entry.level.name ++ " - " ++ padRight 15 logger.name ++ " : " ++
    entry.text

/-- An entry as a JSON object. -/
def record (logger : Logger) (time : String) (entry : LogEntry) : Value :=
  .obj ([("event", .str entry.text)] ++
    ((logger.execution.map fun arn => [("execution_arn", arn)]).getD []) ++
    [("logger", .str logger.name), ("level", .str (entry.level.name.map Char.toLower)),
      ("@timestamp", .str time)])

/-- The line that an entry is written as, if it is. -/
def line? (logger : Logger) (time : String) (entry : LogEntry) : Option String :=
  if !logger.writes entry.level then none
  else if logger.structured then (Json.write ⟨true⟩ 0 (logger.record time entry)).toOption
  else some (logger.plainLine time entry)

def announcement : LogEntry := ⟨.debug, "DEBUG enabled"⟩

end Logger

end StatesLanguage
