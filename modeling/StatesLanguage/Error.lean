import StatesLanguage.Value

/-!
# Errors

Everything that can go wrong while a workflow runs. The language's own errors carry the name that
retriers and catchers match on; an error of a service client is named by the service's code; data
of a kind that an operation cannot work on is a `Fault`.
-/

namespace StatesLanguage

/-- The kinds of errors of the states language. -/
inductive ErrorKind where
  /-- An error that a state or a resource names itself. -/
  | named
  | taskFailed
  | timeout
  | resultPathMatch
  | parameterPath
  | intrinsic
  | branchFailed
  | noChoiceMatched
  | dataLimit
  | launchFailures
  | invalidPath
  | configuration
  | missingAttribute
  | unsupportedResource
  | invalidArn
  | invalidParameter
  | noSuchActivity
  | invalidToken
  deriving DecidableEq, Inhabited

namespace ErrorKind

/-- The name that errors of a kind have unless they are given another. -/
def defaultName : ErrorKind → String
  | named | taskFailed | launchFailures => "States.TaskFailed"
  | timeout => "States.Timeout"
  | resultPathMatch => "States.ResultPathMatchFailure"
  | parameterPath => "States.ParameterPathFailure"
  | intrinsic => "States.IntrinsicFailure"
  | branchFailed => "States.BranchFailed"
  | noChoiceMatched => "States.NoChoiceMatched"
  | dataLimit => "States.DataLimitExceeded"
  | invalidPath | configuration | missingAttribute | unsupportedResource => "States.Runtime"
  | invalidArn => "InvalidArn"
  | invalidParameter => "InvalidParameterValue"
  | noSuchActivity => "ActivityDoesNotExist"
  | invalidToken => "InvalidToken"

/-- Whether the kind says that the definition itself is at fault. -/
def isConfiguration : ErrorKind → Bool
  | configuration | missingAttribute | unsupportedResource | noSuchActivity => true
  | _ => false

end ErrorKind

/-- Faults of data that the language has no error of its own for. -/
inductive Fault where
  | wrongType
  | badValue
  | noSuchField
  | noSuchIndex
  | noSuchKey
  | overflow
  | tooLarge
  | tooDeep
  | malformedJson
  | malformedUtf8
  | fileNotFound
  deriving DecidableEq, Inhabited

def Fault.name : Fault → String
  | wrongType => "TypeError"
  | badValue => "ValueError"
  | noSuchField => "AttributeError"
  | noSuchIndex => "IndexError"
  | noSuchKey => "KeyError"
  | overflow => "OverflowError"
  | tooLarge => "MemoryError"
  | tooDeep => "RecursionError"
  | malformedJson => "JSONDecodeError"
  | malformedUtf8 => "UnicodeDecodeError"
  | fileNotFound => "FileNotFoundError"

/-- What an execution or a request can fail with: an error of the states language, an error that a
service or its client reports, or a fault of the data. -/
inductive Failure where
  /-- An error of the language, whose message may be any value. -/
  | states (kind : ErrorKind) (name message : Value)
  | service (code : Value) (text : String)
  /-- Any other error of a client, by the name of its kind. -/
  | client (kind : String) (text : String)
  | fault (kind : Fault) (text : String)
  deriving Inhabited

namespace Failure

def ofKind (kind : ErrorKind) (text : String) : Failure :=
  .states kind (.str kind.defaultName) (.str text)

/-- An error under a name of its own; a name that is not given leaves the kind's. -/
def withName (kind : ErrorKind) (name message : Value) : Failure :=
  .states kind (if name.truthy then name else .str kind.defaultName) message

/-- An error that no retrier or catcher matches. -/
def runtime (text : String) : Failure :=
  .states .named (.str "States.Runtime") (.str text)

def wrongType (text : String) : Failure :=
  .fault .wrongType text

def noField (text : String) : Failure :=
  .fault .noSuchField text

/-- The name that retriers and catchers know an error by. -/
def name : Failure → Value
  | .states _ name _ => name
  | .service code _ => code
  | .client kind _ => .str kind
  | .fault kind _ => .str kind.name

def kind? : Failure → Option ErrorKind
  | .states kind _ _ => some kind
  | _ => none

/-- Whether an error is one of the states language. -/
def isStates (e : Failure) : Bool :=
  e.kind?.isSome

/-- Whether an error is one that no retrier or catcher matches: one of the definition, or one
named `States.Runtime`. -/
def isRuntime (e : Failure) : Bool :=
  (e.kind?.map ErrorKind.isConfiguration).getD false ||
    match e.name with
    | .str s => s == "States.Runtime"
    | _ => false

end Failure

abbrev Outcome (α : Type) := Except Failure α

end StatesLanguage
