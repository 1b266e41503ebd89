import StatesLanguage.Value

/-!
# Log entries
-/

namespace StatesLanguage

/-- How grave an entry of a log is. -/
inductive Level where
  | debug
  | info
  | warning
  | error
  | critical
  deriving DecidableEq, Inhabited

namespace Level

def all : List Level := [debug, info, warning, error, critical]

def name : Level → String
  | debug => "DEBUG"
  | info => "INFO"
  | warning => "WARNING"
  | error => "ERROR"
  | critical => "CRITICAL"

def number : Level → Int
  | debug => 10
  | info => 20
  | warning => 30
  | error => 40
  | critical => 50

end Level

/-- What is to be logged. -/
structure LogEntry where
  level : Level
  text : String
  deriving DecidableEq, Inhabited

end StatesLanguage
