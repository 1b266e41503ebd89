import StatesLanguage.Table

/-!
# Values

The data that a workflow hands from state to state: JSON values, with integers and floating
numbers kept apart and object members in the order in which they were put. A client of a service
may answer with more than JSON; those leaves are `Datum`s.
-/

namespace StatesLanguage

/-- What a client may answer with besides JSON. -/
inductive Datum where
  /-- A point in time, by its ISO text. -/
  | moment (iso : String)
  | bytes (content : List UInt8)
  /-- Bytes that are still to be read. -/
  | stream (content : List UInt8)
  deriving DecidableEq, Inhabited

/-- A JSON value, or one of the data that replies of services have besides. -/
inductive Value where
  | null
  | bool (b : Bool)
  | int (n : Int)
  | float (x : Float)
  | str (s : String)
  | arr (items : List Value)
  | obj (members : List (String × Value))
  | datum (d : Datum)
  deriving Inhabited

/-- The members of an object. -/
abbrev Members := Table Value

namespace Value

/-- The member of an object; other values have none. -/
def get? : Value → String → Option Value
  | .obj members, key => Table.get? members key
  | _, _ => none

def asString? : Value → Option String
  | .str s => some s
  | _ => none

def isObject : Value → Bool
  | .obj _ => true
  | _ => false

/-- Whether a value counts as given: not null, false, zero or empty. -/
def truthy : Value → Bool
  | .null => false
  | .bool b => b
  | .int n => n != 0
  | .float x => !(x == 0.0)
  | .str s => s != ""
  | .arr items => !items.isEmpty
  | .obj members => !members.isEmpty
  | .datum (.bytes content) => !content.isEmpty
  | .datum _ => true

/-- A number as the value holds it; booleans count as 0 and 1. -/
inductive Number where
  | int (n : Int)
  | float (x : Float)
  deriving Inhabited

def Number.toValue : Number → Value
  | .int n => .int n
  | .float x => .float x

/-- A value as a number; booleans count as one. -/
def number? : Value → Option Number
  | .bool b => some (.int (if b then 1 else 0))
  | .int n => some (.int n)
  | .float x => some (.float x)
  | _ => none

/-- A number proper, which a boolean is not. -/
def isNumeric : Value → Bool
  | .int _ | .float _ => true
  | _ => false

end Value

end StatesLanguage
