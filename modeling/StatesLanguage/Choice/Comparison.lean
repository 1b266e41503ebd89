import StatesLanguage.Choice.Pattern
import StatesLanguage.Instant
import StatesLanguage.Value.Compare

/-!
# Comparisons of choice rules

Each comparison is made only between two values of its own kind; between others it is false.
-/

namespace StatesLanguage.Choice

/-- How the order of two values is asked for. -/
inductive Relation where
  | equals | greater | greaterEquals | less | lessEquals
  deriving DecidableEq, Inhabited

namespace Relation

/-- What a relation adds to the name of a comparison. -/
def ending : Relation → String
  | equals => "Equals"
  | greater => "GreaterThan"
  | greaterEquals => "GreaterThanEquals"
  | less => "LessThan"
  | lessEquals => "LessThanEquals"

def all : List Relation :=
  [equals, greater, greaterEquals, less, lessEquals]

/-- Whether two things that stand in an order are related; `none` stands in no relation. -/
def admits (r : Relation) (order : Option Ordering) : Bool :=
  match r, order with
  | equals, some .eq | greaterEquals, some .eq | lessEquals, some .eq => true
  | greater, some .gt | greaterEquals, some .gt => true
  | less, some .lt | lessEquals, some .lt => true
  | _, _ => false

end Relation

/-- What a rule compares its variable by. -/
inductive Comparison where
  | boolean
  | numeric (r : Relation)
  | string (r : Relation)
  | matchesPattern
  | timestamp (r : Relation)
  deriving DecidableEq, Inhabited

namespace Comparison

def name : Comparison → String
  | boolean => "BooleanEquals"
  | numeric r => "Numeric" ++ r.ending
  | string r => "String" ++ r.ending
  | matchesPattern => "StringMatches"
  | timestamp r => "Timestamp" ++ r.ending

def all : List Comparison :=
  boolean :: matchesPattern ::
    (Relation.all.map numeric ++ Relation.all.map string ++ Relation.all.map timestamp)

def ofName? (s : String) : Option Comparison :=
  all.find? (·.name == s)

/-- Texts are ordered by their characters. -/
def stringOrder (a b : String) : Ordering :=
  if a < b then .lt else if a = b then .eq else .gt

def holds (c : Comparison) (a b : Value) : Bool :=
  match c, a, b with
  | boolean, .bool x, .bool y => x == y
  | numeric r, a, b =>
    a.isNumeric && b.isNumeric &&
      match a.number?, b.number? with
      | some x, some y => r.admits (x.order? y)
      | _, _ => false
  | string r, .str x, .str y => r.admits (some (stringOrder x y))
  | matchesPattern, .str text, .str pattern => fitsPattern text pattern
  | timestamp r, a, b =>
    match Instant.ofValue? a, Instant.ofValue? b with
    | some x, some y => r.admits (some (compare x.micros y.micros))
    | _, _ => false
  | _, _, _ => false

end Comparison

/-- What a rule may ask about the type of its variable. -/
inductive TypeTest where
  | isBoolean | isNull | isNumeric | isString | isTimestamp | isPresent
  deriving DecidableEq, Inhabited

namespace TypeTest

def name : TypeTest → String
  | isBoolean => "IsBoolean"
  | isNull => "IsNull"
  | isNumeric => "IsNumeric"
  | isString => "IsString"
  | isTimestamp => "IsTimestamp"
  | isPresent => "IsPresent"

def all : List TypeTest :=
  [isBoolean, isNull, isNumeric, isString, isTimestamp, isPresent]

def ofName? (s : String) : Option TypeTest :=
  all.find? (·.name == s)

/-- Whether a value is of the type that is asked for. -/
def passes : TypeTest → Value → Bool
  | isBoolean, .bool _ => true
  | isNull, .null => true
  | isNumeric, v => v.isNumeric
  | isString, .str _ => true
  | isTimestamp, v => (Instant.ofValue? v).isSome
  | isPresent, _ => true
  | _, _ => false

def holds (t : TypeTest) : Option Value → Bool
  | some v => t.passes v
  | none => false

end TypeTest

end StatesLanguage.Choice
