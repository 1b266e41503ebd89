import StatesLanguage.Error
import StatesLanguage.Decimal.Binary

/-!
# Equality, order and membership

Numbers compare by their exact values, integers with floating numbers too, and booleans are the
numbers 0 and 1. Two objects are equal if they have the same members in whatever order.
-/

namespace StatesLanguage.Value

namespace Number

def ratio? : Number → Option (Int × Nat)
  | .int n => some (n, 1)
  | .float x => Binary.ratio? x

/-- The order of two numbers; `none` if one is not a number. -/
def order? (a b : Number) : Option Ordering :=
  match a, b with
  | .int m, .int n => some (compare m n)
  | a, b =>
    match a.ratio?, b.ratio? with
    | some (m, p), some (n, q) => some (compare (m * q) (n * p))
    | _, _ =>
      let toFloat : Number → Float
        | .int n => if n < 0 then -1.0 else 1.0
        | .float x => x
      let (x, y) := (toFloat a, toFloat b)
      if x < y then some .lt else if y < x then some .gt else if x == y then some .eq else none

def equal (a b : Number) : Bool :=
  a.order? b == some .eq

def less (a b : Number) : Bool :=
  a.order? b == some .lt

def lessEqual (a b : Number) : Bool :=
  a.less b || a.equal b

end Number

mutual

/-- Equality of values: numbers by value, members in any order. -/
def same : Value → Value → Bool
  | .null, .null => true
  | .str a, .str b => a == b
  | .arr xs, .arr ys => sameItems xs ys
  | .obj xs, .obj ys => xs.length == ys.length && sameMembers xs ys
  | .datum a, .datum b => a == b
  | a, b =>
    match a.number?, b.number? with
    | some x, some y => x.equal y
    | _, _ => false

def sameItems : List Value → List Value → Bool
  | [], [] => true
  | x :: xs, y :: ys => same x y && sameItems xs ys
  | _, _ => false

def sameMembers : List (String × Value) → Members → Bool
  | [], _ => true
  | (key, value) :: rest, ys =>
    (match Table.get? ys key with
      | some other => same value other
      | none => false) && sameMembers rest ys

end

/-- What errors call the type of a value. -/
def kindName : Value → String
  | .null => "NoneType"
  | .bool _ => "bool"
  | .int _ => "int"
  | .float _ => "float"
  | .str _ => "str"
  | .arr _ => "list"
  | .obj _ => "dict"
  | .datum (.bytes _) => "bytes"
  | .datum _ => "object"

def incomparable (a b : Value) : Failure :=
  .wrongType ("'<' not supported between instances of '" ++ a.kindName ++ "' and '" ++ b.kindName ++ "'")

mutual

/-- Whether one value comes before another: numbers by size, texts by code points, arrays item by
item. Values of other kinds, or of two kinds, have no order. -/
def before : Value → Value → Outcome Bool
  | .str a, .str b => .ok (a < b)
  | .arr xs, .arr ys => beforeItems xs ys
  | a, b =>
    match a.number?, b.number? with
    | some x, some y => .ok (x.less y)
    | _, _ => .error (incomparable a b)

/-- An array is before another by the first items that differ, or if it ends first. -/
def beforeItems : List Value → List Value → Outcome Bool
  | _, [] => .ok false
  | [], _ :: _ => .ok true
  | x :: xs, y :: ys => if same x y then beforeItems xs ys else before x y

end

mutual

def notAfter : Value → Value → Outcome Bool
  | .str a, .str b => .ok (a ≤ b)
  | .arr xs, .arr ys => notAfterItems xs ys
  | a, b =>
    match a.number?, b.number? with
    | some x, some y => .ok (x.lessEqual y)
    | _, _ => .error (incomparable a b)

def notAfterItems : List Value → List Value → Outcome Bool
  | [], _ => .ok true
  | _ :: _, [] => .ok false
  | x :: xs, y :: ys => if same x y then notAfterItems xs ys else notAfter x y

end

/-- Whether characters occur in a row. -/
def occursIn (needle hay : List Char) : Bool :=
  needle.isPrefixOf hay || match hay with
    | [] => false
    | _ :: rest => occursIn needle rest

/-- Whether a container has an item: an array by equality, an object by key, a text by occurrence
of a part. -/
def holds (container item : Value) : Outcome Bool :=
  match container with
  | .arr items => .ok (items.any (same item ·))
  | .obj members =>
    match item with
    | .str key => .ok (Table.has members key)
    | .arr _ | .obj _ => .error (.wrongType "unhashable type")
    | _ => .ok false
  | .str text =>
    match item with
    | .str part => .ok (occursIn part.toList text.toList)
    | _ => .error (.wrongType "'in <string>' requires string as left operand")
  | v => .error (.wrongType ("argument of type '" ++ v.kindName ++ "' is not iterable"))

end StatesLanguage.Value
