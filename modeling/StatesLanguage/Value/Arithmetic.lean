import StatesLanguage.Value.Number

/-!
# Arithmetic of values

Numbers are calculated with as numbers. A text or an array times an integer is that many copies of
it.
-/

namespace StatesLanguage.Value

def noOperator (a b : Value) : Failure :=
  .wrongType ("unsupported operand type(s): '" ++ a.kindName ++ "' and '" ++ b.kindName ++ "'")

def arith (op : Number → Number → Outcome Number) (a b : Value) : Outcome Value :=
  match a.number?, b.number? with
  | some x, some y => (op x y).map Number.toValue
  | _, _ => .error (noOperator a b)

def copies? : Value → Option Nat
  | .int n => some n.toNat
  | .bool b => some (if b then 1 else 0)
  | _ => none

/-- The most characters or items that copies may come to. -/
def maxCopies : Nat := Nat.pow 2 32

/-- So many copies of something of a size, if they are not too many. -/
def repeated {α : Type} (size count : Nat) (make : Nat → α) : Outcome α :=
  if count ≥ Nat.pow 2 63 then .error (.fault .overflow "cannot fit 'int' into an index-sized integer")
  else if size * count > maxCopies then .error (.fault .tooLarge "")
  else .ok (make (if size = 0 then 0 else count))

def times? (v : Value) (count : Nat) : Option (Outcome Value) :=
  match v with
  | .str s =>
    some (repeated s.length count fun n => .str (String.join (List.replicate n s)))
  | .arr xs => some (repeated xs.length count fun n => .arr (List.replicate n xs).flatten)
  | _ => none

/-- A product, or copies of a text or an array. -/
def mul (a b : Value) : Outcome Value :=
  match (copies? b).bind (times? a), (copies? a).bind (times? b) with
  | some v, _ | _, some v => v
  | none, none => arith Number.mul a b

def sub (a b : Value) : Outcome Value :=
  arith Number.sub a b

def div (a b : Value) : Outcome Value :=
  arith Number.div a b

def floorDiv (a b : Value) : Outcome Value :=
  arith Number.floorDiv a b

def pow (a b : Value) : Outcome Value :=
  arith Number.pow a b

def size : Value → Outcome Nat
  | .str s => .ok s.length
  | .arr items => .ok items.length
  | .obj members => .ok members.length
  | .datum (.bytes content) => .ok content.length
  | v => .error (.wrongType ("object of type '" ++ v.kindName ++ "' has no len()"))

end StatesLanguage.Value
