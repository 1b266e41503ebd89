import StatesLanguage.Path.Operand
import StatesLanguage.Value.Arithmetic
import StatesLanguage.Text.Percent

/-!
# Operators

What operators make of operands, where they make anything of them: numbers are calculated with,
texts, lists and tuples are joined and repeated, sets are united and intersected, and the percent
sign fills the marks of a text.
-/

namespace StatesLanguage.Path

/-- The operators with two operands. -/
inductive Operator where
  | plus | minus | times | divide | floorDivide | modulo | power
  | bitOr | bitXor | bitAnd | shiftLeft | shiftRight
  /-- The product of matrices, of which there are none. -/
  | matrixTimes
  deriving DecidableEq, Inhabited

namespace Operand

def arith (op : Value.Number → Value.Number → Outcome Value.Number) (a b : Operand) :
    Option Operand := do
  return ofNumber (← (op (← a.number?) (← b.number?)).toOption)

def join (a b : Operand) : Option Operand :=
  match a, b with
  | .str s, .str t => some (.str (s ++ t))
  | .bytes s, .bytes t => some (.bytes (s ++ t))
  | .list xs, .list ys => some (.list (xs ++ ys))
  | .tuple xs, .tuple ys => some (.tuple (xs ++ ys))
  | a, b => arith Value.Number.add a b

def copies? {α : Type} (items : List α) (count : Int) : Option (List α) :=
  (Value.repeated items.length count.toNat fun n => (List.replicate n items).flatten).toOption

def times (a b : Operand) : Option Operand :=
  match a, b with
  | .str s, o | o, .str s => do return .str (String.ofList (← copies? s.toList (← o.integer?)))
  | .bytes s, o | o, .bytes s => do return .bytes (← copies? s (← o.integer?))
  | .list xs, o | o, .list xs => do return .list (← copies? xs (← o.integer?))
  | .tuple xs, o | o, .tuple xs => do return .tuple (← copies? xs (← o.integer?))
  | a, b => arith Value.Number.mul a b

/-! ## Filling texts -/

def toArgument (o : Operand) : Text.Percent.Argument :=
  { shown := o.text?
    quoted := o.inner?
    number := o.number?
    isText := match o with | .str _ => true | _ => false }

def toArguments (o : Operand) : Text.Percent.Arguments :=
  match o with
  | .tuple items => ⟨items.map toArgument, none, true⟩
  | .table entries =>
    ⟨[o.toArgument], some fun name => (lookup? entries (.str name)).map toArgument, false⟩
  | .list _ | .bytes _ => ⟨[o.toArgument], none, false⟩
  | _ => ⟨[o.toArgument], none, true⟩

/-- What is left by a division, or a text with its marks filled in. -/
def modulo (a b : Operand) : Option Operand :=
  match a with
  | .str text => (Text.Percent.filled? text b.toArguments).map .str
  | a => arith Value.Number.floorMod a b

/-! ## Bits and sets -/

/-- The bits of an integer as a natural number: those of `n`, or of `-n - 1` for a negative one. -/
def magnitude (n : Int) : Nat :=
  if n < 0 then (-n - 1).toNat else n.toNat

/-- An operation on the bits of two integers in two's complement. -/
def bitwise (op : Bool → Bool → Bool) (m n : Int) : Int :=
  let neg := op (m < 0) (n < 0)
  let size := max (magnitude m) (magnitude n)
  let bit (k : Int) (i : Nat) : Bool := (magnitude k).testBit i != (k < 0)
  let bits := (List.range (size.log2 + 1)).foldl
    (fun sum i => if op (bit m i) (bit n i) != neg then sum + Nat.pow 2 i else sum) 0
  if neg then -(bits : Int) - 1 else bits

/-- A bitwise operation; on booleans it gives a boolean. -/
def bits (op : Bool → Bool → Bool) (a b : Operand) : Option Operand :=
  match a, b with
  | .bool x, .bool y => some (.bool (op x y))
  | a, b => do return .int (bitwise op (← a.integer?) (← b.integer?))

/-- The items of one set that are among those of another, or that are not. -/
def kept (among : Bool) (xs ys : List Operand) : List Operand :=
  xs.filter fun x => x.isAmong ys == among

def bitOr (a b : Operand) : Option Operand :=
  match a, b with
  | .set xs, .set ys => some (.set (xs ++ kept false ys xs))
  | .table xs, .table ys => some (.table (ys.foldl (fun done (k, v) => putEntry done k v) xs))
  | a, b => bits (· || ·) a b

def bitAnd (a b : Operand) : Option Operand :=
  match a, b with
  | .set xs, .set ys => some (.set (kept true xs ys))
  | a, b => bits (· && ·) a b

def bitXor (a b : Operand) : Option Operand :=
  match a, b with
  | .set xs, .set ys => some (.set (kept false xs ys ++ kept false ys xs))
  | a, b => bits (· != ·) a b

def minus (a b : Operand) : Option Operand :=
  match a, b with
  | .set xs, .set ys => some (.set (kept false xs ys))
  | a, b => arith Value.Number.sub a b

def maxShift : Int := Nat.pow 2 32

def shift (left : Bool) (a b : Operand) : Option Operand := do
  let n ← a.integer?
  let k ← b.integer?
  if k < 0 then none
  else if left then
    if n = 0 then return .int 0
    else if k > maxShift then none
    else return .int (n * Nat.pow 2 k.toNat)
  else if k > maxShift then return .int (if n < 0 then -1 else 0)
  else return .int (Int.fdiv n (Nat.pow 2 k.toNat))

end Operand

def Operator.apply : Operator → Operand → Operand → Option Operand
  | plus => Operand.join
  | minus => Operand.minus
  | times => Operand.times
  | divide => Operand.arith Value.Number.div
  | floorDivide => Operand.arith Value.Number.floorDiv
  | modulo => Operand.modulo
  | power => Operand.arith Value.Number.pow
  | bitOr => Operand.bitOr
  | bitXor => Operand.bitXor
  | bitAnd => Operand.bitAnd
  | shiftLeft => Operand.shift true
  | shiftRight => Operand.shift false
  | matrixTimes => fun _ _ => none

inductive Sign where
  | plain | negated | inverted
  deriving DecidableEq, Inhabited

def Sign.apply : Sign → Operand → Option Operand
  | plain, .imaginary x => some (.imaginary x)
  | plain, o => o.number?.map .ofNumber
  | negated, .imaginary x => some (.imaginary (-x))
  | negated, o => o.number?.map fun n => .ofNumber n.neg
  | inverted, o => o.integer?.map fun n => .int (-n - 1)

inductive Comparison where
  | equal | unequal | less | lessEqual | greater | greaterEqual | isIn | notIn | isSame | isNotSame
  deriving DecidableEq, Inhabited

namespace Operand

/-- Whether two operands are one and the same: small integers, single characters and what there is
only one of. -/
def isIdentical : Operand → Operand → Bool
  | .null, .null | .ellipsis, .ellipsis => true
  | .bool a, .bool b => a == b
  | .int a, .int b => a == b && -5 ≤ a && a ≤ 256
  | .str a, .str b => a == b && a.length ≤ 1
  | .tuple [], .tuple [] => true
  | .named a, .named b => a == b
  | _, _ => false

end Operand

def Comparison.apply : Comparison → Operand → Operand → Option Bool
  | equal, a, b => some (a.same b)
  | unequal, a, b => some (!a.same b)
  | less, a, b => Operand.ordered (· == .lt) a b
  | lessEqual, a, b => Operand.ordered (· != .gt) a b
  | greater, a, b => Operand.ordered (· == .gt) a b
  | greaterEqual, a, b => Operand.ordered (· != .lt) a b
  | isIn, a, b => b.holds a
  | notIn, a, b => (b.holds a).map (!·)
  | isSame, a, b => some (a.isIdentical b)
  | isNotSame, a, b => some (!a.isIdentical b)

end StatesLanguage.Path
