import StatesLanguage.Value.Compare

/-!
# Arithmetic of numbers

Integers stay integers under sums, differences, products and powers; one floating operand makes the
result floating. A quotient is always floating.
-/

namespace StatesLanguage.Value.Number

def tooLarge : Failure :=
  .fault .overflow "int too large to convert to float"

def divisionByZero : Failure :=
  .fault .badValue "division by zero"

/-- The floating number of a number; integers beyond the range have none. -/
def toFloat : Number → Outcome Float
  | .float x => .ok x
  | .int n =>
    let x := Binary.ofInt n
    if Binary.isFinite x then .ok x else .error tooLarge

/-- Integers among themselves stay integers; else both are made floating. -/
def lift (onInt : Int → Int → Outcome Number) (onFloat : Float → Float → Outcome Float) :
    Number → Number → Outcome Number
  | .int m, .int n => onInt m n
  | a, b => do return .float (← onFloat (← a.toFloat) (← b.toFloat))

def add : Number → Number → Outcome Number :=
  lift (fun m n => .ok (.int (m + n))) (fun x y => .ok (x + y))

def sub : Number → Number → Outcome Number :=
  lift (fun m n => .ok (.int (m - n))) (fun x y => .ok (x - y))

def mul : Number → Number → Outcome Number :=
  lift (fun m n => .ok (.int (m * n))) (fun x y => .ok (x * y))

def unlessZero {α : Type} (op : Float → Float → α) (x y : Float) : Outcome α :=
  if y == 0.0 then .error divisionByZero else .ok (op x y)

/-- The quotient of integers, rounded once. -/
def intQuotient (m n : Int) : Outcome Number :=
  if n = 0 then .error divisionByZero
  else
    let x := Binary.ofRatio ((m < 0) != (n < 0)) m.natAbs n.natAbs
    if Binary.isFinite x then .ok (.float x) else .error tooLarge

def div : Number → Number → Outcome Number :=
  lift intQuotient (unlessZero (· / ·))

def floorDiv : Number → Number → Outcome Number :=
  lift (fun m n => if n = 0 then .error divisionByZero else .ok (.int (Int.fdiv m n)))
    (unlessZero Binary.floorDiv)

/-- What is left by the quotient rounded down; it has the sign of the divisor. -/
def floorMod : Number → Number → Outcome Number :=
  lift (fun m n => if n = 0 then .error divisionByZero else .ok (.int (Int.fmod m n)))
    (unlessZero Binary.floorMod)

/-- A power of an integer. The powers of one, zero and minus one are known without multiplying. -/
def intPower (m : Int) (n : Nat) : Int :=
  if m = 1 then 1
  else if m = 0 then if n = 0 then 1 else 0
  else if m = -1 then if n % 2 = 0 then 1 else -1
  else Int.pow m n

theorem intPower_eq (m : Int) (n : Nat) : intPower m n = Int.pow m n := by
  have hone : Nat.pow 1 n = 1 := Nat.one_pow n
  unfold intPower
  split
  · subst m
    exact congrArg Int.ofNat hone.symm
  · split
    · subst m
      cases n with
      | zero => rfl
      | succ k => exact congrArg Int.ofNat (Nat.zero_pow (Nat.succ_pos k)).symm
    · split
      · subst m
        change _ = if n % 2 = 0 then Int.ofNat (Nat.pow 1 n) else -Int.ofNat (Nat.pow 1 n)
        rw [hone]
        rfl
      · rfl

/-- A power of floating numbers. A finite power that is too large, a negative power of zero and a
fractional power of a negative number are refused. -/
def floatPower (x y : Float) : Outcome Float :=
  let finite := Binary.isFinite x && Binary.isFinite y
  let z := Float.pow x y
  if finite && x == 0.0 && y < 0.0 then .error divisionByZero
  else if finite && x < 0.0 && !Binary.isWhole y then .error (.wrongType "power is not real")
  else if finite && !Binary.isFinite z then
    .error (.fault .overflow "(34, 'Numerical result out of range')")
  else .ok z

/-- A power: of integers an integer unless the exponent is negative. -/
def pow : Number → Number → Outcome Number
  | .int m, .int n =>
    if n < 0 then do
      return .float (← floatPower (← toFloat (.int m)) (← toFloat (.int n)))
    else .ok (.int (intPower m n.toNat))
  | a, b => do return .float (← floatPower (← a.toFloat) (← b.toFloat))

def neg : Number → Number
  | .int n => .int (-n)
  | .float x => .float (-x)

end StatesLanguage.Value.Number
