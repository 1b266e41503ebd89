/-!
# Floating numbers as exact fractions

A finite floating number is a mantissa times a power of two. Reading it that way, and rounding an
exact fraction back to the nearest one, ties to the even mantissa, makes every comparison, quotient
and remainder below a matter of integers.
-/

namespace StatesLanguage

/-- The value of a floating number: `mant * 2 ^ exp`, negated if `neg`. -/
inductive Binary where
  | nan
  | infinite (neg : Bool)
  | finite (neg : Bool) (mant : Nat) (exp : Int)
  deriving DecidableEq, Inhabited

namespace Binary

/-- The fields of a floating number, read from its bits. -/
def ofFloat (x : Float) : Binary :=
  let bits : Nat := x.toBits.toNat
  let neg := bits / Nat.pow 2 63 == 1
  let biased : Nat := bits / Nat.pow 2 52 % 2048
  let fraction := bits % Nat.pow 2 52
  if biased = 2047 then
    if fraction = 0 then .infinite neg else .nan
  else if biased = 0 then .finite neg fraction (-1074)
  else .finite neg (Nat.pow 2 52 + fraction) ((biased : Int) - 1075)

def infinity (neg : Bool) : Float :=
  Float.ofBits (UInt64.ofNat ((if neg then Nat.pow 2 63 else 0) + 2047 * Nat.pow 2 52))

def notANumber : Float :=
  Float.ofBits (UInt64.ofNat (2047 * Nat.pow 2 52 + Nat.pow 2 51))

/-- The quotient to the nearest integer, a half to the even one. -/
def roundDiv (num den : Nat) : Nat :=
  let q := num / den
  let twice := 2 * (num % den)
  if twice < den then q
  else if den < twice then q + 1
  else if q % 2 = 0 then q else q + 1

/-- The floating number with this mantissa, below `2 ^ 53` or equal, and exponent. -/
def assemble (neg : Bool) (mant : Nat) (exp : Int) : Float :=
  let sign := if neg then Nat.pow 2 63 else 0
  let (mant, exp) := if mant = Nat.pow 2 53 then (Nat.pow 2 52, exp + 1) else (mant, exp)
  if mant < Nat.pow 2 52 then Float.ofBits (UInt64.ofNat (sign + mant))
  else if exp + 1075 ≥ 2047 then infinity neg
  else Float.ofBits (UInt64.ofNat (sign + (exp + 1075).toNat * Nat.pow 2 52 + (mant - Nat.pow 2 52)))

/-- The floating number nearest to a fraction. -/
def ofRatio (neg : Bool) (num den : Nat) : Float :=
  if num = 0 ∨ den = 0 then assemble neg 0 (-1074)
  else
    let guess : Int := (num.log2 : Int) - den.log2 - 53
    let exp (e : Int) : Int := max e (-1074)
    let scaled (e : Int) : Nat :=
      if e < 0 then roundDiv (num * Nat.pow 2 e.natAbs) den else roundDiv num (den * Nat.pow 2 e.natAbs)
    let low := exp guess
    if scaled low ≤ Nat.pow 2 53 then assemble neg (scaled low) low
    else assemble neg (scaled (low + 1)) (low + 1)

def ofInt (n : Int) : Float :=
  ofRatio (n < 0) n.natAbs 1

def isFinite (x : Float) : Bool :=
  match ofFloat x with
  | .finite .. => true
  | _ => false

/-- A finite number as a fraction with a positive denominator. -/
def ratio (neg : Bool) (mant : Nat) (exp : Int) : Int × Nat :=
  let signed : Int := if neg then -(mant : Int) else mant
  if exp < 0 then (signed, Nat.pow 2 exp.natAbs) else (signed * Nat.pow 2 exp.natAbs, 1)

/-- A floating number as a fraction, if it is finite. -/
def ratio? (x : Float) : Option (Int × Nat) :=
  match ofFloat x with
  | .finite neg mant exp => some (ratio neg mant exp)
  | _ => none

/-- The integer part of a finite number, the fraction dropped. -/
def truncate? (x : Float) : Option Int :=
  (ratio? x).map fun (num, den) => Int.tdiv num den

/-- Whether a number has a minus sign, which zero can have too. -/
def isNegative (x : Float) : Bool :=
  match ofFloat x with
  | .infinite neg | .finite neg _ _ => neg
  | .nan => false

def zero (neg : Bool) : Float :=
  assemble neg 0 (-1074)

/-- What the quotient rounded towards zero leaves, exactly; it has the sign of the dividend. -/
def remainder (x y : Float) : Float :=
  match ofFloat x, ofFloat y with
  | .finite .., .infinite _ => x
  | .finite neg mant exp, .finite neg' mant' exp' =>
    if mant' = 0 then notANumber
    else
      let (m, p) := ratio neg mant exp
      let (n, q) := ratio neg' mant' exp'
      ofRatio neg (Int.tmod (m * q) (n * p)).natAbs (p * q)
  | _, _ => notANumber

/-- The remainder for the quotient rounded down; it has the sign of the divisor. -/
def floorMod (x y : Float) : Float :=
  let r := remainder x y
  if r == 0.0 then zero (isNegative y)
  else if (y < 0.0) != (r < 0.0) then r + y
  else r

/-- The quotient rounded down. It is found from the remainder, so that the rounding of the quotient
itself does not carry it to the next integer. -/
def floorDiv (x y : Float) : Float :=
  let r := remainder x y
  let q := (x - r) / y
  let q := if !(r == 0.0) && ((y < 0.0) != (r < 0.0)) then q - 1.0 else q
  if q == 0.0 then zero (isNegative (x / y))
  else if q - q.floor > 0.5 then q.floor + 1.0
  else q.floor

/-- Whether a number has no fraction. -/
def isWhole (x : Float) : Bool :=
  (ratio? x).any fun (num, den) => num % den == 0

end Binary

end StatesLanguage
