import StatesLanguage.Decimal.Binary

/-!
# Shortest decimals

The decimal of fewest digits that reads back as the floating number it was made from and, among
those, the nearest to it. The numbers that round to a floating number form an interval; for one
digit, two digits and so on, its two neighbours on that decimal grid are tried, and the first grid
with a neighbour inside the interval gives the digits.
-/

namespace StatesLanguage.Decimal

/-- The decimal `digits * 10 ^ exp`. -/
structure Digits where
  digits : Nat
  exp : Int
  deriving DecidableEq, Inhabited

/-- A number with its rounding interval, all three over the denominator `den`. -/
structure Interval where
  low : Nat
  value : Nat
  high : Nat
  den : Nat
  /-- Whether the ends round to the number too. -/
  closed : Bool

/-- The interval of the positive numbers that round to `mant * 2 ^ exp`. -/
def interval (mant : Nat) (exp : Int) : Interval :=
  let below := if mant = Nat.pow 2 52 ∧ exp > -1074 then 1 else 2
  let scale := if exp < 0 then 1 else Nat.pow 2 exp.natAbs
  { low := (4 * mant - below) * scale
    value := 4 * mant * scale
    high := (4 * mant + 2) * scale
    den := 4 * (if exp < 0 then Nat.pow 2 exp.natAbs else 1)
    closed := mant % 2 == 0 }

def Interval.contains (i : Interval) (num den : Nat) : Bool :=
  let above := i.low * den < num * i.den || (i.closed && i.low * den == num * i.den)
  let below := num * i.den < i.high * den || (i.closed && num * i.den == i.high * den)
  above && below

/-- How many times a number has to be multiplied by ten to reach `den`. -/
def tenfolds (den : Nat) : Nat → Nat → Nat
  | 0, _ => 0
  | fuel + 1, num => if den ≤ num then 0 else tenfolds den fuel (10 * num) + 1

/-- The power of ten of the leading digit of a fraction. -/
def magnitude (num den : Nat) : Int :=
  if den ≤ num then ((Nat.toDigits 10 (num / den)).length : Int) - 1
  else -(tenfolds den 400 num : Int)

/-- The point of the grid of step `10 ^ exp` that lies in the interval, the nearer of two, of two
equally near the even one. -/
def gridPoint? (i : Interval) (exp : Int) : Option Digits :=
  let num := if exp < 0 then i.value * Nat.pow 10 exp.natAbs else i.value
  let den := if exp < 0 then i.den else i.den * Nat.pow 10 exp.natAbs
  let inside (d : Nat) : Bool :=
    if exp < 0 then i.contains d (Nat.pow 10 exp.natAbs)
    else i.contains (d * Nat.pow 10 exp.natAbs) 1
  let d := num / den
  match inside d, inside (d + 1) with
  | true, true =>
    let twice := 2 * (num % den)
    if twice < den ∨ (twice = den ∧ d % 2 = 0) then some ⟨d, exp⟩ else some ⟨d + 1, exp⟩
  | true, false => some ⟨d, exp⟩
  | false, true => some ⟨d + 1, exp⟩
  | false, false => none

/-- The digits of the coarsest grid, from this one on, that has a point inside the interval. -/
def finer (i : Interval) : Nat → Int → Digits
  | 0, exp => ⟨i.value / i.den, exp⟩
  | fuel + 1, exp => (gridPoint? i exp).getD (finer i fuel (exp - 1))

/-- The shortest decimal of `mant * 2 ^ exp`, for a positive mantissa. -/
def shortest (mant : Nat) (exp : Int) : Digits :=
  let i := interval mant exp
  finer i 18 (magnitude i.value i.den)

end StatesLanguage.Decimal
