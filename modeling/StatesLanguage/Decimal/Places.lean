import StatesLanguage.Decimal.Layout

/-!
# Decimals of given places

A number with a given count of digits behind the point, with a power of ten, or with a given count
of digits in all. The number is a fraction, taken exactly and rounded once, a half to the even
digit.
-/

namespace StatesLanguage.Decimal

/-- A number that is not negative, as an exact fraction. -/
structure Fraction where
  num : Nat
  den : Nat

namespace Fraction

/-- The number to the nearest multiple of `10 ^ (-places)`, counted in those. -/
def scaled (f : Fraction) (places : Int) : Nat :=
  if places < 0 then Binary.roundDiv f.num (f.den * Nat.pow 10 places.natAbs)
  else Binary.roundDiv (f.num * Nat.pow 10 places.natAbs) f.den

/-- The power of ten and the digits of a number, the first of which is zero only for zero itself. -/
def leading (f : Fraction) (places : Nat) : Int × List Char :=
  if f.num = 0 then (0, zeros (places + 1))
  else
    let power := magnitude f.num f.den
    let digits := Nat.toDigits 10 (f.scaled (places - power))
    if digits.length > places + 1 then (power + 1, digits.take (places + 1)) else (power, digits)

end Fraction

/-- Digits with a point before the last `places` of them. The point is left out if nothing is behind
it, unless it is asked for. -/
def pointed (point : Bool) (places : Nat) (digits : List Char) : List Char :=
  let digits := zeros (places + 1 - digits.length) ++ digits
  let whole := digits.take (digits.length - places)
  if places = 0 then if point then whole ++ ['.'] else whole
  else whole ++ '.' :: digits.drop (digits.length - places)

/-- A fraction with so many places behind the point. -/
def fixed (point : Bool) (places : Nat) (f : Fraction) : List Char :=
  pointed point places (Nat.toDigits 10 (f.scaled places))

def powerText (power : Int) : List Char :=
  let exponent := Nat.toDigits 10 power.natAbs
  'e' :: (if power < 0 then '-' else '+') :: zeros (2 - exponent.length) ++ exponent

/-- A fraction with one digit before the point and a power of ten behind it. -/
def withPower (point : Bool) (places : Nat) (f : Fraction) : List Char :=
  let (power, digits) := f.leading places
  pointed point places digits ++ powerText power

/-- A decimal without the zeros at its end, nor the point if nothing is left behind it. -/
def trimmed (cs : List Char) : List Char :=
  if cs.contains '.' then
    let cs := (cs.reverse.dropWhile (· == '0')).reverse
    if cs.getLast? = some '.' then cs.dropLast else cs
  else cs

/-- The text with `count` digits in all, with a power of ten if the number is very small or has more
digits than that before the point. Zeros at the end are kept if asked for. -/
def general (keep : Bool) (count : Nat) (f : Fraction) : List Char :=
  let count := max count 1
  let (power, digits) := f.leading (count - 1)
  let tidy (cs : List Char) := if keep then cs else trimmed cs
  if -4 ≤ power ∧ power < count then
    let places := ((count : Int) - 1 - power).toNat
    tidy (pointed keep places (Nat.toDigits 10 (f.scaled places)))
  else tidy (pointed keep (count - 1) digits) ++ powerText power

end StatesLanguage.Decimal
