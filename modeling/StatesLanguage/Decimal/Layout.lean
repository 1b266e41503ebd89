import StatesLanguage.Decimal.Shortest

/-!
# Layout of decimals

How the digits of a floating number are set as text: positionally, or with a power of ten.
-/

namespace StatesLanguage.Decimal

/-- How a floating number is written: from where on with a power of ten, and what it is called if it
is no number. -/
structure Layout where
  /-- The least power of ten of the leading digit that is written positionally. -/
  least : Int
  /-- The power of ten from which the leading digit is no longer written positionally. -/
  limit : Int
  /-- The least number of digits of an exponent. -/
  exponentWidth : Nat
  nan : String
  infinity : String

def zeros (n : Nat) : List Char :=
  List.replicate n '0'

/-- A number with the point after its first `point` digits; zeros fill up on either side. -/
def positional (digits : List Char) (point : Int) : List Char :=
  if point ≤ 0 then '0' :: '.' :: zeros point.natAbs ++ digits
  else
    let whole := digits.take point.toNat
    let rest := digits.drop point.toNat
    whole ++ zeros (point.toNat - digits.length) ++ '.' :: (if rest.isEmpty then ['0'] else rest)

def scientific (digits : List Char) (power : Int) (width : Nat) : List Char :=
  let exponent := Nat.toDigits 10 power.natAbs
  let mantissa := match digits with
    | [d] => [d]
    | d :: rest => d :: '.' :: rest
    | [] => []
  mantissa ++ 'e' :: (if power < 0 then '-' else '+') ::
    zeros (width - exponent.length) ++ exponent

/-- Digits without the zeros at the end. -/
def significant (digits : List Char) : List Char :=
  (digits.reverse.dropWhile (· == '0')).reverse

def Layout.unsigned (layout : Layout) (d : Digits) : List Char :=
  let all := Nat.toDigits 10 d.digits
  let power := d.exp + (all.length : Int) - 1
  let digits := significant all
  if layout.least ≤ power ∧ power < layout.limit then positional digits (power + 1)
  else scientific digits power layout.exponentWidth

def Layout.render (layout : Layout) (x : Float) : String :=
  match Binary.ofFloat x with
  | .nan => layout.nan
  | .infinite neg => (if neg then "-" else "") ++ layout.infinity
  | .finite neg mant exp =>
    (if neg then "-" else "") ++
      if mant = 0 then "0.0" else String.ofList (layout.unsigned (shortest mant exp))

/-- Numbers in messages: positional from `0.0001` up to `10 ^ 16`, exponents of two digits. -/
def display : Layout := ⟨-4, 16, 2, "nan", "inf"⟩

/-- Numbers in JSON texts: exponents are not padded, and the numbers that JSON has no notation for
are written out. -/
def json : Layout := ⟨-4, 16, 1, "NaN", "Infinity"⟩

end StatesLanguage.Decimal
