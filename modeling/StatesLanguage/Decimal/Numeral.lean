import StatesLanguage.Decimal.Binary
import StatesLanguage.Text.Blank
import StatesLanguage.Text.Digit

/-!
# Numerals

Integers and floating numbers as people write them: white space around, a sign, digits of any
script, and low lines between digits.
-/

namespace StatesLanguage.Decimal

open Text

/-- The floating number nearest to `mant * 10 ^ exp`. -/
def toFloat (neg : Bool) (mant : Nat) (exp : Int) : Float :=
  if mant = 0 then Binary.ofRatio neg 0 1
  else
    let size := exp + (Nat.toDigits 10 mant).length
    if size > 400 then Binary.infinity neg
    else if size < -400 then Binary.ofRatio neg 0 1
    else if exp < 0 then Binary.ofRatio neg mant (Nat.pow 10 exp.natAbs)
    else Binary.ofRatio neg (mant * Nat.pow 10 exp.natAbs) 1

/-- White space around a numeral: ASCII's, and that of the other scripts. -/
def isMargin (c : Char) : Bool :=
  if c.toNat < 128 then c == ' ' || (9 ≤ c.toNat && c.toNat ≤ 13) else isBlank c

def stripMargin (cs : List Char) : List Char :=
  ((cs.dropWhile isMargin).reverse.dropWhile isMargin).reverse

/-- The sign of a numeral, and what follows it. -/
def sign : List Char → Bool × List Char
  | '-' :: rest => (true, rest)
  | '+' :: rest => (false, rest)
  | cs => (false, cs)

def lowerAscii (c : Char) : Char :=
  if 'A' ≤ c && c ≤ 'Z' then Char.ofNat (c.toNat + 32) else c

/-- Digits of any script become ASCII's. -/
def plainDigit (c : Char) : Char :=
  match decimalDigit? c with
  | some d => Char.ofNat (48 + d)
  | none => c

/-- Takes out the low lines between digits; `none` if one stands elsewhere. -/
def dropGroups? (prev : Char) : List Char → Option (List Char)
  | [] => if prev = '_' then none else some []
  | c :: rest =>
    if c = '_' then
      if isAsciiDigit prev then dropGroups? '_' rest else none
    else if prev = '_' && !isAsciiDigit c then none
    else (dropGroups? c rest).map (c :: ·)

def digitsOf (cs : List Char) : List Nat :=
  cs.filterMap asciiDigit?

/-- The digits that an integer may be read or shown with. -/
def maxDigits : Nat := 4300

/-- Whether an integer has too many digits for a numeral. The logarithm settles the common case
without the power of ten. -/
def isTooLong (n : Int) : Bool :=
  n.natAbs.log2 ≥ 3 * maxDigits && n.natAbs ≥ Nat.pow 10 maxDigits

/-- Why a numeral cannot be read as an integer. -/
inductive IntegerFault where
  | malformed
  | tooLong (digits : Nat)
  deriving DecidableEq

/-- Reads an integer. A run of too many digits is refused before what follows it is looked at. -/
def parseInt (cs : List Char) : Except IntegerFault Int :=
  let (neg, rest) := sign ((stripMargin cs).map plainDigit)
  let run := rest.takeWhile fun c => isAsciiDigit c || c == '_'
  match dropGroups? ' ' run with
  | none => .error .malformed
  | some digits =>
    if digits.length > maxDigits then .error (.tooLong digits.length)
    else if digits.isEmpty || run.length < rest.length then .error .malformed
    else
      let n : Int := ofDigits (digitsOf digits)
      .ok (if neg then -n else n)

def readInt? (cs : List Char) : Option Int :=
  (parseInt cs).toOption

def exponent? : List Char → Option Int
  | [] => some 0
  | c :: rest =>
    if c = 'e' || c = 'E' then
      let (neg, digits) := sign rest
      if digits.isEmpty || !digits.all isAsciiDigit then none
      else
        let n : Int := ofDigits (digitsOf digits)
        some (if neg then -n else n)
    else none

/-- The floating number nearest to a decimal numeral. -/
def decimal? (neg : Bool) (cs : List Char) : Option Float :=
  let whole := cs.takeWhile isAsciiDigit
  let rest := cs.dropWhile isAsciiDigit
  let (part, rest) := match rest with
    | '.' :: rest => (rest.takeWhile isAsciiDigit, rest.dropWhile isAsciiDigit)
    | _ => ([], rest)
  if whole.isEmpty && part.isEmpty then none
  else (exponent? rest).map fun e =>
    toFloat neg (ofDigits (digitsOf (whole ++ part))) (e - part.length)

def readFloat? (cs : List Char) : Option Float :=
  match dropGroups? ' ' ((stripMargin cs).map plainDigit) with
  | none => none
  | some plain =>
    let (neg, rest) := sign plain
    let word := String.ofList (rest.map lowerAscii)
    if word = "inf" || word = "infinity" then some (Binary.infinity neg)
    else if word = "nan" then some Binary.notANumber
    else decimal? neg rest

end StatesLanguage.Decimal
