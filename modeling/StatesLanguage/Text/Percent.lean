import StatesLanguage.Decimal.Places
import StatesLanguage.Decimal.Numeral
import StatesLanguage.Value.Display
import StatesLanguage.Value.Number

/-!
# Texts with percent marks

A text in which marks such as `%s`, `%5d` or `%(name).2f` stand for arguments. A mark has an optional
name, flags, a width, a number of places, and a letter that says how its argument is shown.
-/

namespace StatesLanguage.Text.Percent

/-- A value as marks can show it. -/
structure Argument where
  shown : Option String
  /-- The argument as it stands inside others. -/
  quoted : Option String
  number : Option Value.Number
  isText : Bool

/-- The arguments of a text: in order, and by name if they have names. Where all of them have to be
used, one that is left over is a mistake. -/
structure Arguments where
  row : List Argument
  named : Option (String → Option Argument)
  useAll : Bool

/-- A width or a number of places, given or taken from the next argument. -/
inductive Extent where
  | absent
  | given (n : Nat)
  | next

/-- A mark in a text that a value is put in the place of. -/
structure Mark where
  name : Option String
  left : Bool
  plus : Bool
  blank : Bool
  alternate : Bool
  zero : Bool
  width : Extent
  places : Extent
  letter : Char

/-! ## Reading marks -/

/-- A name up to the parenthesis that closes it. -/
def nameUpTo? : Nat → List Char → Option (List Char × List Char)
  | _, [] => none
  | depth, c :: rest =>
    if c = ')' && depth = 0 then some ([], rest)
    else
      let depth := if c = '(' then depth + 1 else if c = ')' then depth - 1 else depth
      (nameUpTo? depth rest).map fun (name, rest) => (c :: name, rest)

def isFlag (c : Char) : Bool :=
  c == '-' || c == '+' || c == ' ' || c == '#' || c == '0'

def maxExtent : Nat := Nat.pow 2 31

def extent? (cs : List Char) : Option (Extent × List Char) :=
  match cs with
  | '*' :: rest => some (.next, rest)
  | cs =>
    let digits := cs.takeWhile isAsciiDigit
    let n := ofDigits (Decimal.digitsOf digits)
    if n ≥ maxExtent then none
    else some (if digits.isEmpty then .absent else .given n, cs.dropWhile isAsciiDigit)

/-- The number of places behind a point; none means that there are none. -/
def places? (cs : List Char) : Option (Extent × List Char) :=
  match cs with
  | '.' :: rest =>
    match extent? rest with
    | some (.absent, rest) => some (.given 0, rest)
    | found => found
  | cs => some (.absent, cs)

def mark? (cs : List Char) : Option (Mark × List Char) := do
  let (name, cs) ← match cs with
    | '(' :: rest => (nameUpTo? 0 rest).map fun (name, rest) => (some (String.ofList name), rest)
    | cs => some (none, cs)
  let flags := cs.takeWhile isFlag
  let (width, cs) ← extent? (cs.dropWhile isFlag)
  let (places, cs) ← places? cs
  let cs := match cs with
    | c :: rest => if c = 'h' || c = 'l' || c = 'L' then rest else cs
    | [] => []
  match cs with
  | [] => none
  | letter :: rest =>
    let has (c : Char) : Bool := flags.contains c
    return (⟨name, has '-', has '+', has ' ', has '#', has '0', width, places, letter⟩, rest)

/-! ## Showing arguments -/

/-- A number's sign, what stands before its digits, and its digits. -/
structure Numeral where
  neg : Bool
  lead : List Char
  digits : List Char

def capitalize (cs : List Char) : List Char :=
  cs.map fun c => if 'a' ≤ c && c ≤ 'z' then Char.ofNat (c.toNat - 32) else c

def wholeNumeral (mark : Mark) (places : Option Nat) (n : Int) : Option Numeral := do
  let least (digits : List Char) := Decimal.zeros (places.getD 0 - digits.length) ++ digits
  let lead (text : String) := if mark.alternate then text.toList else []
  let size := n.natAbs
  match mark.letter with
  | 'o' => return ⟨n < 0, lead "0o", least (Nat.toDigits 8 size)⟩
  | 'x' => return ⟨n < 0, lead "0x", least (Nat.toDigits 16 size)⟩
  | 'X' => return ⟨n < 0, lead "0X", least (capitalize (Nat.toDigits 16 size))⟩
  | _ => if Decimal.isTooLong n then none else return ⟨n < 0, [], least (Nat.toDigits 10 size)⟩

/-- The whole number that a mark shows: fractions are dropped by some letters, refused by others. -/
def whole? (mark : Mark) (arg : Argument) : Option Int :=
  match arg.number with
  | some (.int n) => some n
  | some (.float x) =>
    if mark.letter = 'd' || mark.letter = 'i' || mark.letter = 'u' then Binary.truncate? x else none
  | none => none

def floatNumeral (mark : Mark) (places : Option Nat) (x : Float) : Numeral :=
  let places := places.getD 6
  let small := Char.ofNat (mark.letter.toNat % 32 + 96)
  let numeral := match Binary.ofFloat x with
    | .nan => ⟨false, [], "nan".toList⟩
    | .infinite neg => ⟨neg, [], "inf".toList⟩
    | .finite neg mant exp =>
      let (num, den) := Binary.ratio false mant exp
      let f : Decimal.Fraction := ⟨num.natAbs, den⟩
      ⟨neg, [], if small = 'f' then Decimal.fixed mark.alternate places f
        else if small = 'e' then Decimal.withPower mark.alternate places f
        else Decimal.general mark.alternate places f⟩
  if small = mark.letter then numeral else { numeral with digits := capitalize numeral.digits }

def padded (mark : Mark) (width : Nat) (cs : List Char) : List Char :=
  let fill := List.replicate (width - cs.length) ' '
  if mark.left then cs ++ fill else fill ++ cs

/-- A number filled up to a width, with zeros behind its sign if the mark says so. -/
def paddedNumeral (mark : Mark) (width : Nat) (n : Numeral) : List Char :=
  let sign := if n.neg then ['-'] else if mark.plus then ['+'] else if mark.blank then [' '] else []
  let size := sign.length + n.lead.length + n.digits.length
  if mark.zero && !mark.left then
    sign ++ n.lead ++ Decimal.zeros (width - size) ++ n.digits
  else padded mark width (sign ++ n.lead ++ n.digits)

def character? (arg : Argument) : Option (List Char) :=
  match arg.number, arg.shown with
  | some (.int n), _ =>
    if 0 ≤ n ∧ n < 0x110000 then some [Char.ofNat n.toNat] else none
  | none, some text => if arg.isText && text.length == 1 then some text.toList else none
  | _, _ => none

def asciiOnly (cs : List Char) : List Char :=
  cs.flatMap fun c =>
    if c.toNat < 128 then [c]
    else if c.toNat < 256 then '\\' :: 'x' :: hex 2 c.toNat
    else if c.toNat < 65536 then '\\' :: 'u' :: hex 4 c.toNat
    else '\\' :: 'U' :: hex 8 c.toNat

def cut (places : Option Nat) (cs : List Char) : List Char :=
  match places with
  | some n => cs.take n
  | none => cs

/-- A value as a mark says. -/
def show? (mark : Mark) (width : Nat) (places : Option Nat) (arg : Argument) : Option (List Char) :=
  match mark.letter with
  | 's' => arg.shown.map fun text => padded mark width (cut places text.toList)
  | 'r' => arg.quoted.map fun text => padded mark width (cut places text.toList)
  | 'a' => arg.quoted.map fun text => padded mark width (cut places (asciiOnly text.toList))
  | 'c' => (character? arg).map (padded mark width)
  | 'd' | 'i' | 'u' | 'o' | 'x' | 'X' => do
    return paddedNumeral mark width (← wholeNumeral mark places (← whole? mark arg))
  | 'e' | 'E' | 'f' | 'F' | 'g' | 'G' => do
    let x ← (← arg.number).toFloat.toOption
    return paddedNumeral mark width (floatNumeral mark places x)
  | _ => none

/-! ## Filling a text -/

def Arguments.take? (args : Arguments) : Option (Argument × Arguments) :=
  match args.row with
  | [] => none
  | arg :: rest => some (arg, { args with row := rest })

/-- An extent as a number; a negative one sets a width from the left. -/
def resolve? (args : Arguments) : Extent → Option (Option Int × Arguments)
  | .absent => some (none, args)
  | .given n => some (some n, args)
  | .next => do
    let (arg, args) ← args.take?
    match arg.number with
    | some (.int n) => return (some n, args)
    | _ => none

/-- The arguments of a mark: those in order, or the one of its name. -/
def Arguments.of? (args : Arguments) (mark : Mark) : Option Arguments :=
  match mark.name with
  | none => some args
  | some name =>
    (args.named.bind (· name)).map fun arg => { args with row := [arg], useAll := false }

def fillMark? (mark : Mark) (args : Arguments) : Option (List Char × Arguments) := do
  let args ← args.of? mark
  let (width, args) ← resolve? args mark.width
  let (places, args) ← resolve? args mark.places
  let mark := if width.any (· < 0) then { mark with left := true } else mark
  let (arg, args) ← args.take?
  return (← show? mark ((width.getD 0).natAbs) (places.map Int.toNat) arg, args)

/-- Fills the marks of a text in order; two percent signs are one. `fuel` bounds their number. -/
def fill? : Nat → List Char → Arguments → Option (List Char)
  | 0, _, _ => none
  | _ + 1, [], args => if args.useAll && !args.row.isEmpty then none else some []
  | fuel + 1, '%' :: '%' :: rest, args => ('%' :: ·) <$> fill? fuel rest args
  | fuel + 1, '%' :: rest, args => do
    let (mark, rest) ← mark? rest
    let (text, args) ← fillMark? mark args
    return text ++ (← fill? fuel rest args)
  | fuel + 1, c :: rest, args => (c :: ·) <$> fill? fuel rest args

/-- A text with its marks filled in, if the values fit them. -/
def filled? (text : String) (args : Arguments) : Option String :=
  (fill? (text.length + 1) text.toList args).map String.ofList

end StatesLanguage.Text.Percent
