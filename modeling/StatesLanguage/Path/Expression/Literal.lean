import StatesLanguage.Path.Operand
import StatesLanguage.Json.Reader
import StatesLanguage.Text.Word

/-!
# Literals

Numerals and quoted texts of filter expressions. A numeral may have low lines between its digits and
be written in base two, eight or sixteen. A text stands between single or triple quotes; letters
before the quote say whether it is a byte string and whether backslashes stand for themselves.
-/

namespace StatesLanguage.Path.Expression

open Text Decimal

def isAsciiLetter (c : Char) : Bool :=
  ('a' ≤ c && c ≤ 'z') || ('A' ≤ c && c ≤ 'Z')

/-- Marks that stand above or below a letter. -/
def isAccent (c : Char) : Bool :=
  0x300 ≤ c.toNat && c.toNat ≤ 0x36f

def startsName (c : Char) : Bool :=
  isAsciiLetter c || c == '_' || (c.toNat ≥ 128 && isWord c && !isDigit c)

def continuesName (c : Char) : Bool :=
  startsName c || (decimalDigit? c).isSome || isAccent c

/-! ## Numerals -/

/-- Digits, with single low lines between them or before the first, and what follows; `none` if a low
line is not followed by a digit. -/
def digitRun? (isDigit : Char → Bool) : List Char → Option (List Char × List Char)
  | [] => some ([], [])
  | '_' :: c :: rest =>
    if isDigit c then (digitRun? isDigit rest).map fun (ds, rest) => (c :: ds, rest) else none
  | ['_'] => none
  | c :: rest =>
    if isDigit c then (digitRun? isDigit rest).map fun (ds, rest) => (c :: ds, rest)
    else some ([], c :: rest)

/-- Words that may stand right behind a numeral. -/
def wordsBehind : List String := ["and", "else", "for", "if", "in", "is", "not", "or"]

/-- Whether a numeral can end before a text: no name goes on there, unless it is one of a few
words. -/
def canEnd (rest : List Char) : Bool :=
  match rest with
  | [] => true
  | c :: _ =>
    wordsBehind.any (fun word => word.toList.isPrefixOf rest) ||
      !(c.toNat ≥ 128 || isAsciiLetter c || isAsciiDigit c || c == '_')

def digitValue (c : Char) : Nat :=
  (Json.hexDigit? c).getD 0

def based? (base : Nat) (cs : List Char) : Option (Operand × List Char) := do
  let (digits, rest) ← digitRun? (fun c => (Json.hexDigit? c).any (· < base)) cs
  if digits.isEmpty || !canEnd rest then none
  let n : Nat := digits.foldl (fun n c => base * n + digitValue c) 0
  return (.int n, rest)

/-- A power of ten, if there is one. A letter that begins a word behind the numeral is none. -/
def powerPart? (cs : List Char) : Option (List Char × List Char) :=
  match cs with
  | c :: rest =>
    if c = 'e' || c = 'E' then
      match rest with
      | s :: d :: more =>
        if isAsciiDigit s then (digitRun? isAsciiDigit rest).map fun (ds, rest) => (c :: ds, rest)
        else if s = '+' || s = '-' then
          if isAsciiDigit d then
            (digitRun? isAsciiDigit (d :: more)).map fun (ds, rest) => (c :: s :: ds, rest)
          else none
        else some ([], cs)
      | [d] =>
        if isAsciiDigit d then some ([c, d], [])
        else if d = '+' || d = '-' then none
        else some ([], cs)
      | [] => some ([], cs)
    else some ([], cs)
  | [] => some ([], cs)

def fractionPart? (cs : List Char) : Option (List Char × List Char) :=
  match cs with
  | '.' :: c :: rest =>
    if isAsciiDigit c then
      (digitRun? isAsciiDigit (c :: rest)).map fun (ds, rest) => ('.' :: ds, rest)
    else some (['.'], c :: rest)
  | ['.'] => some (['.'], [])
  | cs => some ([], cs)

/-- A numeral of base ten: an integer without leading zeros, a floating number, or an imaginary
one. -/
def decimalNumeral? (cs : List Char) : Option (Operand × List Char) := do
  let (whole, rest) ← digitRun? isAsciiDigit cs
  let (part, rest) ← fractionPart? rest
  let (power, rest) ← powerPart? rest
  let float := (decimal? false (whole ++ part ++ power)).getD 0.0
  match rest with
  | c :: more =>
    if c = 'j' || c = 'J' then
      if canEnd more then return (.imaginary float, more) else none
  | [] => pure ()
  if !canEnd rest then none
  if part.isEmpty && power.isEmpty then
    if whole.head? = some '0' && whole.any (· != '0') then none
    if whole.length > maxDigits then none
    return (.int (ofDigits (digitsOf whole)), rest)
  else return (.float float, rest)

/-- A numeral, which begins with a digit or with a point and a digit. -/
def numeral? : List Char → Option (Operand × List Char)
  | '0' :: c :: rest =>
    if c = 'x' || c = 'X' then based? 16 rest
    else if c = 'o' || c = 'O' then based? 8 rest
    else if c = 'b' || c = 'B' then based? 2 rest
    else decimalNumeral? ('0' :: c :: rest)
  | cs => decimalNumeral? cs

/-! ## Quoted texts -/

/-- What the letters before a text say about how it is read. -/
structure Quoting where
  raw : Bool
  binary : Bool
  /-- Whether braces would stand for values, which is not taken. -/
  filled : Bool

def quoting? (letters : List Char) : Option Quoting :=
  match letters.map lowerAscii with
  | [] | ['u'] => some ⟨false, false, false⟩
  | ['r'] => some ⟨true, false, false⟩
  | ['b'] => some ⟨false, true, false⟩
  | ['f'] => some ⟨false, false, true⟩
  | ['r', 'b'] | ['b', 'r'] => some ⟨true, true, false⟩
  | ['r', 'f'] | ['f', 'r'] => some ⟨true, false, true⟩
  | _ => none

/-- The inside of a text up to its closing quote, which a backslash protects from being one. A text in
single quotes ends on its line. -/
def inside? (quote : Char) (triple : Bool) : List Char → Option (List Char × List Char)
  | [] => none
  | '\\' :: c :: rest =>
    (inside? quote triple rest).map fun (cs, rest) => ('\\' :: c :: cs, rest)
  | c :: rest =>
    if c = quote && (!triple || [quote, quote].isPrefixOf rest) then
      some ([], if triple then rest.drop 2 else rest)
    else if c = '\n' && !triple then none
    else (inside? quote triple rest).map fun (cs, rest) => (c :: cs, rest)

/-- The number of exactly so many hexadecimal digits. -/
def hexNumber? (count : Nat) (cs : List Char) : Option Nat := do
  let digits ← (cs.take count).mapM Json.hexDigit?
  if digits.length = count then return digits.foldl (fun n d => 16 * n + d) 0 else none

def isOctal (c : Char) : Bool :=
  '0' ≤ c && c ≤ '7'

/-- The character of a number; the halves of a surrogate pair have none. -/
def charOf (n : Nat) : Char :=
  if 0xd800 ≤ n && n < 0xe000 then Json.replacement else Char.ofNat n

def letterEscape? : Char → Option Char
  | 'a' => some '\x07'
  | 'b' => some '\x08'
  | 'f' => some '\x0c'
  | 'n' => some '\n'
  | 'r' => some '\r'
  | 't' => some '\t'
  | 'v' => some '\x0b'
  | '\\' => some '\\'
  | '\'' => some '\''
  | '"' => some '"'
  | _ => none

/-- How many hexadecimal digits a letter behind a backslash asks for. -/
def hexWidth? (binary : Bool) (c : Char) : Option Nat :=
  if c = 'x' then some 2
  else if binary then none
  else if c = 'u' then some 4
  else if c = 'U' then some 8
  else none

/-- What an escape stands for, behind its backslash, and what follows it. A backslash before any other
character stands for itself. -/
def escape? (binary : Bool) (c : Char) (rest : List Char) : Option (List Char × List Char) :=
  match letterEscape? c, hexWidth? binary c with
  | some d, _ => some ([d], rest)
  | none, some width => do
    let n ← hexNumber? width rest
    if n < 0x110000 then return ([charOf n], rest.drop width) else none
  | none, none =>
    if c = '\n' then some ([], rest)
    else if isOctal c then
      let digits := c :: (rest.take 2).takeWhile isOctal
      let n := digits.foldl (fun n d => 8 * n + digitValue d) 0
      some ([charOf (if binary then n % 256 else n)], rest.drop (digits.length - 1))
    else if c = 'N' && !binary then none
    else some (['\\', c], rest)

/-- A text with its escapes replaced; `fuel` exceeds its length. -/
def unescape? (binary : Bool) : Nat → List Char → Option (List Char)
  | 0, _ => none
  | _ + 1, [] => some []
  | fuel + 1, '\\' :: c :: rest => do
    let (cs, rest) ← escape? binary c rest
    return cs ++ (← unescape? binary fuel rest)
  | fuel + 1, c :: rest => (c :: ·) <$> unescape? binary fuel rest

def quoted? (how : Quoting) : List Char → Option (Operand × List Char)
  | [] => none
  | quote :: rest => do
    let triple := [quote, quote].isPrefixOf rest
    let (body, rest) ← inside? quote triple (if triple then rest.drop 2 else rest)
    if how.filled && body.any (fun c => c == '\x7b' || c == '\x7d') then none
    if how.binary && body.any (·.toNat ≥ 128) then none
    let cs ← if how.raw then some body else unescape? how.binary (body.length + 1) body
    if how.binary then return (.bytes (cs.map fun c => UInt8.ofNat c.toNat), rest)
    else return (.str (String.ofList cs), rest)

end StatesLanguage.Path.Expression
