import StatesLanguage.Error
import StatesLanguage.Decimal.Numeral

/-!
# JSON texts, read

Two readers that differ in what they let pass. The lenient one, for data that states and resources
exchange, also takes leading zeros, a point without digits behind it, control characters in
strings other than NUL, a minus sign without digits, and the names of the numbers that are not
finite; the strict one, for configuration files, takes only those names besides the standard.
-/

namespace StatesLanguage.Json

open Text Decimal

/-- What two readers of JSON differ in. -/
structure Dialect where
  /-- Takes leading zeros, bare points and signs, and control characters. -/
  lenient : Bool
  maxDepth : Nat

/-- Why a text is not read. -/
inductive Flaw where
  | malformed
  /-- An integer of more digits than a numeral may have. -/
  | tooManyDigits
  | tooDeep
  deriving DecidableEq, Inhabited

/-- A part of a text as it reads, and what follows it. -/
abbrev Reading (α : Type) := Except Flaw (α × List Char)

def Reading.bad {α : Type} : Reading α := .error .malformed

def isSpace (c : Char) : Bool :=
  c == ' ' || c == '\t' || c == '\n' || c == '\r'

def skipSpace (cs : List Char) : List Char :=
  cs.dropWhile isSpace

def hexDigit? (c : Char) : Option Nat :=
  if '0' ≤ c && c ≤ '9' then some (c.toNat - 48)
  else if 'a' ≤ c && c ≤ 'f' then some (c.toNat - 87)
  else if 'A' ≤ c && c ≤ 'F' then some (c.toNat - 55)
  else none

def hexUnit? (a b c d : Char) : Option Nat := do
  return ((← hexDigit? a) * 4096 + (← hexDigit? b) * 256 + (← hexDigit? c) * 16 + (← hexDigit? d))

def simpleEscape? : Char → Option Char
  | '"' => some '"'
  | '\\' => some '\\'
  | '/' => some '/'
  | 'b' => some '\x08'
  | 'f' => some '\x0c'
  | 'n' => some '\n'
  | 'r' => some '\r'
  | 't' => some '\t'
  | _ => none

/-- Stands for one half of a surrogate pair without the other. -/
def replacement : Char := Char.ofNat 0xfffd

/-- What has been read of a string, backwards, with the first half of a pair that is still open. -/
structure Unfinished where
  done : List Char
  high : Option Nat

namespace Unfinished

/-- Closes a pair that lacks its second half. -/
def settle (p : Unfinished) : List Char :=
  if p.high.isSome then replacement :: p.done else p.done

def push (p : Unfinished) (c : Char) : Unfinished :=
  ⟨c :: p.settle, none⟩

/-- A text with one more unit; the two halves of a character are put together. -/
def pushUnit (p : Unfinished) (unit : Nat) : Unfinished :=
  if 0xd800 ≤ unit && unit < 0xdc00 then ⟨p.settle, some unit⟩
  else if 0xdc00 ≤ unit && unit < 0xe000 then
    match p.high with
    | some high => ⟨Char.ofNat (0x10000 + (high - 0xd800) * 0x400 + (unit - 0xdc00)) :: p.done, none⟩
    | none => ⟨replacement :: p.done, none⟩
  else p.push (Char.ofNat unit)

end Unfinished

/-- Whether a character may stand for itself in a string. -/
def isPlain (dialect : Dialect) (c : Char) : Bool :=
  c != '\\' && (if dialect.lenient then c.toNat != 0 else 32 ≤ c.toNat)

/-- Reads a string whose opening quote is already read. -/
def readString (dialect : Dialect) (p : Unfinished) : List Char → Reading String
  | [] => .bad
  | '"' :: rest => .ok (String.ofList p.settle.reverse, rest)
  | '\\' :: 'u' :: a :: b :: c :: d :: rest =>
    match hexUnit? a b c d with
    | some unit => readString dialect (p.pushUnit unit) rest
    | none => .bad
  | '\\' :: c :: rest =>
    match simpleEscape? c with
    | some c => readString dialect (p.push c) rest
    | none => .bad
  | c :: rest => if isPlain dialect c then readString dialect (p.push c) rest else .bad

def dropWord? : List Char → List Char → Option (List Char)
  | [], rest => some rest
  | _ :: _, [] => none
  | w :: word, c :: rest => if w = c then dropWord? word rest else none

def readWord (word : String) (v : Value) (cs : List Char) : Reading Value :=
  match dropWord? word.toList cs with
  | some rest => .ok (v, rest)
  | none => .bad

def readExponent (cs : List Char) : Reading (Option Int) :=
  match cs with
  | c :: rest =>
    if c = 'e' || c = 'E' then
      let (neg, rest) := sign rest
      let digits := rest.takeWhile isAsciiDigit
      if digits.isEmpty then .bad
      else
        let n : Int := ofDigits (digitsOf digits)
        .ok (some (if neg then -n else n), rest.dropWhile isAsciiDigit)
    else .ok (none, cs)
  | [] => .ok (none, cs)

def readFraction (dialect : Dialect) (cs : List Char) : Reading (Option (List Char)) :=
  match cs with
  | '.' :: rest =>
    let digits := rest.takeWhile isAsciiDigit
    if digits.isEmpty && !dialect.lenient then .bad
    else .ok (some digits, rest.dropWhile isAsciiDigit)
  | _ => .ok (none, cs)

/-- Whether an integer is one of 64 bits, with or without a sign. -/
def fitsWord (n : Int) : Bool :=
  -(Nat.pow 2 63) ≤ n && n < Nat.pow 2 64

/-- The integer of a run of digits. Only integers that fit a word may have any number of them, and
only if they may have leading zeros. -/
def integer (dialect : Dialect) (neg : Bool) (digits : List Char) : Except Flaw Int :=
  let size : Int := ofDigits (digitsOf digits)
  let n := if neg then -size else size
  if digits.length ≤ maxDigits || (dialect.lenient && fitsWord n) then .ok n
  else .error .tooManyDigits

/-- Whether digits may begin a number. -/
def startsNumber (dialect : Dialect) (neg : Bool) (whole : List Char) : Bool :=
  if dialect.lenient then neg || !whole.isEmpty
  else !whole.isEmpty && (whole.length == 1 || whole.head? != some '0')

/-- Reads a number behind its sign; one with a fraction or an exponent is a floating number. -/
def readUnsigned (dialect : Dialect) (neg : Bool) (cs : List Char) :
    Except Flaw (Value × List Char) := do
  let whole := cs.takeWhile isAsciiDigit
  if !startsNumber dialect neg whole then throw .malformed
  let (fraction, rest) ← readFraction dialect (cs.dropWhile isAsciiDigit)
  let (exponent, rest) ← readExponent rest
  if fraction.isNone && exponent.isNone then
    return (.int (← integer dialect neg whole), rest)
  else
    let part := fraction.getD []
    if whole.isEmpty && part.isEmpty then throw .malformed
    return (.float (toFloat neg (ofDigits (digitsOf (whole ++ part)))
      (exponent.getD 0 - part.length)), rest)

/-- Reads a number, which may be infinite. -/
def readNumber (dialect : Dialect) (cs : List Char) : Reading Value :=
  let (neg, cs) := match cs with
    | '-' :: rest => (true, rest)
    | _ => (false, cs)
  match dropWord? "Infinity".toList cs with
  | some rest => .ok (.float (Binary.infinity neg), rest)
  | none => readUnsigned dialect neg cs

mutual

/-- Reads a value; `fuel` bounds the nesting and the number of members together. -/
def readValue (dialect : Dialect) : Nat → Nat → List Char → Reading Value
  | 0, _, _ => .bad
  | fuel + 1, depth, cs =>
    match skipSpace cs with
    | [] => .bad
    | '"' :: rest => (readString dialect ⟨[], none⟩ rest).map fun (s, rest) => (.str s, rest)
    | '[' :: rest =>
      if depth ≥ dialect.maxDepth then .error .tooDeep
      else match skipSpace rest with
        | ']' :: rest => .ok (.arr [], rest)
        | _ => readItems dialect fuel (depth + 1) [] rest
    | '\x7b' :: rest =>
      if depth ≥ dialect.maxDepth then .error .tooDeep
      else match skipSpace rest with
        | '\x7d' :: rest => .ok (.obj [], rest)
        | _ => readMembers dialect fuel (depth + 1) [] rest
    | 't' :: rest => readWord "rue" (.bool true) rest
    | 'f' :: rest => readWord "alse" (.bool false) rest
    | 'n' :: rest => readWord "ull" .null rest
    | 'N' :: rest => readWord "aN" (.float Binary.notANumber) rest
    | cs => readNumber dialect cs

def readItems (dialect : Dialect) : Nat → Nat → List Value → List Char → Reading Value
  | 0, _, _, _ => .bad
  | fuel + 1, depth, done, cs =>
    match readValue dialect fuel depth cs with
    | .error flaw => .error flaw
    | .ok (item, rest) =>
      match skipSpace rest with
      | ',' :: rest => readItems dialect fuel depth (item :: done) rest
      | ']' :: rest => .ok (.arr (item :: done).reverse, rest)
      | _ => .bad

def readMembers (dialect : Dialect) :
    Nat → Nat → List (String × Value) → List Char → Reading Value
  | 0, _, _, _ => .bad
  | fuel + 1, depth, done, cs =>
    match skipSpace cs with
    | '"' :: rest =>
      match readString dialect ⟨[], none⟩ rest with
      | .error flaw => .error flaw
      | .ok (key, rest) =>
        match skipSpace rest with
        | ':' :: rest =>
          match readValue dialect fuel depth rest with
          | .error flaw => .error flaw
          | .ok (value, rest) =>
            match skipSpace rest with
            | ',' :: rest => readMembers dialect fuel depth ((key, value) :: done) rest
            | '\x7d' :: rest => .ok (.obj (Table.ofList ((key, value) :: done).reverse), rest)
            | _ => .bad
        | _ => .bad
    | _ => .bad

end

/-- The value that a text stands for, with nothing behind it but white space. -/
def read (dialect : Dialect) (text : String) : Except Flaw Value :=
  let cs := text.toList
  match readValue dialect (cs.length + 1) 0 cs with
  | .ok (v, rest) => if (skipSpace rest).isEmpty then .ok v else .error .malformed
  | .error flaw => .error flaw

/-- The reader of definitions and of the data of an execution. -/
def data : Dialect := ⟨true, 1024⟩

/-- The reader of configuration files. -/
def file : Dialect := ⟨false, 985⟩

def malformed : Failure :=
  .fault .malformedJson "Expected object or value"

def tooManyDigits : Failure :=
  .fault .badValue ("Exceeds the limit (" ++ toString maxDigits ++
    " digits) for integer string conversion")

/-- Reads data. Nesting that is too deep is a matter of its format. -/
def decode (text : String) : Outcome Value :=
  match read data text with
  | .ok v => .ok v
  | .error .tooManyDigits => .error tooManyDigits
  | .error _ => .error malformed

def decodeFile (text : String) : Outcome Value :=
  match read file text with
  | .ok v => .ok v
  | .error .tooManyDigits => .error tooManyDigits
  | .error .tooDeep => .error (.fault .tooDeep "maximum recursion depth exceeded")
  | .error .malformed => .error malformed

end StatesLanguage.Json
