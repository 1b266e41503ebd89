import StatesLanguage.Decimal.Layout
import StatesLanguage.Decimal.Numeral
import StatesLanguage.Nesting
import StatesLanguage.Text.Printable

/-!
# Display texts

The text of a value in messages. A text stands for itself; inside an array or an object it is
quoted, with apostrophes unless only the other quote avoids escapes. Not every value has a text: it
may be nested too deep, or hold an integer of too many digits.
-/

namespace StatesLanguage

namespace Text

def hex (width n : Nat) : List Char :=
  let digits := Nat.toDigits 16 n
  List.replicate (width - digits.length) '0' ++ digits

def escape (quote c : Char) : List Char :=
  if c = quote || c = '\\' then ['\\', c]
  else if c = '\n' then ['\\', 'n']
  else if c = '\r' then ['\\', 'r']
  else if c = '\t' then ['\\', 't']
  else if ' ' ≤ c && c.toNat < 127 then [c]
  else if c.toNat ≥ 160 && isPrintable c then [c]
  else if c.toNat < 256 then '\\' :: 'x' :: hex 2 c.toNat
  else if c.toNat < 65536 then '\\' :: 'u' :: hex 4 c.toNat
  else '\\' :: 'U' :: hex 8 c.toNat

/-- The quotation mark that a text is put in: an apostrophe, unless only that occurs in it. -/
def quoteOf (cs : List Char) : Char :=
  if cs.contains '\'' && !cs.contains '"' then '"' else '\''

def quoted (s : String) : String :=
  let quote := quoteOf s.toList
  String.ofList (quote :: s.toList.flatMap (escape quote) ++ [quote])

/-- Bytes in quotes, those outside printable ASCII by their numbers. -/
def quotedBytes (content : List UInt8) : String :=
  let cs := content.map fun b => Char.ofNat b.toNat
  let quote := quoteOf cs
  let byte (c : Char) : List Char :=
    if c.toNat < 128 then escape quote c else '\\' :: 'x' :: hex 2 c.toNat
  String.ofList ('b' :: quote :: cs.flatMap byte ++ [quote])

end Text

def Datum.display : Datum → String
  | .moment iso => iso
  | .bytes content => Text.quotedBytes content
  | .stream _ => "<stream>"

def boolText (b : Bool) : String :=
  if b then "True" else "False"

namespace Value

/-- The text of an integer, which may not have more digits than one that is read. -/
def integerText (n : Int) : Outcome String :=
  if Decimal.isTooLong n then
    .error (.fault .badValue ("Exceeds the limit (" ++ toString Decimal.maxDigits ++
      " digits) for integer string conversion; use sys.set_int_max_str_digits() to increase the limit"))
  else .ok (toString n)

mutual

/-- The text of a value inside another, if there is room for its levels. -/
def inner (room : Nat) (v : Value) : Outcome String :=
  if room = 0 then .error tooDeep
  else match v with
    | .null => .ok "None"
    | .bool b => .ok (boolText b)
    | .int n => integerText n
    | .float x => .ok (Decimal.display.render x)
    | .str s => .ok (Text.quoted s)
    | .arr items => do return "[" ++ ", ".intercalate (← innerItems (room - 1) items) ++ "]"
    | .obj members => do
      return "\x7b" ++ ", ".intercalate (← innerMembers (room - 1) members) ++ "\x7d"
    | .datum d => .ok d.display

def innerItems (room : Nat) : List Value → Outcome (List String)
  | [] => .ok []
  | item :: rest => do return (← inner room item) :: (← innerItems room rest)

def innerMembers (room : Nat) : List (String × Value) → Outcome (List String)
  | [] => .ok []
  | (key, value) :: rest => do
    return (Text.quoted key ++ ": " ++ (← inner room value)) :: (← innerMembers room rest)

end

/-- The text of a value in a message. -/
def display [Room] : Value → Outcome String
  | .str s => .ok s
  | v => inner Room.texts v

end Value

namespace Failure

variable [Room]

/-- The text of an error. One that is made of a value has the text of the value, if there is one. -/
def text : Failure → Outcome String
  | .states _ _ message => message.display
  | .service _ text | .client _ text | .fault _ text => .ok text

/-- The error with a text that is still to be made. If it cannot be made, the error is that instead. -/
def telling (text : Outcome String) (failure : String → Failure) : Failure :=
  match text with
  | .ok text => failure text
  | .error e => e

end Failure

end StatesLanguage
