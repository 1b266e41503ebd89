import StatesLanguage.Decimal.Numeral
import StatesLanguage.Error

/-!
# Instants

Points in time in microseconds since the start of 1970, and their texts of the form
`2024-01-01T00:00:00.5+01:00`.
-/

namespace StatesLanguage

open Text Decimal

/-! ## The calendar -/

namespace Calendar

def isLeap (year : Nat) : Bool :=
  year % 4 == 0 && (year % 100 != 0 || year % 400 == 0)

def daysInMonth (year month : Nat) : Nat :=
  if month = 2 then if isLeap year then 29 else 28
  else if month = 4 || month = 6 || month = 9 || month = 11 then 30
  else 31

/-- The days of the years before a year, from the year 1 on. -/
def daysBeforeYear (year : Nat) : Nat :=
  let y := year - 1
  365 * y + y / 4 - y / 100 + y / 400

def daysBeforeMonth (year month : Nat) : Nat :=
  (List.range (month - 1)).foldl (fun days m => days + daysInMonth year (m + 1)) 0

/-- The number of a day, 1 January of the year 1 being day 0. -/
def dayNumber (year month day : Nat) : Nat :=
  daysBeforeYear year + daysBeforeMonth year month + (day - 1)

/-- The number of 1 January 1970. -/
def epoch : Nat := 719162

/-- Whether a day exists in the calendar of the years 1 to 9999. -/
def isDate (year month day : Nat) : Bool :=
  1 ≤ year && year ≤ 9999 && 1 ≤ month && month ≤ 12 && 1 ≤ day && day ≤ daysInMonth year month

/-- The month that a day of the year falls in, and the day of the month. -/
def monthOf (year : Nat) : Nat → Nat → Nat → Nat × Nat
  | 0, month, rest => (month, rest + 1)
  | fuel + 1, month, rest =>
    if rest < daysInMonth year month then (month, rest + 1)
    else monthOf year fuel (month + 1) (rest - daysInMonth year month)

/-- The last year, from a year backwards, that starts at or before a day. -/
def startedBy (number : Nat) : Nat → Nat → Nat
  | 0, year => year
  | fuel + 1, year => if daysBeforeYear year ≤ number then year else startedBy number fuel (year - 1)

/-- The year of a day: counting every year as short guesses a few years late. -/
def yearOf (number : Nat) : Nat :=
  startedBy number 30 (number / 365 + 1)

/-- The year, month and day with a number of days before it. -/
def ofDayNumber (number : Nat) : Nat × Nat × Nat :=
  let year := yearOf number
  let (month, day) := monthOf year 11 1 (number - daysBeforeYear year)
  (year, month, day)

end Calendar

/-- A point in time with the offset from universal time under which it was written. -/
structure Instant where
  /-- Microseconds since the start of 1970, universal time. -/
  micros : Int
  /-- The offset in seconds. -/
  offset : Int
  deriving DecidableEq, Inhabited

namespace Instant

/-! ## Reading -/

def malformed (text : List Char) : Failure :=
  .fault .badValue (String.ofList text ++ " is not a timestamp")

def tooShort : Failure :=
  .fault .noSuchIndex "string index out of range"

def isOneOf (set : String) (c : Char) : Bool :=
  set.toList.contains c

/-- The value of a field of two places, the first of which is ASCII. -/
def twoPlaces (a b : Char) : Option Nat :=
  match asciiDigit? a, decimalDigit? b with
  | some x, some y => some (10 * x + y)
  | _, _ => none

def year? (cs : List Char) : Option Nat :=
  match cs.map decimalDigit? with
  | [some a, some b, some c, some d] => some (ofDigits [a, b, c, d])
  | _ => none

def month? : List Char → Option Nat
  | [a] => if isOneOf "123456789" a then asciiDigit? a else none
  | ['0', b] => if isOneOf "123456789" b then asciiDigit? b else none
  | ['1', b] => if isOneOf "012" b then twoPlaces '1' b else none
  | _ => none

def day? : List Char → Option Nat
  | [a] => if isOneOf "123456789" a then asciiDigit? a else none
  | ['3', b] => if isOneOf "01" b then twoPlaces '3' b else none
  | [a, b] =>
    if a = '1' || a = '2' then twoPlaces a b
    else if (a = '0' || a = ' ') && isOneOf "123456789" b then asciiDigit? b
    else none
  | _ => none

def hour? : List Char → Option Nat
  | [a] => decimalDigit? a
  | ['2', b] => if isOneOf "0123" b then twoPlaces '2' b else none
  | [a, b] => if a = '0' || a = '1' then twoPlaces a b else none
  | _ => none

/-- Minutes and seconds, both below sixty. -/
def sixtieth? : List Char → Option Nat
  | [a] => decimalDigit? a
  | [a, b] => if isOneOf "012345" a then twoPlaces a b else none
  | _ => none

/-- A fraction of a second, of at most six digits, in microseconds. -/
def fraction? (cs : List Char) : Option Nat :=
  if cs.isEmpty || cs.length > 6 || !cs.all isAsciiDigit then none
  else some (ofDigits (digitsOf cs) * Nat.pow 10 (6 - cs.length))

def upTo? (isEnd : Char → Bool) (cs : List Char) : Option (List Char × List Char) :=
  match cs.dropWhile (!isEnd ·) with
  | _ :: rest => some (cs.takeWhile (!isEnd ·), rest)
  | [] => none

/-- The microseconds from the start of 1970 to a date and time of day written without offset. -/
def clock? (cs : List Char) : Option Int := do
  let (year, cs) ← upTo? (· == '-') cs
  let (month, cs) ← upTo? (· == '-') cs
  let (day, cs) ← upTo? (fun c => c == 'T' || c == 't') cs
  let (hour, cs) ← upTo? (· == ':') cs
  let (minute, cs) ← upTo? (· == ':') cs
  let (second, part) ← upTo? (· == '.') cs
  let year ← year? year
  let month ← month? month
  let day ← day? day
  let hour ← hour? hour
  let minute ← sixtieth? minute
  let second ← sixtieth? second
  let part ← fraction? part
  if Calendar.isDate year month day then
    let days : Int := (Calendar.dayNumber year month day : Int) - Calendar.epoch
    return (((days * 24 + hour) * 60 + minute) * 60 + second) * 1000000 + part
  else none

/-- The offset that ends a text, of the form `+hh:mm`, in seconds; `none` if its numbers cannot be
read. -/
def offsetOf (text : List Char) : List Char → Outcome (Option Int)
  | [] => .error tooShort
  | mark :: rest =>
    if mark != '+' && mark != '-' then .error (malformed text)
    else match rest[2]? with
      | none => .error tooShort
      | some c =>
        if c != ':' then .error (malformed text)
        else match readInt? (rest.take 2), readInt? (rest.drop 3) with
          | some hours, some minutes =>
            let seconds := hours * 3600 + minutes * 60
            .ok (some (if mark = '-' then -seconds else seconds))
          | _, _ => .ok none

def divide (text : List Char) : Outcome (List Char × Option Int) :=
  match text.reverse with
  | 'Z' :: rest | 'z' :: rest => .ok (rest.reverse, some 0)
  | _ =>
    let start := text.length - 6
    (offsetOf text (text.drop start)).map fun offset => (text.take start, offset)

def parse (s : String) : Outcome Instant := do
  let text := trim s.toList
  let (date, offset) ← divide text
  let date := if date.contains '.' then date else date ++ ['.', '0']
  match clock? date, offset with
  | some micros, some seconds =>
    if -86400 < seconds ∧ seconds < 86400 then
      return ⟨micros - seconds * 1000000, seconds⟩
    else throw (malformed text)
  | _, _ => throw (malformed text)

def ofValue? : Value → Option Instant
  | .str s => (parse s).toOption
  | _ => none

/-! ## Writing -/

def padded (width n : Nat) : List Char :=
  let digits := Nat.toDigits 10 n
  List.replicate (width - digits.length) '0' ++ digits

/-- The offset at the end of a text; its seconds are written only if there are any. -/
def zone (offset : Int) : List Char :=
  let size := offset.natAbs
  (if offset < 0 then '-' else '+') :: padded 2 (size / 3600) ++ ':' :: padded 2 (size / 60 % 60) ++
    (if size % 60 = 0 then [] else ':' :: padded 2 (size % 60))

/-- The text of an instant under its offset; a fraction is written only if there is one. -/
def write (i : Instant) : String :=
  let micros := i.micros + i.offset * 1000000
  let seconds := micros / 1000000
  let part := (micros % 1000000).toNat
  let days := seconds / 86400
  let rest := (seconds % 86400).toNat
  let (year, month, day) := Calendar.ofDayNumber (days + Calendar.epoch).toNat
  String.ofList (padded 4 year ++ '-' :: padded 2 month ++ '-' :: padded 2 day ++ 'T' ::
    padded 2 (rest / 3600) ++ ':' :: padded 2 (rest / 60 % 60) ++ ':' :: padded 2 (rest % 60) ++
    (if part = 0 then [] else '.' :: padded 6 part) ++ zone i.offset)

/-- The text of a point in time in universal time. -/
def render (micros : Int) : String :=
  write ⟨micros, 0⟩

end Instant

end StatesLanguage
