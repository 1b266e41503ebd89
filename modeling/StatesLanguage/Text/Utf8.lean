import StatesLanguage.Error
import StatesLanguage.Value.Display

/-!
# UTF-8

Bytes as text. A sequence is as long as its first byte says; the second byte's range depends on the
first, so that no character has two spellings and none is a surrogate.
-/

namespace StatesLanguage.Text

/-- Why bytes are no text. -/
inductive Utf8Fault where
  | badStart
  /-- A byte that does not continue the sequence, after so many that do. -/
  | badContinuation (taken : Nat)
  | cutShort
  deriving DecidableEq

/-- The length of the sequence that a byte starts, 0 if it starts none. -/
def sequenceLength (lead : Nat) : Nat :=
  if lead < 0x80 then 1
  else if lead < 0xc2 then 0
  else if lead < 0xe0 then 2
  else if lead < 0xf0 then 3
  else if lead < 0xf5 then 4
  else 0

def secondRange (lead : Nat) : Nat × Nat :=
  if lead = 0xe0 then (0xa0, 0xbf)
  else if lead = 0xed then (0x80, 0x9f)
  else if lead = 0xf0 then (0x90, 0xbf)
  else if lead = 0xf4 then (0x80, 0x8f)
  else (0x80, 0xbf)

def continuation (range : Nat × Nat) (taken code : Nat) :
    Nat → List UInt8 → Except Utf8Fault (Nat × List UInt8)
  | 0, rest => .ok (code, rest)
  | _ + 1, [] => .error .cutShort
  | left + 1, b :: rest =>
    if range.1 ≤ b.toNat && b.toNat ≤ range.2 then
      continuation (0x80, 0xbf) (taken + 1) (code * 64 + b.toNat % 64) left rest
    else .error (.badContinuation taken)

def leadBits (lead length : Nat) : Nat :=
  if length = 1 then lead else lead % Nat.pow 2 (7 - length)

def character (lead : UInt8) (rest : List UInt8) : Except Utf8Fault (Nat × List UInt8) :=
  match sequenceLength lead.toNat with
  | 0 => .error .badStart
  | length + 1 =>
    continuation (secondRange lead.toNat) 1 (leadBits lead.toNat (length + 1)) length rest

def Utf8Fault.describe (fault : Utf8Fault) (lead : UInt8) (position left : Nat) : Failure :=
  let (size, reason) := match fault with
    | badStart => (1, "invalid start byte")
    | badContinuation taken => (taken, "invalid continuation byte")
    | cutShort => (left, "unexpected end of data")
  let place :=
    if size = 1 then
      "byte 0x" ++ String.ofList (hex 2 lead.toNat) ++ " in position " ++ toString position
    else "bytes in position " ++ toString position ++ "-" ++ toString (position + size - 1)
  .fault .malformedUtf8 ("'utf-8' codec can't decode " ++ place ++ ": " ++ reason)

/-- The characters of bytes from a position on; the fuel is their number. -/
def characters : Nat → Nat → List UInt8 → Outcome (List Char)
  | 0, _, _ | _, _, [] => .ok []
  | fuel + 1, position, lead :: rest =>
    match character lead rest with
    | .error fault => .error (fault.describe lead position (rest.length + 1))
    | .ok (code, more) => do
      let cs ← characters fuel (position + (rest.length + 1 - more.length)) more
      return Char.ofNat code :: cs

/-- The text of bytes. -/
def ofUtf8 (bytes : List UInt8) : Outcome String :=
  (characters bytes.length 0 bytes).map String.ofList

end StatesLanguage.Text
