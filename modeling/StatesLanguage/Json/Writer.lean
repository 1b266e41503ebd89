import StatesLanguage.Error
import StatesLanguage.Decimal.Numeral
import StatesLanguage.Value.Display

/-!
# JSON texts, written

Compact, members in their order, all that is not ASCII by its UTF-16 units.
-/

namespace StatesLanguage.Json

open Text

/-- The units that a character is escaped as: two for one beyond the first plane. -/
def units (c : Char) : List Nat :=
  let n := c.toNat
  if n < 0x10000 then [n]
  else [0xd800 + (n - 0x10000) / 0x400, 0xdc00 + (n - 0x10000) % 0x400]

def unitEscape (unit : Nat) : List Char :=
  '\\' :: 'u' :: hex 4 unit

def escapeChar (slashes : Bool) (c : Char) : List Char :=
  if c = '"' then ['\\', '"']
  else if c = '\\' then ['\\', '\\']
  else if c = '/' then if slashes then ['\\', '/'] else ['/']
  else if c = '\x08' then ['\\', 'b']
  else if c = '\x0c' then ['\\', 'f']
  else if c = '\n' then ['\\', 'n']
  else if c = '\r' then ['\\', 'r']
  else if c = '\t' then ['\\', 't']
  else if c.toNat < 32 || c.toNat > 127 then (units c).flatMap unitEscape
  else [c]

def string (slashes : Bool) (s : String) : String :=
  String.ofList ('"' :: s.toList.flatMap (escapeChar slashes) ++ ['"'])

/-- The deepest level that a value may stand at inside others. -/
def maxLevel : Nat := 1024

def tooDeep : Failure :=
  .fault .overflow "Maximum recursion level reached"

/-- What two writers of JSON differ in. -/
structure Style where
  /-- Whether the slash is escaped. -/
  slashes : Bool

mutual

/-- The JSON text of a value at a level; binary data has none. -/
def write (style : Style) (level : Nat) (v : Value) : Outcome String :=
  if level > maxLevel then .error tooDeep
  else match v with
    | .null => .ok "null"
    | .bool b => .ok (if b then "true" else "false")
    | .int n => Value.integerText n
    | .float x => .ok (Decimal.json.render x)
    | .str s => .ok (string style.slashes s)
    | .arr items =>
      match writeItems style (level + 1) items with
      | .error e => .error e
      | .ok texts => .ok ("[" ++ ",".intercalate texts ++ "]")
    | .obj members =>
      match writeMembers style (level + 1) members with
      | .error e => .error e
      | .ok texts => .ok ("\x7b" ++ ",".intercalate texts ++ "\x7d")
    | .datum d => .error (.wrongType (d.display ++ " is not JSON serializable"))

def writeItems (style : Style) (level : Nat) : List Value → Outcome (List String)
  | [] => .ok []
  | item :: rest =>
    match write style level item with
    | .error e => .error e
    | .ok text =>
      match writeItems style level rest with
      | .error e => .error e
      | .ok texts => .ok (text :: texts)

def writeMembers (style : Style) (level : Nat) : List (String × Value) → Outcome (List String)
  | [] => .ok []
  | (key, value) :: rest =>
    match write style level value with
    | .error e => .error e
    | .ok text =>
      match writeMembers style level rest with
      | .error e => .error e
      | .ok texts => .ok ((string style.slashes key ++ ":" ++ text) :: texts)

end

/-- The JSON text that states hand to each other and to resources. -/
def encode (v : Value) : Outcome String :=
  write ⟨false⟩ 0 v

end StatesLanguage.Json
