import StatesLanguage.Path

/-!
# Reference paths

A reference path names one place in a state's input, at which the state's result is put. Members
on the way are made if they are missing; items of an array have to be there.
-/

namespace StatesLanguage.Reference

def isPunctuation (c : Char) : Bool :=
  c == '$' || c == '.' || c == '[' || c == ']' || c == '\'' || c == '"'

/-- The runs of characters between punctuation; `run` is the one being read, backwards. -/
def runs (run : List Char) : List Char → List (List Char)
  | [] => if run.isEmpty then [] else [run.reverse]
  | c :: rest =>
    if isPunctuation c then
      if run.isEmpty then runs [] rest else run.reverse :: runs [] rest
    else runs (c :: run) rest

/-- What stands between the punctuation of a path. -/
def keys (path : String) : List String :=
  (runs [] path.toList).map String.ofList

def mismatch (text : String) : Failure :=
  .ofKind .resultPathMatch text

def badItem (key reason : String) : Failure :=
  mismatch ("Unable to apply ResultPath key " ++ key ++ " to array: " ++ reason)

/-- Why a key is no index of an array. A malformed key is shown in quotes, up to 200 characters. -/
def notAnInteger (key : String) : Decimal.IntegerFault → String
  | .malformed =>
    "invalid literal for int() with base 10: " ++
      String.ofList ((Text.quoted key).toList.take 200)
  | .tooLong digits =>
    "Exceeds the limit (" ++ toString Decimal.maxDigits ++
      " digits) for integer string conversion: value has " ++ toString digits ++
      " digits; use sys.set_int_max_str_digits() to increase the limit"

/-- The place that a key names in an array of `size` items; negative ones count from the end. -/
def place (key : String) (size : Nat) : Outcome Nat :=
  match Decimal.parseInt key.toList with
  | .error fault => .error (badItem key (notAnInteger key fault))
  | .ok i =>
    if i < -(Nat.pow 2 63) ∨ Nat.pow 2 63 ≤ i then
      .error (badItem key "cannot fit 'int' into an index-sized integer")
    else
      let i := if i < 0 then i + size else i
      if 0 ≤ i ∧ i < size then .ok i.toNat else .error (badItem key "list index out of range")

/-- Puts a value at the place that the keys name. There is room for so many keys. -/
def inject : Nat → List String → Value → Value → Outcome Value
  | _, [], _, value => .ok value
  | 0, _ :: _, _, _ => .error tooDeep
  | room + 1, key :: rest, .obj members, value => do
    let child := (Table.get? members key).getD (.obj [])
    return .obj (Table.put members key (← inject room rest child value))
  | room + 1, key :: rest, .arr items, value => do
    let i ← place key items.length
    let child := (items[i]?).getD .null
    return .arr (items.set i (← inject room rest child value))
  | _ + 1, key :: _, _, _ =>
    .error (mismatch ("Cannot use key " ++ key ++ " to index a primitive type"))

/-- Combines a state's raw input with its result: a null path keeps the input, the root replaces
it, and any other reference path puts the result at its place. -/
def combine [Room] (raw path result : Value) : Outcome Value :=
  match path with
  | .null => .ok raw
  | .str "$" => .ok result
  | .str text =>
    match text.toList with
    | '$' :: '$' :: _ => .error (mismatch "The value of \"ResultPath\" MUST NOT begin with \"$$\"")
    | '$' :: _ =>
      match raw with
      | .null => inject Room.levels (keys text) (.obj []) result
      | raw => do inject Room.levels (keys text) (← Nesting.copied id raw) result
    | _ => .error (mismatch ("ResultPath " ++ text ++ " must be a Reference Path"))
  | path => .error (.telling path.display fun path =>
      mismatch ("ResultPath " ++ path ++ " must be a Reference Path"))

end StatesLanguage.Reference
