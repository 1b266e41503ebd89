import StatesLanguage.Fresh
import StatesLanguage.Json.Reader
import StatesLanguage.Json.Writer
import StatesLanguage.Value.Compare

/-!
# Intrinsic functions

The functions that templates may call, on arguments that are already evaluated.
-/

namespace StatesLanguage.Intrinsic

/-- The functions that a template may call. -/
inductive Function where
  | format
  | stringToJson
  | jsonToString
  | array
  | arrayLength
  | arrayGetItem
  | arrayContains
  | mathAdd
  | uuid
  deriving DecidableEq, Inhabited

namespace Function

def name : Function → String
  | format => "States.Format"
  | stringToJson => "States.StringToJson"
  | jsonToString => "States.JsonToString"
  | array => "States.Array"
  | arrayLength => "States.ArrayLength"
  | arrayGetItem => "States.ArrayGetItem"
  | arrayContains => "States.ArrayContains"
  | mathAdd => "States.MathAdd"
  | uuid => "States.UUID"

def all : List Function :=
  [format, stringToJson, jsonToString, array, arrayLength, arrayGetItem, arrayContains, mathAdd, uuid]

def ofName? (s : String) : Option Function :=
  all.find? (·.name == s)

end Function

def failure (text : String) : Failure :=
  .ofKind .intrinsic text

/-- A value as a placeholder shows it: a text as it is, any other value as JSON. -/
def shown : Value → Outcome (List Char)
  | .str s => .ok s.toList
  | v => (Json.encode v).map String.toList

/-- Fills the placeholders of a template in order. A backslash makes the character behind it an
ordinary one. -/
def fill : List Char → List Value → Outcome (List Char)
  | [], [] => .ok []
  | [], _ :: _ => .error (failure "States.Format failed, too many arguments for template.")
  | '\\' :: c :: rest, values => do
    return c :: (← fill rest values)
  | '\x7b' :: '\x7d' :: rest, values =>
    match values with
    | [] => .error (failure "States.Format failed, too few arguments for template.")
    | v :: more => do
      let text ← shown v
      return text ++ (← fill rest more)
  | c :: rest, values => do
    return c :: (← fill rest values)

namespace Function

def applyFormat : List Value → Outcome Value
  | .str template :: values => do
    return .str (String.ofList (← fill template.toList values))
  | _ => .error (failure "States.Format failed, requires a template string argument.")

def applyStringToJson [Room] : List Value → Outcome Value
  | [.str text] =>
    match Json.decode text with
    | .ok v => .ok v
    | .error e => .error (.telling e.text fun reason =>
        failure ("States.StringToJson failed with " ++ reason ++ "."))
  | _ => .error (failure "States.StringToJson failed, requires a single string argument.")

def applyJsonToString : List Value → Outcome Value
  | [v] => (Json.encode v).map .str
  | _ => .error (failure "States.JsonToString failed, requires a single argument.")

def applyArrayLength : List Value → Outcome Value
  | [.arr items] => .ok (.int items.length)
  | _ => .error (failure "States.ArrayLength failed, requires a single array argument.")

/-- The item at an index, which must be one of the array. -/
def applyArrayGetItem : List Value → Outcome Value
  | [.arr items, .int i] =>
    if i < 0 then
      .error (failure "States.ArrayGetItem failed, index is not a positive integer.")
    else match items[i.toNat]? with
      | some item => .ok item
      | none => .error (failure "States.ArrayGetItem failed, index is out of bounds.")
  | [.arr _, _] =>
    .error (failure "States.ArrayGetItem failed, index is not a positive integer.")
  | _ => .error (failure "States.ArrayGetItem failed, requires an array and an index.")

def applyArrayContains : List Value → Outcome Value
  | [.arr items, v] => .ok (.bool (items.any (v.same ·)))
  | _ => .error (failure "States.ArrayContains failed, requires an array and a value.")

def applyMathAdd : List Value → Outcome Value
  | [.int m, .int n] => .ok (.int (m + n))
  | _ => .error (failure "States.MathAdd failed, requires two integer arguments.")

def applyUuid : List Value → Draw Value
  | [] => do return .str (← Draw.fresh)
  | _ => throw (failure "States.UUID failed, takes no arguments.")

def apply [Room] : Function → List Value → Draw Value
  | format, args => .ofOutcome (applyFormat args)
  | stringToJson, args => .ofOutcome (applyStringToJson args)
  | jsonToString, args => .ofOutcome (applyJsonToString args)
  | array, args => pure (.arr args)
  | arrayLength, args => .ofOutcome (applyArrayLength args)
  | arrayGetItem, args => .ofOutcome (applyArrayGetItem args)
  | arrayContains, args => .ofOutcome (applyArrayContains args)
  | mathAdd, args => .ofOutcome (applyMathAdd args)
  | uuid, args => applyUuid args

end Function

end StatesLanguage.Intrinsic
