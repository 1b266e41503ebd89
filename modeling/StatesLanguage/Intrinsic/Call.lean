import StatesLanguage.Intrinsic.Arguments
import StatesLanguage.Intrinsic.Function
import StatesLanguage.Path
import StatesLanguage.Text.Word

/-!
# Calls of intrinsic functions

A call names a function and holds its arguments: texts in apostrophes, paths, further calls, the
words `null`, `true` and `false`, and numbers.
-/

namespace StatesLanguage.Intrinsic

open Text

/-- A call of a function, as it is written. -/
structure Call where
  function : String
  arguments : List Char

/-- Takes a call apart; white space may stand around it and before its parenthesis. -/
def Call.ofText? (cs : List Char) : Option Call := do
  let rest ← Json.dropWord? "States.".toList (trimStart cs)
  let name := rest.takeWhile isWord
  if name.isEmpty then none
  match trimStart (rest.dropWhile isWord) with
  | '(' :: rest =>
    match (trimEnd rest).reverse with
    | ')' :: inside => return ⟨"States." ++ String.ofList name, inside.reverse⟩
    | _ => none
  | _ => none

/-- Backslashes before apostrophes and backslashes go; others are left for templates. -/
def unescape : List Char → List Char
  | '\\' :: '\'' :: rest => '\'' :: unescape rest
  | '\\' :: '\\' :: rest => '\\' :: unescape rest
  | c :: rest => c :: unescape rest
  | [] => []

/-- The inside of a text in apostrophes. -/
def quotation? : List Char → Option (List Char)
  | '\'' :: rest =>
    match rest.reverse with
    | '\'' :: inside => some inside.reverse
    | _ => none
  | _ => none

variable [Room]

/-- A path's value; a path that selects nothing is the template's error. -/
def pathArgument (input context : Value) (arg : List Char) : Outcome Value :=
  match Path.apply input context (.str (String.ofList arg)) with
  | .error (.states .invalidPath _ reason) =>
    .error (.telling reason.display (.ofKind .parameterPath))
  | o => o

/-- A number, a word or a text as an argument. -/
def literal (arg : List Char) : Outcome Value :=
  let text := String.ofList arg
  if text = "null" then .ok .null
  else if text = "true" then .ok (.bool true)
  else if text = "false" then .ok (.bool false)
  else match Decimal.readInt? arg with
    | some n => .ok (.int n)
    | none =>
      match Decimal.readFloat? arg with
      | some x => .ok (.float x)
      | none => .error (failure ("Invalid Intrinsic Function argument " ++ text ++ "."))

def notACall (cs : List Char) : Failure :=
  failure (String.ofList cs ++ " is not a valid Intrinsic Function.")

/-- The value of an argument, given how inner calls are evaluated. -/
def evaluateArgument (input context : Value) (inner : List Char → Draw Value) (arg : List Char) :
    Draw Value :=
  match quotation? arg with
  | some inside => pure (.str (String.ofList (unescape inside)))
  | none =>
    if arg.head? = some '$' then .ofOutcome (pathArgument input context arg)
    else if "States.".toList.isPrefixOf arg then inner arg
    else .ofOutcome (literal arg)

/-- Evaluates a call, in which calls may be nested so many levels deep. -/
def evaluateCall (input context : Value) : Nat → List Char → Draw Value
  | 0, _ => throw tooDeep
  | levels + 1, cs =>
    match Call.ofText? cs with
    | none => throw (notACall cs)
    | some call =>
      match Function.ofName? call.function with
      | none => throw (failure ("Intrinsic Function " ++ call.function ++ " is not supported."))
      | some function => do
        let args ← (splitArguments call.arguments).mapM
          (evaluateArgument input context (evaluateCall input context levels))
        function.apply args

/-- The most calls that can be nested; each takes three levels of the room. -/
def maxNested : Nat := Room.levels / 3

def evaluate (text : String) (input context : Value) : Draw Value :=
  evaluateCall input context maxNested text.toList

end StatesLanguage.Intrinsic
