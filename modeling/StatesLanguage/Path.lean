import StatesLanguage.Path.Query

/-!
# Paths

A path selects part of a state's data, or of the context object if it begins with two dollar
signs. A path that selects one value gives that value, unless it is written as a slice; one that
selects several gives them as an array; one that selects nothing is an error.
-/

namespace StatesLanguage.Path

/-- Whether a line has a colon inside brackets. -/
def hasSliceLine (line : List Char) : Bool :=
  ((((line.dropWhile (· != '[')).drop 1).dropWhile (· != ':')).drop 1).contains ']'

/-- Whether a path is written as a slice, so that a single value stays in its array. -/
def isSlice (path : List Char) : Bool :=
  (splitAt '\n' path).any hasSliceLine

variable [Room]

/-- The error of a path that selects nothing; it tells the path and the input. -/
def unmatched (path input : Value) : Failure :=
  .telling (do return "Invalid path '" ++ (← path.display) ++ "' applied to input '" ++
      (← input.display) ++ "'")
    (.ofKind .invalidPath)

/-- What a path selects of an input: one value, or a list where there may be more. -/
def find (input path : Value) : Outcome Value :=
  match path with
  | .str "$" => .ok input
  | .str text => do
    match ← select input text.toList with
    | [] => throw (unmatched path input)
    | [v] => return if isSlice text.toList then .arr [v] else v
    | vs => return .arr vs
  | path =>
    if path.truthy && input.truthy then .error (.wrongType "expected string or bytes-like object")
    else .error (unmatched path input)

def notAPath (path : Value) : Failure :=
  .telling path.display fun path => .ofKind .invalidPath (path ++ " must be a JSONPath")

/-- The value of a path in the data or, behind two dollar signs, in the context object. A context
that is null counts as empty. -/
def apply (input context path : Value) : Outcome Value :=
  match path with
  | .str text =>
    match text.toList with
    | '$' :: '$' :: rest =>
      let context := match context with
        | .null => .obj []
        | v => v
      find context (.str (String.ofList ('$' :: rest)))
    | '$' :: _ => find input path
    | _ => .error (notAPath path)
  | _ => .error (notAPath path)

/-- The value of an input or output path, of which a null one leaves the data as it is. -/
def filter (input context path : Value) : Outcome Value :=
  match path with
  | .null => .ok input
  | path => apply input context path

def root : Value := .str "$"

end StatesLanguage.Path
