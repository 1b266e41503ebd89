import StatesLanguage.Intrinsic.Call

/-!
# Payload templates

A template is copied, except that a member whose name ends in `.$` gets the value of the path or
of the call that it holds, under the name without that ending.
-/

namespace StatesLanguage.Template

/-- The name without the ending `.$`, for those that have it. -/
def computedName? (key : String) : Option String :=
  match key.toList.reverse with
  | '$' :: '.' :: rest => some (String.ofList rest.reverse)
  | _ => none

def pathFailure (text : String) : Failure :=
  .ofKind .parameterPath text

variable [Room]

/-- What a member whose name ends in a dollar sign stands for: a path or a call. -/
def compute (input context : Value) (key : String) : Value → Draw Value
  | .str text =>
    if text.toList.head? = some '$' then
      match Path.apply input context (.str text) with
      | .error (.states .invalidPath _ reason) =>
        throw (.telling reason.display fun reason =>
          pathFailure ("The JSONPath " ++ text ++ " specified for the field " ++ key ++
            " could not be found in the input: " ++ reason))
      -- Any other error of the path stays what it is.
      | o => .ofOutcome (o >>= Nesting.copied id)
    else Intrinsic.evaluate text input context
  | _ => throw (pathFailure ("The value of field " ++ key ++ " must be a Path or Intrinsic Function"))

mutual

/-- The copy of a template; an object takes one level of the room, an array two. -/
def expand (input context : Value) (room : Nat) : Value → Draw Value
  | .obj members =>
    if room < 1 then throw tooDeep
    else do return .obj (← expandMembers input context (room - 1) [] members)
  | .arr items =>
    if room < 2 then throw tooDeep
    else do return .arr (← expandItems input context (room - 2) items)
  | v => pure v

def expandItems (input context : Value) (room : Nat) : List Value → Draw (List Value)
  | [] => pure []
  | item :: rest => do
    let v ← expand input context room item
    return v :: (← expandItems input context room rest)

def expandMembers (input context : Value) (room : Nat) (done : Members) :
    List (String × Value) → Draw Members
  | [] => pure done
  | (key, field) :: rest => do
    match computedName? key with
    | some name =>
      let v ← compute input context key field
      expandMembers input context room (Table.put done name v) rest
    | none =>
      let v ← expand input context room field
      expandMembers input context room (Table.put done key v) rest

end

/-- Applies a template to data; a null template leaves the data as it is. -/
def apply (input context template : Value) : Draw Value :=
  match template with
  | .null => pure input
  | template => expand input context Room.levels template

end StatesLanguage.Template
