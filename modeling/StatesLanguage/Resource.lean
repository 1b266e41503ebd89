import StatesLanguage.Arn
import StatesLanguage.Text.Case
import StatesLanguage.Value.Display

/-!
# Resources of tasks

What the resource name of a task calls for, and the shape that requests to a service take.
-/

namespace StatesLanguage

/-- The kinds of resources that a task may call. -/
inductive ResourceKind where
  | function
  | runTaskSync
  | runTaskAsync
  | activity
  deriving DecidableEq, Inhabited

namespace ResourceKind

def ofArn? (arn : Arn) (resource : Value) : Option ResourceKind :=
  if arn.service = "lambda" then
    if arn.resourceType = some "function" then some function else none
  else if arn.service = "states" then
    if arn.resourceType = some "activity" then
      if Arn.isValid resource (.str "activity") then some activity else none
    else if arn.resourceType = some "ecs" then
      if arn.resource = "runTask.sync" then some runTaskSync
      else if arn.resource = "runTask" then some runTaskAsync
      else none
    else none
  else none

/-- The kind of a resource by its name. -/
def classify [Room] (resource : Value) : Outcome ResourceKind :=
  let kind := match resource with
    | .str text =>
      if Arn.isValid resource .null then (Arn.parse? text).bind (ofArn? · resource) else none
    | _ => none
  match kind with
  | some kind => .ok kind
  | none =>
    .error (.telling resource.display fun resource =>
      .ofKind .unsupportedResource ("Unsupported Resource type: " ++ resource))

end ResourceKind

mutual

/-- The value with the first letter of every key in lower case, at every depth. -/
def camelCase : Value → Value
  | .obj members => .obj (Table.ofList (camelMembers members))
  | .arr items => .arr (camelItems items)
  | v => v

def camelItems : List Value → List Value
  | [] => []
  | item :: rest => camelCase item :: camelItems rest

def camelMembers : List (String × Value) → List (String × Value)
  | [] => []
  | (key, value) :: rest => (Text.uncapitalize key, camelCase value) :: camelMembers rest

end

/-- Parameters with keys that begin with a small letter, on all levels. -/
def camelParameters [Room] (v : Value) : Outcome Value :=
  Nesting.copied camelCase v

end StatesLanguage
