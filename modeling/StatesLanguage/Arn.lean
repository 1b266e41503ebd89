import StatesLanguage.Value.Display
import StatesLanguage.Error
import StatesLanguage.Text.Blank
import StatesLanguage.Value.Compare

/-!
# Resource names

Amazon Resource Names have six parts with colons between them; the last may begin with the type of
the resource, up to a slash or a colon.
-/

namespace StatesLanguage

/-- The parts of a resource name. The last two are one part, divided at a slash or colon. -/
structure Arn where
  scheme : String
  partition : String
  service : String
  region : String
  account : String
  resource : String
  resourceType : Option String
  deriving DecidableEq, Inhabited

namespace Arn

/-- The text before and after the first occurrence of a character. -/
def cut? (sep : Char) (cs : List Char) : Option (List Char × List Char) :=
  match cs.dropWhile (· != sep) with
  | _ :: rest => some (cs.takeWhile (· != sep), rest)
  | [] => none

/-- The type and the name in a last part; a slash divides before a colon does. -/
def divide (resource : List Char) : Option (List Char) × List Char :=
  match cut? '/' resource with
  | some (kind, name) => (some kind, name)
  | none =>
    match cut? ':' resource with
    | some (kind, name) => (some kind, name)
    | none => (none, resource)

/-- The parts of a name, if it has six. -/
def parse? (text : String) : Option Arn := do
  let (scheme, rest) ← cut? ':' text.toList
  let (partition, rest) ← cut? ':' rest
  let (service, rest) ← cut? ':' rest
  let (region, rest) ← cut? ':' rest
  let (account, rest) ← cut? ':' rest
  let (kind, name) := divide rest
  return {
    scheme := String.ofList scheme
    partition := String.ofList partition
    service := String.ofList service
    region := String.ofList region
    account := String.ofList account
    resource := String.ofList name
    resourceType := kind.map String.ofList }

/-- The parts of a name, which must begin as all names do. -/
def parse (text : String) : Outcome Arn :=
  match parse? text with
  | some arn => .ok arn
  | none => .error (.fault .badValue (text ++ " is not a valid ARN"))

def ofValue : Value → Outcome Arn
  | .str s => parse s
  | v => .error (.noField ("'" ++ v.kindName ++ "' object has no attribute 'split'"))

def toValue (arn : Arn) : Value :=
  .obj [("arn", .str arn.scheme), ("partition", .str arn.partition), ("service", .str arn.service),
    ("region", .str arn.region), ("account", .str arn.account), ("resource", .str arn.resource),
    ("resource_type", (arn.resourceType.map Value.str).getD .null)]

/-- The last part of a name: the type, unless it is missing or empty, and the resource. -/
def lastPart (arn : Arn) : String :=
  match arn.resourceType with
  | none => arn.resource
  | some kind => if kind = "" then arn.resource else kind ++ ":" ++ arn.resource

/-- The name that parts make: what they were read in, unless the last part was divided at a slash.
-/
def render (arn : Arn) : String :=
  ":".intercalate [arn.scheme, arn.partition, arn.service, arn.region, arn.account, arn.lastPart]

/-! ## Composing names from loose parts -/

/-- The parts that a name has unless others are given. -/
def partDefaults : Members :=
  [("resource", .str ""), ("arn", .str "arn"), ("partition", .str "aws"), ("service", .str ""),
    ("region", .str ""), ("account", .str ""), ("resource_type", .null)]

def part (members : Members) (key : String) : Value :=
  (Table.get? members key).getD ((Table.get? partDefaults key).getD .null)

/-- A resource behind its kind, if it has one. -/
def typedResource (kind resource : Value) : Outcome Value :=
  if kind.truthy then
    match kind, resource with
    | .str k, .str r => .ok (.str (k ++ ":" ++ r))
    | _, _ => .error (.wrongType "can only concatenate str to str")
  else .ok resource

variable [Room]

def texts : List Value → Outcome (List String)
  | [] => .ok []
  | v :: rest => do return (← v.display) :: (← texts rest)

/-- The name made of parts, each of which is shown as text. -/
def composeParts (members : Members) : Outcome String := do
  let last ← typedResource (part members "resource_type") (part members "resource")
  let parts := ["arn", "partition", "service", "region", "account"].map (part members)
  return ":".intercalate (← texts (parts ++ [last]))

mutual

/-- A name from an object of parts, or from a bare resource. A resource that is itself an object
stands for all parts. -/
def compose : Value → Outcome String
  | .obj members =>
    if members.all fun member => Table.has partDefaults member.1 then
      (composeInner members).getD (composeParts members)
    else .error (.wrongType "a resource name has no part of that name")
  | v => composeParts [("resource", v)]

/-- The name that an inner object of parts makes. -/
def composeInner : List (String × Value) → Option (Outcome String)
  | [] => none
  | (key, v) :: rest => if key = "resource" && v.isObject then some (compose v) else composeInner rest

end

/-! ## Validity -/

/-- The kinds of resources of the service itself. -/
def statesTypes : List String := ["activity", "stateMachine", "execution"]

/-- Characters that no name may have in it. -/
def isReserved (c : Char) : Bool :=
  Text.isBlank c || "<>\x7b\x7d[]?*\"#%\\^|~`$&,;:/".toList.contains c

/-- A name: 1 to 80 characters, none of them reserved; a line end may follow. -/
def isName (cs : List Char) : Bool :=
  let cs := if cs.getLast? = some '\n' then cs.dropLast else cs
  1 ≤ cs.length && cs.length ≤ 80 && cs.all (!isReserved ·)

/-- What stands between the colons. -/
def names : List Char → List (List Char)
  | [] => [[]]
  | c :: rest =>
    if c = ':' then [] :: names rest
    else match names rest with
      | name :: more => (c :: name) :: more
      | [] => [[c]]

/-- The names in a resource of the service itself: an execution has that of its machine too. -/
def namesOf (kind : String) (resource : String) : List (List Char) :=
  if kind = "execution" then names resource.toList else [resource.toList]

def hasKind (arn : Arn) (kind : String) : Bool :=
  arn.resourceType == some kind &&
    if statesTypes.contains kind then
      arn.service == "states" && arn.region != "" && arn.account != "" &&
        (namesOf kind arn.resource).all isName
    else arn.resource != ""

/-- Whether a value is a well-formed name and, where a kind is given, one of that kind. -/
def isValid (arn kind : Value) : Bool :=
  match arn with
  | .str text =>
    text.length ≤ 2048 &&
      match parse? text with
      | none => false
      | some parsed =>
        parsed.scheme == "arn" && parsed.partition != "" && parsed.service != "" &&
          match kind with
          | .str kind => if kind = "" then parsed.resource != "" else parsed.hasKind kind
          | kind => if kind.truthy then false else parsed.resource != ""
  | _ => false

end Arn

end StatesLanguage
