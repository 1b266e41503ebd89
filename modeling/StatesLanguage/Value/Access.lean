import StatesLanguage.Value.Compare

/-!
# Access to values

Looking into values whose kind is not known beforehand.
-/

namespace StatesLanguage.Value

/-- What a value is walked through as: an array by items, an object by names, a text by characters.
-/
def iterate : Value → Outcome (List Value)
  | .arr items => .ok items
  | .obj members => .ok (members.map fun member => .str member.1)
  | .str s => .ok (s.toList.map fun c => .str (String.ofList [c]))
  | v => .error (.wrongType ("'" ++ v.kindName ++ "' object is not iterable"))

def member (v : Value) (key : String) : Outcome (Option Value) :=
  match v with
  | .obj members => .ok (Table.get? members key)
  | v => .error (.noField ("'" ++ v.kindName ++ "' object has no attribute 'get'"))

/-- A member, or a default where it is missing; only objects have members. -/
def memberOr (v : Value) (key : String) (default : Value) : Outcome Value :=
  (v.member key).map (·.getD default)

/-- The text by which a value can name an entry of a table. A value of another kind names none, and
arrays and objects cannot be looked up at all. -/
def asKey : Value → Outcome (Option String)
  | .str s => .ok (some s)
  | .arr _ => .error (.wrongType "unhashable type: 'list'")
  | .obj _ => .error (.wrongType "unhashable type: 'dict'")
  | _ => .ok none

/-- The value itself if it is given, or else another. -/
def orElse (v other : Value) : Value :=
  if v.truthy then v else other

def first : Value → Outcome Value
  | .arr (item :: _) => .ok item
  | .arr [] => .error (.fault .noSuchIndex "list index out of range")
  | .str s =>
    match s.toList with
    | c :: _ => .ok (.str (String.ofList [c]))
    | [] => .error (.fault .noSuchIndex "string index out of range")
  | .obj _ => .error (.fault .noSuchKey "0")
  | v => .error (.wrongType ("'" ++ v.kindName ++ "' object is not subscriptable"))

/-- A member that must be there. -/
def require (v : Value) (key : String) : Outcome Value :=
  match v with
  | .obj members =>
    match Table.get? members key with
    | some value => .ok value
    | none => .error (.fault .noSuchKey ("'" ++ key ++ "'"))
  | .str _ => .error (.wrongType "string indices must be integers, not 'str'")
  | .arr _ => .error (.wrongType "list indices must be integers or slices, not str")
  | v => .error (.wrongType ("'" ++ v.kindName ++ "' object is not subscriptable"))

end StatesLanguage.Value
