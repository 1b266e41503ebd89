import StatesLanguage.Choice.Comparison
import StatesLanguage.Path

/-!
# Choice rules

A rule combines others by `And`, `Or` and `Not`, or tests one variable by the first of its members
that names a test.
-/

namespace StatesLanguage.Choice

/-- A rule as it is written: connectives over other rules, or tests of a variable. -/
inductive Rule where
  | all (rules : List Rule)
  | any (rules : List Rule)
  | not (rule : Rule)
  | test (members : Members)
  /-- What is not a rule fails when it is asked. -/
  | malformed (reason : Failure)
  deriving Inhabited

namespace Rule

def connectives : List String := ["And", "Or", "Not"]

/-- Why a value that is no object is no rule. -/
def reason : Value → Failure
  | .str s =>
    if connectives.any fun word => Value.occursIn word.toList s.toList then
      .wrongType "string indices must be integers"
    else .noField "'str' object has no attribute 'get'"
  | .arr items =>
    if connectives.any fun word => items.any (Value.same (.str word)) then
      .wrongType "list indices must be integers or slices"
    else .noField "'list' object has no attribute 'get'"
  | v => .wrongType ("argument of type '" ++ v.kindName ++ "' is not iterable")

def ofText (s : String) : Rule :=
  .malformed (reason (.str s))

mutual

/-- A rule is read by the first connective that it has. -/
def ofValue : Value → Rule
  | .obj members =>
    match groupUnder "And" members with
    | some (.ok rules) => .all rules
    | some (.error e) => .malformed e
    | none =>
      match groupUnder "Or" members with
      | some (.ok rules) => .any rules
      | some (.error e) => .malformed e
      | none =>
        match ruleUnder "Not" members with
        | some rule => .not rule
        | none => .test members
  | v => .malformed (reason v)

/-- The rules that a connective joins. -/
def group : Value → Outcome (List Rule)
  | .arr items => .ok (ofItems items)
  | .obj members => .ok (members.map fun member => ofText member.1)
  | .str s => .ok (s.toList.map fun c => ofText (String.ofList [c]))
  | v => .error (.wrongType ("'" ++ v.kindName ++ "' object is not iterable"))

def ofItems : List Value → List Rule
  | [] => []
  | item :: rest => ofValue item :: ofItems rest

def groupUnder (key : String) : List (String × Value) → Option (Outcome (List Rule))
  | [] => none
  | (k, v) :: rest => if k = key then some (group v) else groupUnder key rest

def ruleUnder (key : String) : List (String × Value) → Option Rule
  | [] => none
  | (k, v) :: rest => if k = key then some (ofValue v) else ruleUnder key rest

end

variable [Room]

/-- What the variable of a rule is, if its path leads anywhere. -/
def selected (input context path : Value) : Outcome (Option Value) :=
  match Path.apply input context path with
  | .ok v => .ok (some v)
  | .error (.states .invalidPath _ _) => .ok none
  | .error e => .error e

/-- The comparison that a member asks for, and whether its value is a path. -/
def comparison? (key : String) : Option (Comparison × Bool) :=
  match Comparison.ofName? key with
  | some c => some (c, false)
  | none =>
    -- Behind the name of a comparison, `Path` says that the other value is one.
    if key.endsWith "Path" then
      (Comparison.ofName? (String.ofList (key.toList.take (key.length - 4)))).map (·, true)
    else none

/-- Compares the variable, if there is one, with a literal or with what a path selects. -/
def compareWith (input context : Value) (subject : Option Value) (c : Comparison) (isPath : Bool)
    (value : Value) : Outcome Bool := do
  let other ← if isPath then selected input context value else pure (some value)
  match subject, other with
  | some a, some b => return c.holds a b
  | _, _ => return false

/-- The answer of the first member that names a test; a rule without one is false. -/
def decide (input context : Value) (subject : Option Value) : Members → Outcome Bool
  | [] => .ok false
  | (key, value) :: rest =>
    match TypeTest.ofName? key with
    | some t => .ok (Value.same (.bool (t.holds subject)) value)
    | none =>
      match comparison? key with
      | some (c, isPath) => compareWith input context subject c isPath value
      | none => decide input context subject rest

mutual

/-- Whether a rule matches some data. The rules of `And` and `Or` take three levels of the room, the
one of `Not` takes one. -/
def holds (input context : Value) (room : Nat) : Rule → Outcome Bool
  | all rules => if room < 3 then .error tooDeep else allHold input context (room - 3) rules
  | any rules => if room < 3 then .error tooDeep else anyHolds input context (room - 3) rules
  | not rule =>
    if room < 1 then .error tooDeep else (holds input context (room - 1) rule).map (!·)
  | test members => do
    let subject ← selected input context ((Table.get? members "Variable").getD .null)
    decide input context subject members
  | malformed e => .error e

/-- Whether all rules hold, of which none is looked at behind the first that does not. -/
def allHold (input context : Value) (room : Nat) : List Rule → Outcome Bool
  | [] => .ok true
  | rule :: rest => do
    if ← holds input context room rule then allHold input context room rest else return false

/-- Whether a rule holds, of which none is looked at behind the first that does. -/
def anyHolds (input context : Value) (room : Nat) : List Rule → Outcome Bool
  | [] => .ok false
  | rule :: rest => do
    if ← holds input context room rule then return true else anyHolds input context room rest

end

end Rule

variable [Room]

def matchesRule (rule input context : Value) : Outcome Bool :=
  (Rule.ofValue rule).holds input context Room.levels

end StatesLanguage.Choice
