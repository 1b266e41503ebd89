import StatesLanguage.Path.Expression.Function
import StatesLanguage.Path.Expression.Reader
import StatesLanguage.Path.Shorthand

/-!
# Meaning of filter expressions

The operand that an expression stands for, given the value at hand. Operands are evaluated from the
left, and only as far as they are needed. An expression that cannot be read, or of which some part
that is needed has no meaning, is false.
-/

namespace StatesLanguage.Path.Expression

def valueOf? (subject : Operand) (name : String) : Option Operand :=
  if name = subjectName then some subject else known? name

/-- The entries of a table, all of which are put into another. -/
def spreadInto? (done : List (Operand × Operand)) : Operand → Option (List (Operand × Operand))
  | .table entries => some (entries.foldl (fun done (k, v) => Operand.putEntry done k v) done)
  | _ => none

mutual

/-- The value of an expression, about the value at hand, if it has one. -/
def eval? (subject : Operand) : Expression → Option Operand
  | constant o => some o
  | name s => valueOf? subject s
  | call f args => do
    match ← eval? subject f with
    | .named s => callNamed? s (← evalItems? subject args)
    | _ => none
  | index e i => do (← eval? subject e).index? (← eval? subject i)
  | slice a b c => do
    return .slice (← eval? subject a) (← eval? subject b) (← eval? subject c)
  | list items => (evalItems? subject items).map .list
  | tuple items => (evalItems? subject items).map .tuple
  | set items => do return .set (← Operand.distinct (← evalItems? subject items))
  | table entries => (evalEntries? subject [] entries).map .table
  | signed sign e => do sign.apply (← eval? subject e)
  | binary op a b => do op.apply (← eval? subject a) (← eval? subject b)
  | compared first rest => do evalComparisons? subject (← eval? subject first) rest
  | not e => do return .bool (!(← eval? subject e).truthy)
  | and a b => do
    let o ← eval? subject a
    if o.truthy then eval? subject b else return o
  | or a b => do
    let o ← eval? subject a
    if o.truthy then return o else eval? subject b
  | conditional test yes no => do
    if (← eval? subject test).truthy then eval? subject yes else eval? subject no
  | field _ _ | starred _ | keyword _ _ | entry _ _ | spread _ => none

/-- Items or arguments; a starred one stands for all that it is made of. -/
def evalItems? (subject : Operand) : List Expression → Option (List Operand)
  | [] => some []
  | .starred e :: rest => do
    return (← (← eval? subject e).items?) ++ (← evalItems? subject rest)
  | e :: rest => do return (← eval? subject e) :: (← evalItems? subject rest)

def evalEntries? (subject : Operand) (done : List (Operand × Operand)) :
    List Expression → Option (List (Operand × Operand))
  | [] => some done
  | .entry key value :: rest => do
    let key ← eval? subject key
    let value ← eval? subject value
    if key.isFixed then evalEntries? subject (Operand.putEntry done key value) rest else none
  | .spread e :: rest => do
    evalEntries? subject (← spreadInto? done (← eval? subject e)) rest
  | _ :: _ => none

/-- A chain of comparisons, up to the first that fails. -/
def evalComparisons? (subject : Operand) (a : Operand) :
    List (Comparison × Expression) → Option Operand
  | [] => some (.bool true)
  | (c, e) :: rest => do
    let b ← eval? subject e
    if ← c.apply a b then evalComparisons? subject b rest else return .bool false

end

/-- The operand that an expression, if it could be read, is for a value. -/
def valueFor (e : Option Expression) (v : Value) : Operand :=
  (e.bind (eval? (.ofValue v))).getD (.bool false)

/-- The expression of a filter, its shorthands spelled out. -/
def ofFilter? (cs : List Char) : Option Expression :=
  ofText? (spellOut cs)

end StatesLanguage.Path.Expression
