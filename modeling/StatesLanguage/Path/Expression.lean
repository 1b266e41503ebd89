import StatesLanguage.Path.Operand.Operator

/-!
# Filter expressions

The form of the expressions in filters and computed steps.
-/

namespace StatesLanguage.Path

/-- The expressions that a filter or a computed step may be. -/
inductive Expression where
  | constant (o : Operand)
  | name (s : String)
  /-- A field, which no operand has. -/
  | field (e : Expression) (name : String)
  | call (f : Expression) (args : List Expression)
  | index (e i : Expression)
  | slice (start stop stride : Expression)
  | list (items : List Expression)
  | tuple (items : List Expression)
  | set (items : List Expression)
  | table (entries : List Expression)
  | signed (sign : Sign) (e : Expression)
  | binary (op : Operator) (a b : Expression)
  | compared (first : Expression) (rest : List (Comparison × Expression))
  | not (e : Expression)
  | and (a b : Expression)
  | or (a b : Expression)
  | conditional (test yes no : Expression)
  /-- Among items or arguments: all that an operand is made of. -/
  | starred (e : Expression)
  /-- Among arguments: one by its name. -/
  | keyword (name : String) (e : Expression)
  /-- Among entries: a key and its value. -/
  | entry (key value : Expression)
  /-- Among entries or arguments: all entries of a table. -/
  | spread (e : Expression)
  deriving Inhabited

end StatesLanguage.Path
