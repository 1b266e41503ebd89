import StatesLanguage.Value.Number
import StatesLanguage.Value.Display
import StatesLanguage.Decimal.Numeral

/-!
# Operands

What filter expressions calculate with. Besides the values of the data there are tuples, sets,
tables with keys of any kind, byte strings, bounds of slices, and the functions that have a name.
-/

namespace StatesLanguage.Path

/-- What expressions are evaluated to: JSON values, and what else they can make. -/
inductive Operand where
  | null
  | bool (b : Bool)
  | int (n : Int)
  | float (x : Float)
  /-- An imaginary number, which can be compared but not calculated with. -/
  | imaginary (x : Float)
  | str (s : String)
  | bytes (content : List UInt8)
  | list (items : List Operand)
  | tuple (items : List Operand)
  /-- The items of a set are all different. -/
  | set (items : List Operand)
  /-- The keys of a table are all different. -/
  | table (entries : List (Operand × Operand))
  | slice (start stop stride : Operand)
  /-- A function or a kind, by its name. -/
  | named (name : String)
  | ellipsis
  deriving Inhabited

namespace Operand

mutual

def ofValue : Value → Operand
  | .null => .null
  | .bool b => .bool b
  | .int n => .int n
  | .float x => .float x
  | .str s => .str s
  | .arr items => .list (ofItems items)
  | .obj members => .table (ofMembers members)
  | .datum (.bytes content) => .bytes content
  | .datum d => .str d.display

def ofItems : List Value → List Operand
  | [] => []
  | item :: rest => ofValue item :: ofItems rest

def ofMembers : List (String × Value) → List (Operand × Operand)
  | [] => []
  | (key, value) :: rest => (.str key, ofValue value) :: ofMembers rest

end

/-- Whether a value counts as true. -/
def truthy : Operand → Bool
  | .null => false
  | .bool b => b
  | .int n => n != 0
  | .float x | .imaginary x => !(x == 0.0)
  | .str s => s != ""
  | .bytes content => !content.isEmpty
  | .list items | .tuple items | .set items => !items.isEmpty
  | .table entries => !entries.isEmpty
  | .slice _ _ _ | .named _ | .ellipsis => true

/-- The number that an operand is; booleans count as 0 and 1. -/
def number? : Operand → Option Value.Number
  | .bool b => some (.int (if b then 1 else 0))
  | .int n => some (.int n)
  | .float x => some (.float x)
  | _ => none

def integer? (o : Operand) : Option Int :=
  match o.number? with
  | some (.int n) => some n
  | _ => none

def ofNumber : Value.Number → Operand
  | .int n => .int n
  | .float x => .float x

/-! ## Equality -/

/-- Whether an operand is the floating number that differs from itself. -/
def isNaN : Operand → Bool
  | .float x => x != x
  | _ => false

/-- Equality of operands that are not made of others. -/
def sameLeaf : Operand → Operand → Bool
  | .null, .null | .ellipsis, .ellipsis => true
  | .str a, .str b | .named a, .named b => a == b
  | .bytes a, .bytes b => a == b
  | .imaginary x, .imaginary y => x == y
  | .imaginary x, o | o, .imaginary x =>
    x == 0.0 && (o.number?.any fun n => n.equal (.int 0))
  | a, b =>
    match a.number?, b.number? with
    | some x, some y => x.equal y
    | _, _ => false

mutual

/-- Equality of operands: numbers by value, sets and dictionaries in any order. -/
def same : Operand → Operand → Bool
  | .list xs, .list ys | .tuple xs, .tuple ys => sameItems xs ys
  | .set xs, .set ys => xs.length == ys.length && areAmong xs ys
  | .table xs, .table ys => xs.length == ys.length && sameEntries xs ys
  | .slice a b c, .slice a' b' c' => same a a' && same b b' && same c c'
  | a, b => sameLeaf a b

/-- Items pairwise equal. A number that differs from itself is still the same item. -/
def sameItems : List Operand → List Operand → Bool
  | [], [] => true
  | x :: xs, y :: ys => (x.isNaN && y.isNaN || same x y) && sameItems xs ys
  | _, _ => false

def areAmong : List Operand → List Operand → Bool
  | [], _ => true
  | x :: xs, ys => (ys.any fun y => x.isNaN && y.isNaN || same x y) && areAmong xs ys

def sameEntries : List (Operand × Operand) → List (Operand × Operand) → Bool
  | [], _ => true
  | (key, value) :: rest, ys =>
    (ys.any fun (key', value') =>
      (key.isNaN && key'.isNaN || same key key') &&
        (value.isNaN && value'.isNaN || same value value')) && sameEntries rest ys

end

def isItem (x y : Operand) : Bool :=
  x.isNaN && y.isNaN || same x y

def isAmong (x : Operand) (items : List Operand) : Bool :=
  items.any (isItem x)

mutual

/-- Whether an operand can be an item of a set or a key of a table: one that never changes. -/
def isFixed : Operand → Bool
  | .list _ | .set _ | .table _ | .slice _ _ _ => false
  | .tuple items => areFixed items
  | _ => true

def areFixed : List Operand → Bool
  | [] => true
  | item :: rest => isFixed item && areFixed rest

end

/-- The items of a set, of which each stands only once. -/
def distinct (items : List Operand) : Option (List Operand) :=
  if areFixed items then
    some (items.foldl (fun done item => if item.isAmong done then done else done ++ [item]) [])
  else none

/-- Puts an entry into a table; a key that is there already keeps its place. -/
def putEntry (entries : List (Operand × Operand)) (key value : Operand) :
    List (Operand × Operand) :=
  if entries.any fun entry => key.isItem entry.1 then
    entries.map fun entry => if key.isItem entry.1 then (entry.1, value) else entry
  else entries ++ [(key, value)]

def lookup? (entries : List (Operand × Operand)) (key : Operand) : Option Operand :=
  (entries.find? fun entry => key.isItem entry.1).map (·.2)

/-! ## Order -/

/-- The order of texts and numbers, by a test on their order. -/
def orderedLeaf (test : Ordering → Bool) : Operand → Operand → Option Bool
  | .str a, .str b => some (test (compare a b))
  | .bytes a, .bytes b => some (test (compare (a.map (·.toNat)) (b.map (·.toNat))))
  | a, b => do
    let x ← a.number?
    let y ← b.number?
    return (x.order? y).any test

mutual

/-- Whether one operand stands in an order to another. Texts and numbers have one, lists and tuples
take that of their first difference, and sets contain each other or not. -/
def ordered (test : Ordering → Bool) : Operand → Operand → Option Bool
  | .list xs, .list ys | .tuple xs, .tuple ys => orderedItems test xs ys
  | .set xs, .set ys =>
    some ((areAmong xs ys && test (if xs.length == ys.length then .eq else .lt)) ||
      (areAmong ys xs && ys.length < xs.length && test .gt))
  | a, b => orderedLeaf test a b

/-- Whether the order of two sequences passes a test; the first items that differ decide it. -/
def orderedItems (test : Ordering → Bool) : List Operand → List Operand → Option Bool
  | [], [] => some (test .eq)
  | [], _ :: _ => some (test .lt)
  | _ :: _, [] => some (test .gt)
  | x :: xs, y :: ys => if isItem x y then orderedItems test xs ys else ordered test x y

end

/-! ## Membership -/

def bytesOccur (needle : List UInt8) : List UInt8 → Bool
  | [] => needle.isEmpty
  | b :: rest => needle.isPrefixOf (b :: rest) || bytesOccur needle rest

/-- Whether a container has an item: a list, tuple or set by equality, a table by key, a text by
occurrence of a part. -/
def holds (container item : Operand) : Option Bool :=
  match container, item with
  | .list items, _ | .tuple items, _ => some (item.isAmong items)
  | .set items, _ => if item.isFixed then some (item.isAmong items) else none
  | .table entries, _ => if item.isFixed then some (lookup? entries item).isSome else none
  | .str text, .str part => some (Value.occursIn part.toList text.toList)
  | .bytes content, .bytes part => some (bytesOccur part content)
  | .bytes content, o => do
    let n ← o.integer?
    if 0 ≤ n ∧ n < 256 then some (content.any fun b => b.toNat == n.toNat) else none
  | _, _ => none

/-! ## Texts -/

def integerText? (n : Int) : Option String :=
  if Decimal.isTooLong n then none else some (toString n)

/-- The text of an imaginary number, without a fraction that is zero. -/
def imaginaryText (x : Float) : String :=
  let text := Decimal.display.render x
  (if text.endsWith ".0" then String.ofList (text.toList.dropLast.dropLast) else text) ++ "j"

mutual

/-- The text of an operand inside another; an integer of too many digits has none. -/
def inner? : Operand → Option String
  | .null => some "None"
  | .bool b => some (boolText b)
  | .int n => integerText? n
  | .float x => some (Decimal.display.render x)
  | .imaginary x => some (imaginaryText x)
  | .str s => some (Text.quoted s)
  | .bytes content => some (Text.quotedBytes content)
  | .list items => do return "[" ++ ", ".intercalate (← innerItems? items) ++ "]"
  | .tuple items => do
    match ← innerItems? items with
    | [item] => return "(" ++ item ++ ",)"
    | texts => return "(" ++ ", ".intercalate texts ++ ")"
  | .set items => do
    match ← innerItems? items with
    | [] => return "set()"
    | texts => return "\x7b" ++ ", ".intercalate texts ++ "\x7d"
  | .table entries => do return "\x7b" ++ ", ".intercalate (← innerEntries? entries) ++ "\x7d"
  | .slice a b c => do
    return "slice(" ++ (← inner? a) ++ ", " ++ (← inner? b) ++ ", " ++ (← inner? c) ++ ")"
  | .named name => some (if name = "NotImplemented" then name else "<function " ++ name ++ ">")
  | .ellipsis => some "Ellipsis"

def innerItems? : List Operand → Option (List String)
  | [] => some []
  | item :: rest => do return (← inner? item) :: (← innerItems? rest)

def innerEntries? : List (Operand × Operand) → Option (List String)
  | [] => some []
  | (key, value) :: rest => do
    return ((← inner? key) ++ ": " ++ (← inner? value)) :: (← innerEntries? rest)

end

/-- What an operand is shown as, if its integers have not too many digits. -/
def text? : Operand → Option String
  | .str s => some s
  | o => o.inner?

end Operand

end StatesLanguage.Path
