import StatesLanguage.Path.Operand

/-!
# Access to operands

Items, slices and sizes of operands.
-/

namespace StatesLanguage.Path.Operand

/-- The place that an integer names in a sequence; negative ones count from the end. -/
def itemAt? {α : Type} (items : List α) (i : Int) : Option α :=
  let i := if i < 0 then i + items.length else i
  if i < 0 then none else items[i.toNat]?

/-- An end of a slice, brought into a sequence of `size` items. Backwards, the end before the first
item is `-1`. -/
def bound (size : Int) (backwards : Bool) (i : Int) : Int :=
  let i := if i < 0 then i + size else i
  if i < 0 then if backwards then -1 else 0
  else if i ≥ size then if backwards then size - 1 else size
  else i

def bound? : Operand → Option (Option Int)
  | .null => some none
  | o => o.integer?.map some

/-- The items of a slice. -/
def sliced? {α : Type} (items : List α) (start stop stride : Operand) : Option (List α) := do
  let step := (← stride.bound?).getD 1
  if step = 0 then none
  let size : Int := items.length
  let backwards : Bool := step < 0
  let first := match ← start.bound? with
    | some i => bound size backwards i
    | none => if backwards then size - 1 else 0
  let last := match ← stop.bound? with
    | some i => bound size backwards i
    | none => if backwards then -1 else size
  let count : Int :=
    if backwards then (first - last - step - 1) / -step else (last - first + step - 1) / step
  let all := items.toArray
  return (List.range count.toNat).filterMap fun (k : Nat) => all[(first + step * k).toNat]?

/-- The part of a sequence that an index or a slice names. -/
def part? {α : Type} (items : List α) (one : α → Operand) (several : List α → Operand) :
    Operand → Option Operand
  | .slice start stop stride => (sliced? items start stop stride).map several
  | i => do return one (← itemAt? items (← i.integer?))

/-- An item by its index or key. -/
def index? : Operand → Operand → Option Operand
  | .str s, i => part? s.toList (fun c => .str (String.ofList [c])) (fun cs => .str (String.ofList cs)) i
  | .bytes content, i => part? content (fun b => .int b.toNat) .bytes i
  | .list items, i => part? items id .list i
  | .tuple items, i => part? items id .tuple i
  | .table entries, key => if key.isFixed then lookup? entries key else none
  | _, _ => none

/-- What an operand is made of. -/
def items? : Operand → Option (List Operand)
  | .str s => some (s.toList.map fun c => .str (String.ofList [c]))
  | .bytes content => some (content.map fun b => .int b.toNat)
  | .list items | .tuple items | .set items => some items
  | .table entries => some (entries.map (·.1))
  | _ => none

def size? (o : Operand) : Option Nat :=
  o.items?.map List.length

end StatesLanguage.Path.Operand
