import Mathlib.Data.List.Infix
import StatesLanguage.Proofs.Table
import StatesLanguage.Value

/-!
# Places in values

Where the members and items of a value stand, what stands at a place, and what putting something there
changes: nothing but the values on the way, and of those nothing but the one member or item.
-/

namespace StatesLanguage

namespace Table

variable {α : Type}

theorem put_put (table : Table α) (key : String) (x y : α) :
    put (put table key x) key y = put table key y := by
  induction table with
  | nil => simp [put]
  | cons entry rest ih =>
    obtain ⟨k, v⟩ := entry
    by_cases h : k = key
    · simp [put, h]
    · simp [put, h, ih]

theorem put_get? {table : Table α} {key : String} {x : α} (h : get? table key = some x) :
    put table key x = table := by
  induction table with
  | nil => cases h
  | cons entry rest ih =>
    obtain ⟨k, v⟩ := entry
    by_cases hk : k = key
    · subst hk
      obtain rfl : v = x := by simpa [get?] using h
      simp [put]
    · have hne : (key == k) = false := by simpa using Ne.symm hk
      rw [put, if_neg hk, ih (by simpa [get?, List.lookup_cons, hne] using h)]

theorem keys_put (table : Table α) (key : String) (x : α) :
    keys (put table key x) = keys table ∨ keys (put table key x) = keys table ++ [key] := by
  induction table with
  | nil => exact .inr rfl
  | cons entry rest ih =>
    obtain ⟨k, v⟩ := entry
    by_cases h : k = key
    · exact .inl (by simp [keys, put, h])
    · simp only [keys, put, h, if_false, List.map_cons, List.cons_append, List.cons.injEq,
        true_and] at ih ⊢
      exact ih

end Table

namespace Value

/-! ## Places of members and items -/

/-- The place of a member in an object, or of an item in an array. -/
inductive Place where
  | member (key : String)
  | item (i : Nat)
  deriving DecidableEq

def child? : Value → Place → Option Value
  | .obj members, .member key => Table.get? members key
  | .arr items, .item i => items[i]?
  | _, _ => none

/-- Puts a value at a place; a value without that place stays as it is. -/
def putChild : Value → Place → Value → Value
  | .obj members, .member key, x => .obj (Table.put members key x)
  | .arr items, .item i, x => .arr (items.set i x)
  | v, _, _ => v

/-- An object has a place for each member, an array only those of its items. -/
def Admits : Value → Place → Prop
  | .obj _, .member _ => True
  | .arr items, .item i => i < items.length
  | _, _ => False

/-- The value that a place is taken to hold: one with nothing there gets an object with no members. -/
def childOrNew (v : Value) (p : Place) : Value :=
  (v.child? p).getD (.obj [])

/-- The members, or the number of items, are the same, but for one more member behind the others. -/
inductive Extends : Value → Value → Prop
  | obj {members members' : Members}
      (keys : Table.keys members' = Table.keys members ∨
        ∃ key, Table.keys members' = Table.keys members ++ [key]) :
      Extends (.obj members) (.obj members')
  | arr {items items' : List Value} (length : items'.length = items.length) :
      Extends (.arr items) (.arr items')

variable {v w x y r : Value} {p q : Place}

@[simp] theorem child?_putChild (h : v.Admits p) : (v.putChild p x).child? p = some x := by
  unfold Admits at h
  split at h
  · exact Table.get?_put_self _ _ _
  · exact List.getElem?_set_self h
  · exact h.elim

theorem child?_putChild_of_ne (h : q ≠ p) : (v.putChild p x).child? q = v.child? q := by
  unfold putChild
  split
  · cases q with
    | member key => exact Table.get?_put_of_ne _ _ fun heq => h (congrArg Place.member heq)
    | item => rfl
  · cases q with
    | member => rfl
    | item i => exact List.getElem?_set_ne fun heq => h (congrArg Place.item heq.symm)
  · rfl

@[simp] theorem childOrNew_putChild (h : v.Admits p) : (v.putChild p x).childOrNew p = x := by
  rw [childOrNew, child?_putChild h, Option.getD_some]

@[simp] theorem admits_putChild : (v.putChild p x).Admits q ↔ v.Admits q := by
  unfold putChild
  split
  · cases q <;> rfl
  · cases q with
    | member => rfl
    | item => simp [Admits]
  · rfl

@[simp] theorem putChild_putChild : (v.putChild p x).putChild p y = v.putChild p y := by
  cases v with
  | obj members => cases p <;> simp [putChild, Table.put_put]
  | arr items => cases p <;> simp [putChild]
  | _ => rfl

theorem putChild_of_child? (h : v.child? p = some x) : v.putChild p x = v := by
  unfold child? at h
  split at h
  · rw [putChild, Table.put_get? h]
  · obtain ⟨hlt, rfl⟩ := List.getElem?_eq_some_iff.mp h
    rw [putChild, List.set_getElem_self]
  · cases h

theorem extends_putChild (h : v.Admits p) : v.Extends (v.putChild p x) := by
  unfold Admits at h
  split at h
  · exact .obj ((Table.keys_put _ _ _).imp_right fun h => ⟨_, h⟩)
  · exact .arr (by simp)
  · exact h.elim

/-! ## Places inside each other -/

/-- Places, each in the value at the one before. -/
abbrev Location := List Place

def at? : Value → Location → Option Value
  | v, [] => some v
  | v, p :: l => (v.child? p).bind (·.at? l)

def setAt : Value → Location → Value → Value
  | _, [], r => r
  | v, p :: l, r => v.putChild p ((v.childOrNew p).setAt l r)

/-- A value can have something at a location. -/
def Reaches : Value → Location → Prop
  | _, [] => True
  | v, p :: l => v.Admits p ∧ (v.childOrNew p).Reaches l

variable {l l' : Location}

@[simp] theorem at?_nil : v.at? [] = some v := by
  rw [at?]

@[simp] theorem at?_cons : v.at? (p :: l) = (v.child? p).bind (·.at? l) := by
  rw [at?]

@[simp] theorem setAt_nil : v.setAt [] r = r := by
  rw [setAt]

@[simp] theorem setAt_cons : v.setAt (p :: l) r = v.putChild p ((v.childOrNew p).setAt l r) := by
  rw [setAt]

theorem at?_setAt (h : v.Reaches l) : (v.setAt l r).at? l = some r := by
  induction l generalizing v with
  | nil => simp
  | cons p l ih =>
    obtain ⟨hadmits, hreaches⟩ := h
    simp [hadmits, ih hreaches]

theorem at?_setAt_of_not_prefix (h : v.Reaches l) (hon : ¬l' <+: l) (hbelow : ¬l <+: l') :
    (v.setAt l r).at? l' = v.at? l' := by
  induction l generalizing v l' with
  | nil => exact absurd List.nil_prefix hbelow
  | cons p l ih =>
    cases l' with
    | nil => exact absurd List.nil_prefix hon
    | cons q l' =>
      obtain ⟨hadmits, hreaches⟩ := h
      by_cases heq : q = p
      · subst heq
        have hinner := ih hreaches (fun h => hon (List.cons_prefix_cons.mpr ⟨rfl, h⟩))
          fun h => hbelow (List.cons_prefix_cons.mpr ⟨rfl, h⟩)
        rw [setAt_cons, at?_cons, child?_putChild hadmits, Option.bind_some, hinner, at?_cons]
        cases hchild : v.child? q with
        | some x => rw [childOrNew, hchild, Option.getD_some, Option.bind_some]
        | none =>
          -- Nothing was there, and the new object has nothing at the other location either.
          rw [childOrNew, hchild, Option.getD_none, Option.bind_none]
          cases l' with
          | nil => exact absurd (List.cons_prefix_cons.mpr ⟨rfl, List.nil_prefix⟩) hon
          | cons q l' => cases q <;> rfl
      · rw [setAt_cons, at?_cons, child?_putChild_of_ne heq, at?_cons]

theorem extends_setAt (h : v.Reaches (l ++ p :: l')) (hat : v.at? l = some x) :
    ∃ y, (v.setAt (l ++ p :: l') r).at? l = some y ∧ x.Extends y := by
  induction l generalizing v with
  | nil =>
    obtain rfl : v = x := by simpa using hat
    exact ⟨_, rfl, extends_putChild h.1⟩
  | cons q l ih =>
    obtain ⟨hadmits, hreaches⟩ := h
    rw [at?_cons] at hat
    obtain ⟨child, hchild, hat⟩ := Option.bind_eq_some_iff.mp hat
    have hnew : v.childOrNew q = child := by rw [childOrNew, hchild, Option.getD_some]
    rw [hnew] at hreaches
    obtain ⟨y, hy, hextends⟩ := ih hreaches hat
    refine ⟨y, ?_, hextends⟩
    rw [List.cons_append, setAt_cons, at?_cons, child?_putChild hadmits, Option.bind_some, hnew, hy]

theorem setAt_setAt (h : v.Reaches l) (r₂ : Value) : (v.setAt l r).setAt l r₂ = v.setAt l r₂ := by
  induction l generalizing v with
  | nil => simp
  | cons p l ih =>
    obtain ⟨hadmits, hreaches⟩ := h
    rw [setAt_cons, setAt_cons, childOrNew_putChild hadmits, ih hreaches, putChild_putChild, setAt_cons]

theorem setAt_of_at? (h : v.at? l = some r) : v.setAt l r = v := by
  induction l generalizing v with
  | nil => exact (Option.some.inj h).symm
  | cons p l ih =>
    rw [at?_cons] at h
    obtain ⟨child, hchild, hat⟩ := Option.bind_eq_some_iff.mp h
    rw [setAt_cons, childOrNew, hchild, Option.getD_some, ih hat, putChild_of_child? hchild]

end Value

end StatesLanguage
