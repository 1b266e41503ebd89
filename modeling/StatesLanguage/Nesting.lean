import StatesLanguage.Error

/-!
# Nesting

Values and expressions are nested in each other, and whatever works on them goes from one level to
the next. There is room for so many levels only; each kind of work takes its own part of it for a
level, and what is nested deeper is refused.
-/

namespace StatesLanguage

/-- The room that there is for work on what is nested. How much of it is left depends on where the work
is done, so that nothing is assumed of it but that plain paths can be followed and plain values copied
and told. -/
class Room where
  /-- The levels of paths, templates, rules and calls. -/
  levels : Nat
  four_le_levels : 4 ≤ levels
  /-- The levels of a value of which a copy, changed or not, is made. -/
  copies : Nat
  one_le_copies : 1 ≤ copies
  /-- The levels of a value whose text is made. -/
  texts : Nat
  two_le_texts : 2 ≤ texts

/-- The room that a call from outside of all runs finds. -/
instance Room.outside : Room := ⟨990, by decide, 994, by decide, 985, by decide⟩

def tooDeep : Failure :=
  .fault .tooDeep "maximum recursion depth exceeded"

namespace Value

mutual

/-- The levels that work on a value takes: two for each of the arrays and objects inside each other, and
one for what stands in the innermost. -/
def levels : Value → Nat
  | .arr items => levelsOfItems items + 2
  | .obj members => levelsOfMembers members + 2
  | _ => 1

def levelsOfItems : List Value → Nat
  | [] => 0
  | item :: rest => max (levels item) (levelsOfItems rest)

def levelsOfMembers : List (String × Value) → Nat
  | [] => 0
  | (_, value) :: rest => max (levels value) (levelsOfMembers rest)

end

end Value

namespace Nesting

/-- A copy of a value, changed on the way. -/
def copied [Room] (change : Value → Value) (v : Value) : Outcome Value :=
  if v.levels > Room.copies then .error tooDeep else .ok (change v)

theorem copied_of_levels_le [Room] {change : Value → Value} {v : Value} (h : v.levels ≤ Room.copies) :
    copied change v = .ok (change v) := by
  simp [copied, Nat.not_lt.mpr h]

end Nesting

end StatesLanguage
