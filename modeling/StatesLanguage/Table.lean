/-!
# Tables

Entries by name, in the order in which the names were first put.
-/

namespace StatesLanguage

/-- What stands under each of some texts, in the order in which it was put there. -/
abbrev Table (α : Type) := List (String × α)

namespace Table

variable {α : Type}

/-- What stands under a key first. -/
def get? (table : Table α) (key : String) : Option α :=
  table.lookup key

def has (table : Table α) (key : String) : Bool :=
  (get? table key).isSome

/-- Puts an entry: in its old place if there is one of that name, else at the end. -/
def put : Table α → String → α → Table α
  | [], key, value => [(key, value)]
  | (k, v) :: rest, key, value =>
    if k = key then (key, value) :: rest else (k, v) :: put rest key value

def erase (table : Table α) (key : String) : Table α :=
  table.filter (·.1 != key)

/-- The entries put one after the other, so that the last of one name wins. -/
def ofList (pairs : List (String × α)) : Table α :=
  pairs.foldl (fun table pair => put table pair.1 pair.2) []

def keys (table : Table α) : List String :=
  table.map (·.1)

theorem get?_put_self (table : Table α) (key : String) (value : α) :
    get? (put table key value) key = some value := by
  induction table with
  | nil => simp [get?, put]
  | cons entry rest ih =>
    obtain ⟨k, v⟩ := entry
    by_cases h : k = key
    · simp [get?, put, h]
    · have h' : (key == k) = false := by simpa using Ne.symm h
      simpa [get?, put, h, List.lookup_cons, h'] using ih

theorem get?_put_of_ne (table : Table α) {key other : String} (value : α) (h : other ≠ key) :
    get? (put table key value) other = get? table other := by
  induction table with
  | nil => simp [get?, put, List.lookup_cons, beq_false_of_ne h]
  | cons entry rest ih =>
    obtain ⟨k, v⟩ := entry
    by_cases hk : k = key
    · subst hk
      simp [get?, put, List.lookup_cons, beq_false_of_ne h]
    · by_cases ho : other = k
      · subst ho
        simp [get?, put, hk]
      · simpa [get?, put, hk, List.lookup_cons, beq_false_of_ne ho] using ih

end Table

end StatesLanguage
