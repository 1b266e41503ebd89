import Mathlib.Data.List.Basic
import Mathlib.Data.List.Induction
import Mathlib.Data.List.Nodup
import StatesLanguage.Table

/-!
# Lookups and entries in tables
-/

namespace StatesLanguage.Table

variable {α β : Type}

theorem get?_cons (table : Table α) (key other : String) (value : α) :
    get? ((key, value) :: table) other = if key = other then some value else get? table other := by
  rw [get?, List.lookup_cons, get?]
  split
  · rename_i h
    rw [if_pos (beq_iff_eq.mp h).symm]
  · rename_i h
    rw [if_neg fun heq => by simp [heq] at h]

theorem get?_eq_none {table : Table α} {key : String} (h : ∀ entry ∈ table, entry.1 ≠ key) :
    get? table key = none := by
  rw [get?, List.lookup_eq_none_iff]
  exact fun entry hentry => bne_iff_ne.mpr (Ne.symm (h entry hentry))

theorem get?_between (front back : Table α) {key other : String} (value : α) (h : key ≠ other) :
    get? (front ++ (key, value) :: back) other = get? (front ++ back) other := by
  simp only [get?, List.lookup_append, List.lookup_cons, beq_false_of_ne (Ne.symm h)]

theorem get?_put (table : Table α) (key other : String) (value : α) :
    get? (put table key value) other = if other = key then some value else get? table other := by
  split
  · rename_i h
    rw [h, get?_put_self]
  · rename_i h
    exact get?_put_of_ne table value h

theorem get?_erase (table : Table α) (key other : String) :
    get? (erase table key) other = if other = key then none else get? table other := by
  induction table with
  | nil => simp [get?, erase]
  | cons entry rest ih =>
    obtain ⟨k, v⟩ := entry
    simp only [get?, erase] at ih ⊢
    by_cases hk : k = key
    · subst hk
      rw [List.filter_cons_of_neg (by simp), ih, List.lookup_cons]
      split
      · rfl
      · rename_i h
        simp [beq_false_of_ne h]
    · rw [List.filter_cons_of_pos (by simpa using hk), List.lookup_cons, List.lookup_cons, ih]
      by_cases ho : other = k
      · subst ho
        simp [hk]
      · simp [beq_false_of_ne ho]

theorem get?_map (table : Table α) (f : α → β) (key : String) :
    get? (table.map fun (k, v) => (k, f v)) key = (get? table key).map f := by
  induction table with
  | nil => rfl
  | cons entry rest ih =>
    obtain ⟨k, v⟩ := entry
    simp only [get?] at ih ⊢
    rw [List.map_cons, List.lookup_cons, List.lookup_cons, ih]
    by_cases h : key = k
    · simp [h]
    · simp [beq_false_of_ne h]

theorem has_put (table : Table α) (key other : String) (value : α) :
    has (put table key value) other = (decide (other = key) || has table other) := by
  rw [has, get?_put, has]
  split <;> simp_all

theorem has_erase (table : Table α) (key other : String) :
    has (erase table key) other = (!decide (other = key) && has table other) := by
  rw [has, get?_erase, has]
  split <;> simp_all

/-! ## Entries put one after the other -/

theorem put_of_notMem {table : Table α} {key : String} (h : key ∉ keys table) (value : α) :
    put table key value = table ++ [(key, value)] := by
  induction table with
  | nil => rfl
  | cons entry rest ih =>
    obtain ⟨hne, hrest⟩ : key ≠ entry.1 ∧ key ∉ keys rest := by simpa [keys] using h
    rw [put, if_neg (Ne.symm hne), ih hrest, List.cons_append]

theorem keys_put_of_mem {table : Table α} {key : String} (h : key ∈ keys table) (value : α) :
    keys (put table key value) = keys table := by
  induction table with
  | nil => cases h
  | cons entry rest ih =>
    obtain ⟨k, v⟩ := entry
    rw [put]
    split
    · rename_i heq
      simp [keys, heq]
    · rename_i hne
      have hrest : key ∈ keys rest := (List.mem_cons.mp h).resolve_left (Ne.symm hne)
      exact congrArg (k :: ·) (ih hrest)

theorem nodup_keys_put {table : Table α} (h : (keys table).Nodup) (key : String) (value : α) :
    (keys (put table key value)).Nodup := by
  by_cases hmem : key ∈ keys table
  · rwa [keys_put_of_mem hmem]
  · rw [put_of_notMem hmem, keys, List.map_append]
    exact List.nodup_append.mpr ⟨h, List.nodup_singleton _, fun k hk other hother => by
      rw [List.mem_singleton.mp hother]
      rintro rfl
      exact hmem hk⟩

theorem mem_of_mem_put {table : Table α} {key : String} {value : α} {entry : String × α}
    (h : entry ∈ put table key value) : entry ∈ table ∨ entry = (key, value) := by
  induction table with
  | nil => exact .inr (List.mem_singleton.mp h)
  | cons other rest ih =>
    rw [put] at h
    split at h
    · exact (List.mem_cons.mp h).symm.imp_left (List.mem_cons_of_mem _)
    · rcases List.mem_cons.mp h with rfl | hrest
      · exact .inl List.mem_cons_self
      · exact (ih hrest).imp_left (List.mem_cons_of_mem _)

theorem ofList_concat (pairs : List (String × α)) (key : String) (value : α) :
    ofList (pairs ++ [(key, value)]) = put (ofList pairs) key value := by
  simp [ofList]

theorem nodup_keys_ofList (pairs : List (String × α)) : (keys (ofList pairs)).Nodup := by
  induction pairs using List.reverseRecOn with
  | nil => exact List.nodup_nil
  | append_singleton pairs pair ih => exact ofList_concat pairs pair.1 pair.2 ▸ nodup_keys_put ih _ _

theorem mem_of_mem_ofList {pairs : List (String × α)} {entry : String × α} (h : entry ∈ ofList pairs) :
    entry ∈ pairs := by
  induction pairs using List.reverseRecOn with
  | nil => cases h
  | append_singleton pairs pair ih =>
    rw [ofList_concat] at h
    rcases mem_of_mem_put h with hmem | rfl
    · exact List.mem_append_left _ (ih hmem)
    · exact List.mem_append_right _ (List.mem_singleton_self _)

theorem ofList_of_nodup {pairs : List (String × α)} (h : (keys pairs).Nodup) :
    ofList pairs = pairs := by
  induction pairs using List.reverseRecOn with
  | nil => rfl
  | append_singleton pairs pair ih =>
    rw [keys, List.map_append, List.map_singleton, List.nodup_append] at h
    obtain ⟨hpairs, -, hdisjoint⟩ := h
    rw [ofList_concat pairs pair.1 pair.2, ih hpairs]
    exact put_of_notMem (fun hmem => hdisjoint _ hmem _ (List.mem_singleton_self _) rfl) _

end StatesLanguage.Table
