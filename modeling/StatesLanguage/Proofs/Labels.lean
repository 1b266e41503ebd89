import Mathlib.Data.List.Basic
import StatesLanguage.Metrics

/-!
# Labels of metrics

Metrics are kept by a text of their name and their label. Two metrics of one namespace share it only
if they are of the same family, count the same event, and are of the same resource.
-/

namespace StatesLanguage

/-! ## Hexadecimal digits -/

namespace Text

def digitValue (c : Char) : Nat :=
  if c.toNat < 58 then c.toNat - 48 else c.toNat - 87

def hexValue (cs : List Char) : Nat :=
  cs.foldl (fun n c => 16 * n + digitValue c) 0

theorem digitValue_digitChar {n : Nat} (h : n < 16) : digitValue n.digitChar = n := by
  have hall : ∀ i : Fin 16, digitValue (i : Nat).digitChar = i := by decide
  exact hall ⟨n, h⟩

theorem hexValue_toDigits (n : Nat) : hexValue (Nat.toDigits 16 n) = n := by
  induction n using Nat.strongRecOn with
  | ind n ih =>
    by_cases h : n < 16
    · rw [Nat.toDigits_of_lt_base h]
      simpa [hexValue] using digitValue_digitChar h
    · rw [Nat.toDigits_of_base_le (by decide) (Nat.le_of_not_lt h)]
      have hrest := ih (n / 16) (by omega)
      simp only [hexValue] at hrest
      simp only [hexValue, List.foldl_append, List.foldl_cons, List.foldl_nil, hrest,
        digitValue_digitChar (Nat.mod_lt n (by decide))]
      omega

theorem hexValue_hex (width n : Nat) : hexValue (hex width n) = n := by
  have hzeros (k : Nat) : (List.replicate k '0').foldl (fun n c => 16 * n + digitValue c) 0 = 0 := by
    induction k with
    | zero => rfl
    | succ k ih => simpa [List.replicate_succ, digitValue] using ih
  simp only [hex, hexValue, List.foldl_append, hzeros]
  exact hexValue_toDigits n

theorem length_hex {width n : Nat} (h : n < Nat.pow 16 width) (hwidth : 0 < width) :
    (hex width n).length = width := by
  have hlength := (Nat.length_toDigits_le_iff (by decide) hwidth).mpr h
  simp only [hex, List.length_append, List.length_replicate]
  omega

end Text

/-! ## Strings in JSON -/

namespace Json

theorem unitEscape_append_inj {m n : Nat} (hm : m < 65536) (hn : n < 65536) {x y : List Char}
    (h : unitEscape m ++ x = unitEscape n ++ y) : m = n ∧ x = y := by
  simp only [unitEscape, List.cons_append, List.cons.injEq, true_and] at h
  have hlength : (Text.hex 4 m).length = (Text.hex 4 n).length := by
    rw [Text.length_hex (show m < Nat.pow 16 4 from hm) (by decide),
      Text.length_hex (show n < Nat.pow 16 4 from hn) (by decide)]
  obtain ⟨hhex, hrest⟩ := List.append_inj h hlength
  refine ⟨?_, hrest⟩
  rw [← Text.hexValue_hex 4 m, ← Text.hexValue_hex 4 n, hhex]

theorem units_append_inj {c d : Char} {x y : List Char}
    (h : (units c).flatMap unitEscape ++ x = (units d).flatMap unitEscape ++ y) : c = d ∧ x = y := by
  have hvalid (c : Char) : c.toNat < 0xd800 ∨ 0xdfff < c.toNat ∧ c.toNat < 0x110000 := c.valid
  have hc := hvalid c
  have hd := hvalid d
  unfold units at h
  by_cases hcsmall : c.toNat < 0x10000 <;> by_cases hdsmall : d.toNat < 0x10000
  · simp only [hcsmall, hdsmall, if_true, List.flatMap_cons, List.flatMap_nil, List.append_nil] at h
    obtain ⟨hunit, hrest⟩ := unitEscape_append_inj hcsmall hdsmall h
    exact ⟨Char.toNat_inj.mp hunit, hrest⟩
  · simp only [hcsmall, hdsmall, if_true, if_false, List.flatMap_cons, List.flatMap_nil,
      List.append_nil, List.append_assoc] at h
    have hunit := (unitEscape_append_inj (by omega) (by omega) h).1
    omega
  · simp only [hcsmall, hdsmall, if_true, if_false, List.flatMap_cons, List.flatMap_nil,
      List.append_nil, List.append_assoc] at h
    have hunit := (unitEscape_append_inj (by omega) (by omega) h).1
    omega
  · simp only [hcsmall, hdsmall, if_false, List.flatMap_cons, List.flatMap_nil, List.append_nil,
      List.append_assoc] at h
    obtain ⟨hfirst, h⟩ := unitEscape_append_inj (by omega) (by omega) h
    obtain ⟨hsecond, hrest⟩ := unitEscape_append_inj (by omega) (by omega) h
    exact ⟨Char.toNat_inj.mp (by omega), hrest⟩

/-- The characters that have a short escape, and the letters of these behind the backslash. -/
def shortEscapes : List (Char × Char) :=
  [('"', '"'), ('\\', '\\'), ('\x08', 'b'), ('\x0c', 'f'), ('\n', 'n'), ('\r', 'r'), ('\t', 't')]

theorem shortEscapes_inj {c d k : Char} (hc : (c, k) ∈ shortEscapes) (hd : (d, k) ∈ shortEscapes) :
    c = d := by
  simp only [shortEscapes, List.mem_cons, Prod.mk.injEq, List.not_mem_nil, or_false] at hc hd
  rcases hc with ⟨rfl, rfl⟩ | ⟨rfl, rfl⟩ | ⟨rfl, rfl⟩ | ⟨rfl, rfl⟩ | ⟨rfl, rfl⟩ | ⟨rfl, rfl⟩ |
    ⟨rfl, rfl⟩ <;> simp_all

theorem shortEscapes_ne_unit {c k : Char} (h : (c, k) ∈ shortEscapes) : k ≠ 'u' := by
  have hall : ∀ p ∈ shortEscapes, p.2 ≠ 'u' := by decide
  exact hall _ h

theorem escapeChar_cases (c : Char) :
    (∃ k, (c, k) ∈ shortEscapes ∧ escapeChar false c = ['\\', k]) ∨
      escapeChar false c = (units c).flatMap unitEscape ∨
        escapeChar false c = [c] ∧ c ≠ '\\' ∧ c ≠ '"' := by
  by_cases hshort : ∃ k, (c, k) ∈ shortEscapes
  · obtain ⟨k, hk⟩ := hshort
    have hall : ∀ p ∈ shortEscapes, escapeChar false p.1 = ['\\', p.2] := by
      simp only [shortEscapes, List.forall_mem_cons]
      refine ⟨rfl, rfl, rfl, rfl, rfl, rfl, rfl, ?_⟩
      intro p hp
      cases hp
    exact .inl ⟨k, hk, hall _ hk⟩
  · simp only [shortEscapes, List.mem_cons, Prod.mk.injEq, List.not_mem_nil, or_false, exists_or,
      exists_eq_right, not_or] at hshort
    obtain ⟨hquote, hslash, hback, hform, hline, hreturn, htab⟩ := hshort
    unfold escapeChar
    rw [if_neg hquote, if_neg hslash, if_neg hback, if_neg hform, if_neg hline, if_neg hreturn,
      if_neg htab]
    split
    · rename_i hplain
      exact .inr (.inr ⟨by rw [hplain]; rfl, hslash, hquote⟩)
    · split
      · exact .inr (.inl rfl)
      · exact .inr (.inr ⟨rfl, hslash, hquote⟩)

theorem units_eq_cons (c : Char) : ∃ cs, (units c).flatMap unitEscape = '\\' :: 'u' :: cs := by
  have hcons : ∃ n rest, units c = n :: rest := by
    unfold units
    by_cases hsmall : c.toNat < 0x10000
    · exact ⟨_, _, if_pos hsmall⟩
    · exact ⟨_, _, if_neg hsmall⟩
  obtain ⟨n, rest, hunits⟩ := hcons
  rw [hunits, List.flatMap_cons, unitEscape]
  exact ⟨_, rfl⟩

theorem escapeChar_append_inj {c d : Char} {x y : List Char}
    (h : escapeChar false c ++ x = escapeChar false d ++ y) : c = d ∧ x = y := by
  obtain ⟨cs, hcs⟩ := units_eq_cons c
  obtain ⟨ds, hds⟩ := units_eq_cons d
  rcases escapeChar_cases c with ⟨k, hk, hc⟩ | hc | ⟨hc, hcslash, -⟩ <;>
    rcases escapeChar_cases d with ⟨l, hl, hd⟩ | hd | ⟨hd, hdslash, -⟩ <;> rw [hc, hd] at h
  · obtain ⟨rfl, rfl⟩ : k = l ∧ x = y := by simpa using h
    exact ⟨shortEscapes_inj hk hl, rfl⟩
  · rw [hds] at h
    exact absurd (by simpa using h : k = 'u' ∧ x = ds ++ y).1 (shortEscapes_ne_unit hk)
  · exact absurd (by simpa using h : '\\' = d ∧ k :: x = y).1.symm hdslash
  · rw [hcs] at h
    exact absurd (by simpa using h : 'u' = l ∧ cs ++ x = y).1.symm (shortEscapes_ne_unit hl)
  · exact units_append_inj h
  · rw [hcs] at h
    exact absurd (List.cons.inj h).1.symm hdslash
  · exact absurd (by simpa using h : c = '\\' ∧ x = l :: y).1 hcslash
  · rw [hds] at h
    exact absurd (List.cons.inj h).1 hcslash
  · simpa using h

theorem escapeChar_ne_quote (c : Char) (x y : List Char) : escapeChar false c ++ x ≠ '"' :: y := by
  obtain ⟨cs, hcs⟩ := units_eq_cons c
  intro h
  rcases escapeChar_cases c with ⟨k, hk, hc⟩ | hc | ⟨hc, -, hquote⟩
  · rw [hc] at h
    exact absurd (List.cons.inj h).1 (by decide)
  · rw [hc, hcs] at h
    exact absurd (List.cons.inj h).1 (by decide)
  · rw [hc] at h
    exact hquote (List.cons.inj h).1

theorem escaped_append_inj {cs ds x y : List Char}
    (h : cs.flatMap (escapeChar false) ++ '"' :: x = ds.flatMap (escapeChar false) ++ '"' :: y) :
    cs = ds ∧ x = y := by
  induction cs generalizing ds with
  | nil =>
    cases ds with
    | nil => exact ⟨rfl, (List.cons.inj h).2⟩
    | cons d ds =>
      rw [List.flatMap_cons, List.append_assoc] at h
      exact absurd h.symm (escapeChar_ne_quote d _ _)
  | cons c cs ih =>
    cases ds with
    | nil =>
      rw [List.flatMap_cons, List.append_assoc] at h
      exact absurd h (escapeChar_ne_quote c _ _)
    | cons d ds =>
      rw [List.flatMap_cons, List.flatMap_cons, List.append_assoc, List.append_assoc] at h
      obtain ⟨rfl, hrest⟩ := escapeChar_append_inj h
      obtain ⟨rfl, hxy⟩ := ih hrest
      exact ⟨rfl, hxy⟩

/-- Where a JSON string ends can be seen, and so can what it stands for. -/
theorem string_append_inj {s t x y : String} (h : string false s ++ x = string false t ++ y) :
    s = t ∧ x = y := by
  have hlists := congrArg String.toList h
  simp only [string, String.toList_append, String.toList_ofList, List.cons_append, List.append_assoc,
    List.nil_append, List.cons.injEq, true_and] at hlists
  obtain ⟨hst, hxy⟩ := escaped_append_inj hlists
  exact ⟨String.toList_inj.mp hst, String.toList_inj.mp hxy⟩

end Json

/-! ## Names of metrics -/

namespace Metrics

/-- Two texts of names and labels are the same if they begin with different names only where the
label begins. -/
theorem append_brace_inj {cs ds x y : List Char} (hcs : '\x7b' ∉ cs) (hds : '\x7b' ∉ ds)
    (h : cs ++ '\x7b' :: x = ds ++ '\x7b' :: y) : cs = ds ∧ x = y := by
  induction cs generalizing ds with
  | nil =>
    cases ds with
    | nil => exact ⟨rfl, (List.cons.inj h).2⟩
    | cons d ds => exact absurd ((List.cons.inj h).1 ▸ List.mem_cons_self) hds
  | cons c cs ih =>
    cases ds with
    | nil => exact absurd ((List.cons.inj h).1 ▸ List.mem_cons_self) hcs
    | cons d ds =>
      obtain ⟨rfl, hrest⟩ := List.cons.inj h
      obtain ⟨rfl, hxy⟩ :=
        ih (List.not_mem_of_not_mem_cons hcs) (List.not_mem_of_not_mem_cons hds) hrest
      exact ⟨rfl, hxy⟩

theorem labelled_inj {space a b label label' resource resource' : String}
    (ha : '\x7b' ∉ a.toList) (hb : '\x7b' ∉ b.toList)
    (h : Registry.labelled (space ++ a) label resource =
      Registry.labelled (space ++ b) label' resource') :
    a = b ∧ label = label' ∧ resource = resource' := by
  simp only [Registry.labelled, String.append_assoc, String.append_right_inj] at h
  have hlists := congrArg String.toList h
  simp only [String.toList_append] at hlists
  obtain rfl := String.toList_inj.mp (append_brace_inj ha hb hlists).1
  simp only [String.append_right_inj] at h
  obtain ⟨rfl, h⟩ := Json.string_append_inj h
  simp only [String.append_right_inj] at h
  exact ⟨rfl, rfl, (Json.string_append_inj h).1⟩

theorem counter_inj {kind kind' : ResourceKind} {event event' : Event}
    (h : (Family.of kind).counters ++ event.name = (Family.of kind').counters ++ event'.name) :
    Family.of kind = Family.of kind' ∧ event = event' := by
  cases kind <;> cases kind' <;> cases event <;> cases event' <;>
    first | exact ⟨rfl, rfl⟩ | (revert h; decide)

theorem brace_not_mem_counter (kind : ResourceKind) (event : Event) :
    '\x7b' ∉ ((Family.of kind).counters ++ event.name).toList := by
  cases kind <;> cases event <;> decide

theorem brace_not_mem_timer (kind : ResourceKind) : '\x7b' ∉ (Family.of kind).timer.toList := by
  cases kind <;> decide

namespace Registry

variable (m : Registry) (space : String) (kind kind' : ResourceKind) (event event' : Event)
  (resource resource' : String)

def counted : Nat :=
  (Table.get? m.counters (labelled (space ++ (Family.of kind).counters ++ event.name)
    (Family.of kind).label resource)).getD 0

def timed : Nat :=
  ((Table.get? m.timers (labelled (space ++ (Family.of kind).timer) (Family.of kind).label
    resource)).getD (0, 0)).1

@[simp] theorem counted_count_self :
    (m.count space (.of kind) event resource).counted space kind event resource =
      m.counted space kind event resource + 1 := by
  simp only [counted, count, Table.get?_put_self, Option.getD_some]

theorem counted_count_of_ne (h : event ≠ event' ∨ resource ≠ resource') :
    (m.count space (.of kind') event' resource').counted space kind event resource =
      m.counted space kind event resource := by
  unfold counted count
  rw [Table.get?_put_of_ne]
  intro hkey
  rw [String.append_assoc, String.append_assoc] at hkey
  obtain ⟨hname, -, hresource⟩ := labelled_inj (brace_not_mem_counter kind event)
    (brace_not_mem_counter kind' event') hkey
  exact h.elim (· (counter_inj hname).2) (· hresource)

@[simp] theorem timed_observe_self (micros : Nat) :
    (m.observe space (.of kind) resource micros).timed space kind resource =
      m.timed space kind resource + 1 := by
  simp only [timed, observe, Table.get?_put_self, Option.getD_some]

theorem timed_observe_of_ne (h : resource ≠ resource') (micros : Nat) :
    (m.observe space (.of kind') resource' micros).timed space kind resource =
      m.timed space kind resource := by
  unfold timed observe
  dsimp only
  rw [Table.get?_put_of_ne]
  intro hkey
  exact h (labelled_inj (brace_not_mem_timer kind) (brace_not_mem_timer kind') hkey).2.2

@[simp] theorem timed_count (family : Family) (resource' : String) :
    (m.count space family event resource').timed space kind resource =
      m.timed space kind resource := rfl

end Registry

end Metrics

end StatesLanguage
