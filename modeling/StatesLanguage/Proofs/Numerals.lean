import Mathlib.Data.List.Basic
import Mathlib.Data.List.TakeWhile
import StatesLanguage.Decimal.Numeral

/-!
# Numerals

A run of digits, with or without a minus sign before it, is read as the integer that it writes, if it
has no more digits than a numeral may have. Digits of other scripts are read as ASCII's.
-/

namespace StatesLanguage

theorem Text.ascii_forall {c : Char} (P : Char → Prop) (h : ∀ n < 128, P (Char.ofNat n))
    (hc : c.toNat < 128) : P c := by
  have hchar := h c.toNat hc
  rwa [Char.ofNat_toNat] at hchar

namespace Decimal

open Text

section

variable {c : Char} {cs digits : List Char} {neg : Bool}

theorem toNat_of_isAsciiDigit (h : isAsciiDigit c = true) : 48 ≤ c.toNat ∧ c.toNat ≤ 57 := by
  simp only [isAsciiDigit, asciiDigit?, Bool.and_eq_true, decide_eq_true_eq, Char.le_def,
    UInt32.le_iff_toNat_le] at h
  split at h
  · rename_i hbounds
    exact hbounds
  · cases h

theorem asciiDigit_facts (h : isAsciiDigit c = true) :
    isMargin c = false ∧ plainDigit c = c ∧ c ≠ '_' ∧ c ≠ '-' ∧ c ≠ '+' ∧
      asciiDigit? c = some (c.toNat - 48) := by
  refine ascii_forall (fun c => isAsciiDigit c = true → isMargin c = false ∧ plainDigit c = c ∧
    c ≠ '_' ∧ c ≠ '-' ∧ c ≠ '+' ∧ asciiDigit? c = some (c.toNat - 48)) ?_ ?_ h
  · decide +kernel
  · have := (toNat_of_isAsciiDigit h).2
    omega

theorem decimalDigit?_of_isAsciiDigit (h : isAsciiDigit c = true) :
    decimalDigit? c = asciiDigit? c := by
  refine ascii_forall (fun c => isAsciiDigit c = true → decimalDigit? c = asciiDigit? c) ?_ ?_ h
  · decide +kernel
  · have := (toNat_of_isAsciiDigit h).2
    omega

/-! ## Margins -/

theorem stripMargin_eq (h : ∀ c ∈ cs, isMargin c = false) : stripMargin cs = cs := by
  have hdrop {l : List Char} (hl : ∀ c ∈ l, isMargin c = false) : l.dropWhile isMargin = l := by
    cases l with
    | nil => rfl
    | cons c l =>
      rw [List.dropWhile_cons, hl c List.mem_cons_self]
      rfl
  have hreverse : ∀ c ∈ cs.reverse, isMargin c = false := fun c hc => h c (List.mem_reverse.mp hc)
  rw [stripMargin, hdrop h, hdrop hreverse, List.reverse_reverse]

theorem map_stripMargin (h : ∀ c ∈ cs, isMargin c = false ∧ plainDigit c = c) :
    (stripMargin cs).map plainDigit = cs := by
  rw [stripMargin_eq fun c hc => (h c hc).1]
  exact (List.map_congr_left fun c hc => (h c hc).2).trans (List.map_id cs)

/-! ## Runs of digits -/

theorem dropGroups?_eq {prev : Char} (hprev : prev ≠ '_') (h : ∀ c ∈ cs, isAsciiDigit c = true) :
    dropGroups? prev cs = some cs := by
  induction cs generalizing prev with
  | nil => rw [dropGroups?, if_neg hprev]
  | cons c cs ih =>
    obtain ⟨hc, hcs⟩ := List.forall_mem_cons.mp h
    have hne := (asciiDigit_facts hc).2.2.1
    rw [dropGroups?, if_neg hne, ih hne hcs]
    simp [hprev]

theorem parseInt_of_sign (hkept : ∀ c ∈ cs, isMargin c = false ∧ plainDigit c = c)
    (hsign : sign cs = (neg, digits)) (hne : digits ≠ [])
    (hdigits : ∀ c ∈ digits, isAsciiDigit c = true) :
    parseInt cs =
      if digits.length ≤ maxDigits then
        .ok (if neg then -(ofDigits (digitsOf digits) : Int) else ofDigits (digitsOf digits))
      else .error (.tooLong digits.length) := by
  have hrun : digits.takeWhile (fun c => isAsciiDigit c || c == '_') = digits :=
    List.takeWhile_eq_self_iff.mpr fun c hc => by simp [hdigits c hc]
  have hnil : digits.isEmpty = false := List.isEmpty_eq_false_iff.mpr hne
  simp only [parseInt, map_stripMargin hkept, hsign, hrun,
    dropGroups?_eq (show ' ' ≠ '_' by decide) hdigits]
  by_cases hlength : digits.length ≤ maxDigits
  · rw [if_neg (Nat.not_lt.mpr hlength), if_pos hlength, hnil]
    simp
  · rw [if_pos (Nat.not_le.mp hlength), if_neg hlength]

theorem sign_digits (h : ∀ c ∈ cs, isAsciiDigit c = true) : sign cs = (false, cs) := by
  unfold sign
  split
  · exact absurd rfl (asciiDigit_facts (h '-' List.mem_cons_self)).2.2.2.1
  · exact absurd rfl (asciiDigit_facts (h '+' List.mem_cons_self)).2.2.2.2.1
  · rfl

theorem parseInt_digits (hne : cs ≠ []) (h : ∀ c ∈ cs, isAsciiDigit c = true) :
    parseInt cs =
      if cs.length ≤ maxDigits then .ok (ofDigits (digitsOf cs) : Int)
      else .error (.tooLong cs.length) :=
  parseInt_of_sign (fun c hc => ⟨(asciiDigit_facts (h c hc)).1, (asciiDigit_facts (h c hc)).2.1⟩)
    (sign_digits h) hne h

/-! ## Digits of any script -/

/-- Digits follow each other behind the zero of their script, and no white space is among them. -/
theorem decimalZeros_facts : ∀ base ∈ decimalZeros,
    33 ≤ base ∧ ∀ range ∈ blankRanges, base + 9 < range.1 ∨ range.2 < base := by
  decide +kernel

theorem exists_decimalZero (h : (decimalDigit? c).isSome = true) :
    ∃ base ∈ decimalZeros, (base ≤ c.toNat ∧ c.toNat ≤ base + 9) ∧
      decimalDigit? c = some (c.toNat - base) := by
  obtain ⟨d, hd⟩ := Option.isSome_iff_exists.mp h
  obtain ⟨base, hbase, rfl⟩ := Option.map_eq_some_iff.mp hd
  exact ⟨base, List.mem_of_find?_eq_some hbase, by simpa using List.find?_some hbase, hd⟩

theorem isMargin_of_digit (h : (decimalDigit? c).isSome = true) : isMargin c = false := by
  obtain ⟨base, hbase, hrange, -⟩ := exists_decimalZero h
  obtain ⟨hlow, hblank⟩ := decimalZeros_facts base hbase
  have hnot : isBlank c = false := by
    rw [isBlank, inRanges, List.any_eq_false]
    intro range hmem
    have := hblank range hmem
    simp only [Bool.and_eq_true, decide_eq_true_eq]
    omega
  have hspace : c ≠ ' ' := by
    rintro rfl
    have : (' ' : Char).toNat = 32 := rfl
    omega
  unfold isMargin
  split
  · simp only [hspace, beq_false_of_ne, Bool.false_or, ne_eq, not_false_eq_true,
      Bool.and_eq_false_imp, decide_eq_true_eq, decide_eq_false_iff_not]
    omega
  · exact hnot

theorem asciiDigit?_plainDigit (h : (decimalDigit? c).isSome = true) :
    asciiDigit? (plainDigit c) = decimalDigit? c := by
  obtain ⟨base, -, hrange, hdigit⟩ := exists_decimalZero h
  have hall : ∀ d ≤ 9, asciiDigit? (Char.ofNat (48 + d)) = some d := by decide
  rw [plainDigit, hdigit]
  exact hall _ (by omega)

theorem parseInt_numeral (hne : cs ≠ []) (h : ∀ c ∈ cs, (decimalDigit? c).isSome = true) :
    parseInt cs =
      if cs.length ≤ maxDigits then .ok (ofDigits (cs.filterMap decimalDigit?) : Int)
      else .error (.tooLong cs.length) := by
  have hdigits : ∀ c ∈ cs.map plainDigit, isAsciiDigit c = true := by
    intro c hc
    obtain ⟨d, hd, rfl⟩ := List.mem_map.mp hc
    rw [isAsciiDigit, asciiDigit?_plainDigit (h d hd)]
    exact h d hd
  have hplain : (stripMargin (cs.map plainDigit)).map plainDigit = cs.map plainDigit :=
    map_stripMargin fun c hc =>
      ⟨(asciiDigit_facts (hdigits c hc)).1, (asciiDigit_facts (hdigits c hc)).2.1⟩
  have hstrip : stripMargin cs = cs := stripMargin_eq fun c hc => isMargin_of_digit (h c hc)
  have hvalue : digitsOf (cs.map plainDigit) = cs.filterMap decimalDigit? := by
    rw [digitsOf, List.filterMap_map]
    exact List.filterMap_congr fun c hc => asciiDigit?_plainDigit (h c hc)
  -- Both texts become the same once nothing is around them and their digits are ASCII's.
  have hsame : parseInt cs = parseInt (cs.map plainDigit) := by
    rw [parseInt, parseInt, hplain, hstrip]
  rw [hsame, parseInt_digits (by simpa using hne) hdigits, hvalue, List.length_map]

/-! ## Integers as they are written -/

theorem isAsciiDigit_of_mem_toDigits {n : Nat} (h : c ∈ Nat.toDigits 10 n) :
    isAsciiDigit c = true := by
  have hdigit := Nat.isDigit_of_mem_toDigits (by decide) (by decide) h
  simp only [Char.isDigit, Bool.and_eq_true, decide_eq_true_eq] at hdigit
  rw [isAsciiDigit, asciiDigit?, if_pos]
  · rfl
  · simpa [Char.le_def] using hdigit

theorem ofDigits_digitsOf (h : ∀ c ∈ cs, isAsciiDigit c = true) :
    ofDigits (digitsOf cs) = Nat.ofDigitChars 10 cs 0 := by
  have hfold (n : Nat) : (digitsOf cs).foldl (fun n d => 10 * n + d) n = Nat.ofDigitChars 10 cs n := by
    induction cs generalizing n with
    | nil => rfl
    | cons c cs ih =>
      obtain ⟨hc, hcs⟩ := List.forall_mem_cons.mp h
      rw [digitsOf, List.filterMap_cons, (asciiDigit_facts hc).2.2.2.2.2]
      exact ih hcs _
  exact hfold 0

theorem toList_toString (n : Int) :
    (toString n).toList = (if n < 0 then ['-'] else []) ++ Nat.toDigits 10 n.natAbs := by
  rw [Int.toString_eq_repr]
  cases n with
  | ofNat n =>
    rw [if_neg (by simp), List.nil_append]
    exact (congrArg String.toList Nat.repr_eq_ofList_toDigits).trans String.toList_ofList
  | negSucc n =>
    rw [if_pos (Int.negSucc_lt_zero n), Int.natAbs_negSucc]
    change ("-" ++ n.succ.repr).toList = _
    simp only [Nat.repr_eq_ofList_toDigits, String.toList_append, String.toList_ofList]
    rfl

theorem mem_toString {n : Int} (h : c ∈ (toString n).toList) : c = '-' ∨ isAsciiDigit c = true := by
  rw [toList_toString, List.mem_append] at h
  rcases h with h | h
  · split at h
    · exact .inl (List.mem_singleton.mp h)
    · cases h
  · exact .inr (isAsciiDigit_of_mem_toDigits h)

theorem toString_ne_nil (n : Int) : (toString n).toList ≠ [] := by
  rw [toList_toString]
  exact List.append_ne_nil_of_right_ne_nil _ Nat.toDigits_ne_nil

theorem lt_pow_of_length_toDigits {k m : Nat} (hk : 0 < k) (h : (Nat.toDigits 10 m).length ≤ k) :
    m < Nat.pow 10 k :=
  (Nat.length_toDigits_le_iff (by decide) hk).mp h

theorem isTooLong_eq_false {n : Int} (h : (Nat.toDigits 10 n.natAbs).length ≤ maxDigits) :
    isTooLong n = false := by
  have hlt := lt_pow_of_length_toDigits (by decide) h
  rw [isTooLong, Bool.and_eq_false_iff]
  exact .inr (decide_eq_false (Nat.not_le.mpr hlt))

theorem readInt?_toString {n : Int} (h : (Nat.toDigits 10 n.natAbs).length ≤ maxDigits) :
    readInt? (toString n).toList = some n := by
  have hdigits : ∀ c ∈ Nat.toDigits 10 n.natAbs, isAsciiDigit c = true :=
    fun c hc => isAsciiDigit_of_mem_toDigits hc
  have hvalue : ofDigits (digitsOf (Nat.toDigits 10 n.natAbs)) = n.natAbs :=
    (ofDigits_digitsOf hdigits).trans Nat.ofDigitChars_ten_toDigits
  have hparse : parseInt (toString n).toList = .ok n := by
    rw [toList_toString]
    by_cases hneg : n < 0
    · have hsign : sign ('-' :: Nat.toDigits 10 n.natAbs) = (true, Nat.toDigits 10 n.natAbs) := rfl
      have hkept : ∀ c ∈ '-' :: Nat.toDigits 10 n.natAbs, isMargin c = false ∧ plainDigit c = c := by
        rintro c hc
        rcases List.mem_cons.mp hc with rfl | hc
        · decide
        · exact ⟨(asciiDigit_facts (hdigits c hc)).1, (asciiDigit_facts (hdigits c hc)).2.1⟩
      rw [if_pos hneg, List.singleton_append,
        parseInt_of_sign hkept hsign Nat.toDigits_ne_nil hdigits, if_pos h, hvalue, if_pos rfl]
      congr 1
      omega
    · rw [if_neg hneg, List.nil_append, parseInt_digits Nat.toDigits_ne_nil hdigits, if_pos h,
        hvalue]
      congr 1
      omega
  rw [readInt?, hparse]
  rfl

end

end Decimal

end StatesLanguage
