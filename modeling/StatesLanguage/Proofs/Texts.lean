import Mathlib.Data.Nat.Log
import StatesLanguage.Proofs.Pace
import StatesLanguage.RetryPolicy
import StatesLanguage.Value.Display

/-!
# Texts

What keeps a value from having a text is a fault of the data. A number that a floating one can show has
a text: it has far fewer digits than an integer may have.
-/

namespace StatesLanguage

namespace Value

theorem integerText_fault {n : Int} {e : Failure} (h : integerText n = .error e) :
    e.isFault = true := by
  unfold integerText at h
  split at h <;> cases h
  rfl

mutual

theorem inner_fault {room : Nat} {e : Failure} :
    ∀ {v : Value}, inner room v = .error e → e.isFault = true
  | v, h => by
    unfold inner at h
    split at h
    · cases h
      rfl
    · cases v with
      | int n => exact integerText_fault h
      | arr items =>
        rcases Outcome.bind_eq_error.mp h with hitems | ⟨texts, -, hdone⟩
        · exact innerItems_fault hitems
        · cases hdone
      | obj members =>
        rcases Outcome.bind_eq_error.mp h with hmembers | ⟨texts, -, hdone⟩
        · exact innerMembers_fault hmembers
        · cases hdone
      | _ => cases h

theorem innerItems_fault {room : Nat} {e : Failure} :
    ∀ {items : List Value}, innerItems room items = .error e → e.isFault = true
  | [], h => by cases h
  | item :: rest, h => by
    unfold innerItems at h
    rcases Outcome.bind_eq_error.mp h with hitem | ⟨text, -, hrest⟩
    · exact inner_fault hitem
    · rcases Outcome.bind_eq_error.mp hrest with hrest | ⟨texts, -, hdone⟩
      · exact innerItems_fault hrest
      · cases hdone

theorem innerMembers_fault {room : Nat} {e : Failure} :
    ∀ {members : List (String × Value)}, innerMembers room members = .error e → e.isFault = true
  | [], h => by cases h
  | (_, value) :: rest, h => by
    unfold innerMembers at h
    rcases Outcome.bind_eq_error.mp h with hvalue | ⟨text, -, hrest⟩
    · exact inner_fault hvalue
    · rcases Outcome.bind_eq_error.mp hrest with hrest | ⟨texts, -, hdone⟩
      · exact innerMembers_fault hrest
      · cases hdone

end

mutual

theorem inner_mono {room more : Nat} (h : room ≤ more) :
    ∀ {v : Value} {text : String}, inner room v = .ok text → inner more v = .ok text
  | v, text, htext => by
    unfold inner at htext ⊢
    split at htext
    · cases htext
    · rw [if_neg (by omega)]
      cases v with
      | arr items =>
        obtain ⟨texts, htexts, hdone⟩ := Outcome.bind_eq_ok.mp htext
        exact Outcome.bind_eq_ok.mpr ⟨texts, innerItems_mono (Nat.sub_le_sub_right h 1) htexts, hdone⟩
      | obj members =>
        obtain ⟨texts, htexts, hdone⟩ := Outcome.bind_eq_ok.mp htext
        exact Outcome.bind_eq_ok.mpr
          ⟨texts, innerMembers_mono (Nat.sub_le_sub_right h 1) htexts, hdone⟩
      | _ => exact htext

theorem innerItems_mono {room more : Nat} (h : room ≤ more) :
    ∀ {items : List Value} {texts : List String}, innerItems room items = .ok texts →
      innerItems more items = .ok texts
  | [], _, htexts => htexts
  | item :: rest, _, htexts => by
    unfold innerItems at htexts ⊢
    obtain ⟨text, htext, htexts⟩ := Outcome.bind_eq_ok.mp htexts
    obtain ⟨texts, hrest, hdone⟩ := Outcome.bind_eq_ok.mp htexts
    rw [inner_mono h htext, Outcome.ok_bind, innerItems_mono h hrest]
    exact hdone

theorem innerMembers_mono {room more : Nat} (h : room ≤ more) :
    ∀ {members : List (String × Value)} {texts : List String},
      innerMembers room members = .ok texts → innerMembers more members = .ok texts
  | [], _, htexts => htexts
  | (_, value) :: rest, _, htexts => by
    unfold innerMembers at htexts ⊢
    obtain ⟨text, htext, htexts⟩ := Outcome.bind_eq_ok.mp htexts
    obtain ⟨texts, hrest, hdone⟩ := Outcome.bind_eq_ok.mp htexts
    rw [inner_mono h htext, Outcome.ok_bind, innerMembers_mono h hrest]
    exact hdone

end

theorem display_fault [Room] {v : Value} {e : Failure} (h : v.display = .error e) :
    e.isFault = true := by
  cases v with
  | str s => cases h
  | _ => exact inner_fault h

theorem texts_ne_zero [Room] : Room.texts ≠ 0 := by
  have := Room.two_le_texts
  omega

theorem texts_sub_one_ne_zero [Room] : Room.texts - 1 ≠ 0 := by
  have := Room.two_le_texts
  omega

theorem innerMembers_isOk {room : Nat} {members : List (String × Value)} :
    (∃ texts, innerMembers room members = .ok texts) ↔
      ∀ m ∈ members, ∃ text, inner room m.2 = .ok text := by
  induction members with
  | nil => exact iff_of_true ⟨[], rfl⟩ nofun
  | cons member rest ih =>
    rw [List.forall_mem_cons, ← ih]
    constructor
    · rintro ⟨texts, h⟩
      obtain ⟨text, htext, h⟩ := Outcome.bind_eq_ok.mp h
      obtain ⟨others, hothers, -⟩ := Outcome.bind_eq_ok.mp h
      exact ⟨⟨text, htext⟩, others, hothers⟩
    · rintro ⟨⟨text, htext⟩, others, hothers⟩
      exact ⟨_, by rw [innerMembers, htext, Outcome.ok_bind, hothers]; rfl⟩

theorem display_obj_isOk [Room] {members : List (String × Value)} :
    (∃ text, (Value.obj members).display = .ok text) ↔
      ∀ m ∈ members, ∃ text, inner (Room.texts - 1) m.2 = .ok text := by
  have hdisplay : (Value.obj members).display = (do
      return "\x7b" ++ ", ".intercalate (← innerMembers (Room.texts - 1) members) ++ "\x7d") := by
    rw [display, inner, if_neg texts_ne_zero]
    nofun
  rw [hdisplay, ← innerMembers_isOk]
  constructor
  · rintro ⟨text, h⟩
    obtain ⟨texts, htexts, -⟩ := Outcome.bind_eq_ok.mp h
    exact ⟨texts, htexts⟩
  · rintro ⟨texts, htexts⟩
    exact ⟨_, by rw [htexts]; rfl⟩

theorem inner_str {room : Nat} (hroom : room ≠ 0) (s : String) :
    inner room (.str s) = .ok (Text.quoted s) := by
  rw [inner, if_neg hroom]

theorem inner_number {v : Value} {n : Number} (hn : v.number? = some n) {room more : Nat}
    (hroom : room ≠ 0) (hmore : more ≠ 0) : inner room v = inner more v := by
  cases v with
  | bool | int | float => simp only [inner, if_neg hroom, if_neg hmore]
  | _ => cases hn

theorem display_of_member [Room] {members : Members} {key text : String} {v : Value}
    (h : (Value.obj members).display = .ok text) (hv : (key, v) ∈ members) :
    ∃ shown, v.display = .ok shown := by
  obtain ⟨shown, hshown⟩ := display_obj_isOk.mp ⟨text, h⟩ _ hv
  cases v with
  | str s => exact ⟨s, rfl⟩
  | _ => exact ⟨shown, inner_mono (Nat.sub_le _ _) hshown⟩

end Value

namespace Failure

variable [Room]

theorem text_fault {e problem : Failure} (h : e.text = .error problem) : problem.isFault = true := by
  cases e with
  | states kind name message => exact Value.display_fault h
  | _ => cases h

omit [Room] in
theorem isStates_of_isFault {e : Failure} (h : e.isFault = true) : e.isStates = false := by
  cases e with
  | fault => rfl
  | _ => cases h

omit [Room] in
theorem telling_cases (text : Outcome String) (failure : String → Failure) :
    (∃ t, text = .ok t ∧ telling text failure = failure t) ∨
      ∃ e, text = .error e ∧ telling text failure = e := by
  cases text with
  | ok t => exact Or.inl ⟨t, rfl, rfl⟩
  | error e => exact Or.inr ⟨e, rfl, rfl⟩

omit [Room] in
/-- What holds of faults and of the error that is to be told holds of what comes of telling it. -/
theorem telling_of {P : Failure → Prop} {text : Outcome String} {failure : String → Failure}
    (hfault : ∀ e, e.isFault = true → P e) (htext : ∀ e, text = .error e → e.isFault = true)
    (hfailure : ∀ t, P (failure t)) : P (telling text failure) := by
  rcases telling_cases text failure with ⟨t, -, ht⟩ | ⟨e, he, ht⟩
  · exact ht ▸ hfailure t
  · exact ht ▸ hfault e (htext e he)

end Failure

namespace RetryPolicy

variable [Room] {e : Failure}

theorem errorOutput_eq {text : String} (h : e.text = .ok text) :
    errorOutput e = .ok (.obj [("Error", e.name), ("Cause", .str text)]) := by
  rw [errorOutput, h]
  rfl

theorem errorOutput_eq_error {problem : Failure} :
    errorOutput e = .error problem ↔ e.text = .error problem := by
  unfold errorOutput
  cases e.text with
  | ok text => exact iff_of_false nofun nofun
  | error f =>
    change (.error f : Outcome Value) = .error problem ↔ _
    simp only [Except.error.injEq]

end RetryPolicy

/-! ## Numbers -/

namespace Binary

theorem isFinite_infinity (neg : Bool) : isFinite (infinity neg) = false := by
  cases neg <;> decide +kernel

theorem roundDiv_bounds (num den : Nat) :
    num / den ≤ roundDiv num den ∧ roundDiv num den ≤ num / den + 1 := by
  unfold roundDiv
  dsimp only
  split_ifs <;> omega

theorem assemble_eq_infinity {mant : Nat} {exp : Int} (neg : Bool) (hmant : Nat.pow 2 52 ≤ mant)
    (hexp : 972 ≤ exp) : assemble neg mant exp = infinity neg := by
  have hall : Nat.pow 2 53 = 9007199254740992 := rfl
  have htop : Nat.pow 2 52 = 4503599627370496 := rfl
  unfold assemble
  dsimp only
  split
  · rw [if_neg (lt_irrefl _), if_pos (by omega)]
  · rw [if_neg (by omega), if_pos (by omega)]

/-- What is much larger than the largest floating number is rounded to infinity. -/
theorem ofRatio_eq_infinity {num den : Nat} (neg : Bool) (hden : den ≠ 0)
    (hlogs : den.log2 + 1100 ≤ num.log2) : ofRatio neg num den = infinity neg := by
  have hnum : num ≠ 0 := by
    rintro rfl
    simp at hlogs
  obtain ⟨e, he⟩ := Nat.exists_eq_add_of_le hlogs
  have hguess : max ((num.log2 : Int) - den.log2 - 53) (-1074) = (e + 1047 : Nat) := by omega
  have hscaled (k : Nat) : (if (k : Int) < 0 then roundDiv (num * Nat.pow 2 (k : Int).natAbs) den
      else roundDiv num (den * Nat.pow 2 (k : Int).natAbs)) = roundDiv num (den * 2 ^ k) :=
    if_neg (by omega)
  have hlow : 2 ^ 52 ≤ num / (den * 2 ^ (e + 1047)) := by
    rw [Nat.le_div_iff_mul_le (Nat.mul_pos (Nat.pos_of_ne_zero hden) (Nat.two_pow_pos _))]
    calc 2 ^ 52 * (den * 2 ^ (e + 1047)) ≤ 2 ^ 52 * (2 ^ (den.log2 + 1) * 2 ^ (e + 1047)) :=
          Nat.mul_le_mul_left _ (Nat.mul_le_mul_right _ Nat.lt_log2_self.le)
      _ = 2 ^ num.log2 := by
          rw [← Nat.pow_add, ← Nat.pow_add, he]
          congr 1
          omega
      _ ≤ num := Nat.log2_self_le hnum
  have hnext : ((e + 1047 : Nat) : Int) + 1 = (e + 1048 : Nat) := by omega
  unfold ofRatio
  rw [if_neg (by simp [hnum, hden])]
  simp only [hguess, hnext, hscaled]
  split
  · exact assemble_eq_infinity neg (hlow.trans (roundDiv_bounds _ _).1) (by omega)
  · rename_i hfull
    have hall : Nat.pow 2 53 = 2 ^ 52 * 2 := rfl
    have htop : Nat.pow 2 52 = 2 ^ 52 := rfl
    have hround := (roundDiv_bounds num (den * 2 ^ (e + 1047))).2
    -- One more bit is dropped only where the mantissa has one too many.
    have hhigh : num / (den * 2 ^ (e + 1048)) = num / (den * 2 ^ (e + 1047)) / 2 := by
      rw [Nat.div_div_eq_div_mul, Nat.mul_assoc, ← Nat.pow_succ]
    exact assemble_eq_infinity neg (le_trans (by omega) (roundDiv_bounds _ _).1) (by omega)

theorem log2_lt_of_isFinite {num den : Nat} {neg : Bool} (hden : den ≠ 0)
    (h : isFinite (ofRatio neg num den) = true) : num.log2 < den.log2 + 1100 := by
  by_contra hlarge
  rw [ofRatio_eq_infinity neg hden (not_lt.mp hlarge), isFinite_infinity] at h
  cases h

end Binary

namespace Value

theorem integerText_of_log2_lt {n : Int} (h : n.natAbs.log2 < 2000) :
    integerText n = .ok (toString n) := by
  have hdigits : Decimal.maxDigits = 4300 := rfl
  have hshort : Decimal.isTooLong n = false := by
    rw [Decimal.isTooLong, decide_eq_false (by omega), Bool.false_and]
  rw [integerText, hshort]
  rfl

theorem display_of_toFloat [Room] {v : Value} {n : Number} {x : Float} (hn : v.number? = some n)
    (hx : n.toFloat = .ok x) : ∃ text, v.display = .ok text := by
  cases v with
  | bool b => exact ⟨boolText b, by simp only [display, inner, if_neg texts_ne_zero]⟩
  | float y => exact ⟨Decimal.display.render y, by simp only [display, inner, if_neg texts_ne_zero]⟩
  | int m =>
    cases hn
    have hfinite : Binary.isFinite (Binary.ofInt m) = true := by
      simp only [Number.toFloat] at hx
      split at hx
      · assumption
      · cases hx
    have hsize := Binary.log2_lt_of_isFinite Nat.one_ne_zero hfinite
    have hone : Nat.log2 1 = 0 := by decide
    refine ⟨toString m, ?_⟩
    simp only [display, inner, if_neg texts_ne_zero]
    exact integerText_of_log2_lt (by omega)
  | _ => cases hn

theorem display_floorDiv_thousand [Room] {v seconds quotient : Value}
    (hseconds : v.floorDiv (.int 1000) = .ok seconds) (hdiv : v.div (.int 1000) = .ok quotient) :
    ∃ text, seconds.display = .ok text := by
  have hthousand : (Value.int 1000).number? = some (.int 1000) := rfl
  unfold floorDiv arith at hseconds
  unfold div arith at hdiv
  rw [hthousand] at hseconds hdiv
  cases hn : v.number? with
  | none =>
    rw [hn] at hdiv
    cases hdiv
  | some n =>
    rw [hn] at hseconds hdiv
    dsimp only at hseconds hdiv
    cases hwhole : n.floorDiv (.int 1000) with
    | error e =>
      rw [hwhole] at hseconds
      cases hseconds
    | ok whole =>
    rw [hwhole] at hseconds
    cases hseconds
    cases n with
    | float y =>
      obtain ⟨z, rfl⟩ : ∃ z, whole = .float z := by
        simp only [Number.floorDiv, Number.lift, Outcome.bind_eq_ok] at hwhole
        obtain ⟨a, -, b, -, z, -, heq⟩ := hwhole
        exact ⟨z, (Except.ok.inj heq).symm⟩
      exact ⟨Decimal.display.render z, by
        simp only [Number.toValue, display, inner, if_neg texts_ne_zero]⟩
    | int m =>
      obtain rfl : whole = .int (Int.fdiv m 1000) := (Except.ok.inj hwhole).symm
      have hfinite : Binary.isFinite
          (Binary.ofRatio (decide (m < 0) != decide ((1000 : Int) < 0)) m.natAbs 1000) = true := by
        simp only [Number.div, Number.lift, Number.intQuotient] at hdiv
        rw [if_neg (by decide)] at hdiv
        split at hdiv
        · assumption
        · cases hdiv
      have hsize := Binary.log2_lt_of_isFinite (by decide) hfinite
      have hthousand : Nat.log2 1000 = 9 := by decide
      have hsmaller : (Int.fdiv m 1000).natAbs ≤ m.natAbs := by
        rw [Int.fdiv_eq_ediv_of_nonneg m (by decide)]
        omega
      have hlog : (Int.fdiv m 1000).natAbs.log2 ≤ m.natAbs.log2 := by
        rw [Nat.log2_eq_log_two, Nat.log2_eq_log_two]
        exact Nat.log_mono_right hsmaller
      refine ⟨toString (Int.fdiv m 1000), ?_⟩
      simp only [Number.toValue, display, inner, if_neg texts_ne_zero]
      exact integerText_of_log2_lt (by omega)

end Value

theorem Polling.exceeded_of_measurable [Room] {timeout : Value} (h : isMeasurable timeout = true) :
    ∃ text, exceeded timeout = .ofKind .timeout text := by
  unfold isMeasurable at h
  cases hn : timeout.number? with
  | none => simp [hn] at h
  | some n =>
    rcases n.toFloat_cases with ⟨x, hx⟩ | ⟨e, he, -⟩
    · obtain ⟨text, htext⟩ := Value.display_of_toFloat hn hx
      exact ⟨_, by rw [exceeded, htext]; rfl⟩
    · simp [hn, he, Except.isOk, Except.toBool] at h

end StatesLanguage
