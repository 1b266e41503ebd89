import StatesLanguage.Proofs.Concurrency
import StatesLanguage.Proofs.Pace
import StatesLanguage.Proofs.Policy

/-!
# Delays that floating numbers cannot show

The delay before another attempt stays a whole number if the backoff rate is one. A floating rate, as
it is by default, makes the delay floating, and what is too large for that is an error of its own: it
takes the place of the error that the delay is for.
-/

namespace StatesLanguage

open Float.Model UnpackedFloat

namespace Binary

theorem positive_fields {x : Float} {num : Int} {den : Nat} (hx : ratio? x = some (num, den))
    (hpos : 0 < num) :
    x.toBits.toNat / Nat.pow 2 52 % 2048 ≠ 2047 ∧ x.toBits.toNat / Nat.pow 2 63 % 2 = 0 ∧
      ¬(x.toBits.toNat / Nat.pow 2 52 % 2048 = 0 ∧ x.toBits.toNat % Nat.pow 2 52 = 0) := by
  have hbit : x.toBits.toNat / Nat.pow 2 63 < 2 := Nat.div_lt_of_lt_mul x.toBits.toNat_lt
  have hplus {bit : Nat} (hlt : bit < 2) (hne : ¬bit = 1) : bit % 2 = 0 := by omega
  unfold ratio? at hx
  split at hx
  · rename_i neg mant exp hfields
    have hsigned : 0 < (if neg then -(mant : Int) else mant) := by
      simp only [ratio] at hx
      split at hx <;> cases hx
      · exact hpos
      · exact Int.pos_of_mul_pos_left hpos (by exact_mod_cast Nat.pow_pos Nat.two_pos)
    have hneg : neg = false := by
      cases neg
      · rfl
      · simp only [if_true] at hsigned
        omega
    subst hneg
    simp only [Bool.false_eq_true, if_false, Int.natCast_pos] at hsigned
    unfold ofFloat at hfields
    dsimp only at hfields
    split at hfields
    · split at hfields <;> cases hfields
    · rename_i hfinite
      split at hfields
      · rename_i hzero
        obtain ⟨hsign, rfl, -⟩ := Binary.finite.inj hfields
        exact ⟨hfinite, hplus hbit (by simpa using hsign), fun h => Nat.ne_of_gt hsigned h.2⟩
      · rename_i hzero
        obtain ⟨hsign, -, -⟩ := Binary.finite.inj hfields
        exact ⟨hfinite, hplus hbit (by simpa using hsign), fun h => hzero h.1⟩
  · cases hx

theorem compare_zero_of_positive {x : Float} {num : Int} {den : Nat} (hx : ratio? x = some (num, den))
    (hpos : 0 < num) : x.toModel.unpack.compare (.zero .positive) = some .gt := by
  obtain ⟨hfinite, hsign, hzero⟩ := positive_fields hx hpos
  rw [compare_zero hfinite, if_neg hzero, if_pos hsign]

theorem exists_ratio {x : Float} (h : isFinite x = true) :
    ∃ num den, ratio? x = some (num, den) ∧ 0 < den := by
  unfold isFinite at h
  split at h
  · rename_i neg mant exp hx
    have hden : 0 < (ratio neg mant exp).2 := by
      unfold ratio
      dsimp only
      split
      · exact Nat.pow_pos Nat.two_pos
      · exact Nat.one_pos
    exact ⟨_, _, by rw [ratio?, hx], hden⟩
  · cases h

end Binary

namespace Value

abbrev Fits (n : Int) : Prop := Binary.isFinite (Binary.ofInt n) = true

theorem Number.toFloat_int (n : Int) :
    Number.toFloat (.int n) = if Fits n then .ok (Binary.ofInt n) else .error tooLarge := rfl

structure Number.Grows (x : Float) : Prop where
  isFinite : Binary.isFinite x = true
  notLess : Number.less (.float x) (.float 1.0) = false

theorem Number.grows_one : Grows 1.0 where
  isFinite := by decide +kernel
  notLess := by decide +kernel

theorem Number.Grows.positive {x : Float} (h : Grows x) : ¬x < 0 ∧ (x == 0.0) = false := by
  obtain ⟨num, den, hx, hden⟩ := Binary.exists_ratio h.isFinite
  have hle : ¬num * 4503599627370496 < 4503599627370496 * den := by
    have hless := h.notLess
    simp only [less, order?, ratio?, hx, ratio_one, compare_beq_lt] at hless
    exact of_decide_eq_false hless
  have hgt := Binary.compare_zero_of_positive hx (by omega)
  refine ⟨fun hlt => ?_, Bool.eq_false_iff.mpr fun heq => ?_⟩
  · rw [Binary.lt_zero_iff, hgt] at hlt
    cases hlt
  · rw [Binary.beq_zero_iff, hgt] at heq
    cases heq

theorem Number.Grows.floatPower_eq {x y : Float} (hx : Grows x) (hy : Binary.isFinite y = true) :
    floatPower x y = if Binary.isFinite (Float.pow x y) = true then .ok (Float.pow x y)
      else .error (.fault .overflow "(34, 'Numerical result out of range')") := by
  obtain ⟨hlt, hne⟩ := hx.positive
  have hlt : decide (x < 0.0) = false := decide_eq_false hlt
  simp only [floatPower, hx.isFinite, hy, hne, hlt, Bool.and_self, Bool.and_false, Bool.true_and,
    Bool.false_and, Bool.false_eq_true, if_false]
  cases Binary.isFinite (Float.pow x y) <;> rfl

theorem Number.pow_float_int (x : Float) (n : Int) :
    Number.pow (.float x) (.int n) = (do
      return .float (← Number.floatPower (← Number.toFloat (.float x)) (← Number.toFloat (.int n)))) :=
  rfl

theorem float_pow_int {x : Float} (hx : Number.Grows x) {n : Int} (hn : Fits n) :
    (Value.float x).pow (.int n) =
      if Binary.isFinite (Float.pow x (Binary.ofInt n)) = true then
        .ok (.float (Float.pow x (Binary.ofInt n)))
      else .error (.fault .overflow "(34, 'Numerical result out of range')") := by
  simp only [pow, arith, number?, Number.pow_float_int, Number.toFloat_int, if_pos hn]
  change Except.map Number.toValue (Number.floatPower x (Binary.ofInt n) >>= _) = _
  rw [hx.floatPower_eq hn]
  split <;> rfl

theorem float_pow_int_of_not_fits (x : Float) {n : Int} (hn : ¬Fits n) :
    (Value.float x).pow (.int n) = .error Number.tooLarge := by
  simp only [pow, arith, number?, Number.pow_float_int, Number.toFloat_int, if_neg hn]
  rfl

theorem int_mul_float (n : Int) (x : Float) :
    (Value.int n).mul (.float x) =
      if Fits n then .ok (.float (Binary.ofInt n * x)) else .error Number.tooLarge := by
  have hmul : (Value.int n).mul (.float x) =
      (Number.mul (.int n) (.float x)).map Number.toValue := rfl
  simp only [hmul, Number.mul, Number.lift, Number.toFloat_int]
  split <;> rfl

end Value

namespace RetryPolicy

variable {retrier raw : Value} {retriers catchers : List Value} {e : Failure} {attempts : Nat}

/-- A retrier whose backoff rate, if it gives one, is an integer or a finite floating number. -/
structure IsMeasured (v : Value) : Prop extends IsRetrier v where
  backoff : v.get? "BackoffRate" = none ∨ (∃ n : Int, v.get? "BackoffRate" = some (.int n)) ∨
    ∃ x, v.get? "BackoffRate" = some (.float x) ∧ Binary.isFinite x = true

/-- What the delay grows by: the backoff rate, or one if that is less. -/
def growthOf (retrier : Value) : Value :=
  match (backoffOf retrier).before (.float 1.0) with
  | .ok true => .float 1.0
  | _ => backoffOf retrier

def ShowsDelay (retrier : Value) (attempts : Nat) : Prop :=
  ∀ x, growthOf retrier = .float x → Value.Fits attempts ∧
    Binary.isFinite (Float.pow x (Binary.ofInt attempts)) = true ∧ Value.Fits (intervalOf retrier)

theorem growthOf_of_before {less : Bool} (h : (backoffOf retrier).before (.float 1.0) = .ok less) :
    growthOf retrier = if less then .float 1.0 else backoffOf retrier := by
  unfold growthOf
  rw [h]
  cases less <;> rfl

theorem growth_of_float {x : Float} (hx : Binary.isFinite x = true)
    (hrate : backoffOf retrier = .float x) :
    (∃ less, (backoffOf retrier).before (.float 1.0) = .ok less) ∧
      ∃ y, Value.Number.Grows y ∧ growthOf retrier = .float y := by
  have hbefore : (backoffOf retrier).before (.float 1.0) =
      .ok (Value.Number.less (.float x) (.float 1.0)) := by
    rw [hrate, Value.float_before]
    rfl
  refine ⟨⟨_, hbefore⟩, ?_⟩
  rw [growthOf_of_before hbefore]
  cases hless : Value.Number.less (.float x) (.float 1.0) with
  | true => exact ⟨1.0, Value.Number.grows_one, rfl⟩
  | false => exact ⟨x, ⟨hx, hless⟩, by simpa using hrate⟩

theorem growth_of_int {n : Int} (hrate : backoffOf retrier = .int n) :
    (∃ less, (backoffOf retrier).before (.float 1.0) = .ok less) ∧
      (growthOf retrier = .int n ∨ growthOf retrier = .float 1.0) := by
  have hbefore : (backoffOf retrier).before (.float 1.0) = .ok (Decidable.decide (n < 1)) := by
    rw [hrate, Value.int_before_one]
  refine ⟨⟨_, hbefore⟩, ?_⟩
  rw [growthOf_of_before hbefore]
  split
  · exact .inr rfl
  · exact .inl hrate

theorem IsMeasured.growth_cases (h : IsMeasured retrier) :
    (∃ less, (backoffOf retrier).before (.float 1.0) = .ok less) ∧
      ((∃ n, growthOf retrier = .int n) ∨ ∃ x, Value.Number.Grows x ∧ growthOf retrier = .float x) := by
  rcases h.backoff with hnone | ⟨n, hn⟩ | ⟨x, hx, hfinite⟩
  · exact (growth_of_float (x := 2.0) (by decide +kernel) (by simp [backoffOf, hnone])).imp_right .inr
  · have hrate : backoffOf retrier = .int n := by simp [backoffOf, hn]
    obtain ⟨hless, hint | hone⟩ := growth_of_int hrate
    · exact ⟨hless, .inl ⟨n, hint⟩⟩
    · exact ⟨hless, .inr ⟨1.0, Value.Number.grows_one, hone⟩⟩
  · exact (growth_of_float hfinite (by simp [backoffOf, hx])).imp_right .inr

theorem IsMeasured.delay_eq_growth (h : IsMeasured retrier) (attempts : Nat) :
    delay? retrier (.int attempts) =
      if (attempts : Int) ≤ mostOf retrier then do
        return some (← (Value.int (intervalOf retrier)).mul (← (growthOf retrier).pow (.int attempts)))
      else .ok none := by
  obtain ⟨⟨less, hless⟩, -⟩ := h.growth_cases
  rw [h.delay_eq, hless, Outcome.ok_bind, growthOf_of_before hless]
  split <;> rfl

/-- A delay can be calculated if a floating number can show it, and else is too large. -/
theorem IsMeasured.delay_cases (h : IsMeasured retrier) (hle : (attempts : Int) ≤ mostOf retrier) :
    (ShowsDelay retrier attempts ∧ ∃ delay, delay? retrier (.int attempts) = .ok (some delay)) ∨
      ¬ShowsDelay retrier attempts ∧
        ∃ text, delay? retrier (.int attempts) = .error (.fault .overflow text) := by
  rw [h.delay_eq_growth, if_pos hle]
  obtain ⟨-, ⟨n, hn⟩ | ⟨x, hgrows, hx⟩⟩ := h.growth_cases
  · refine .inl ⟨fun x hx => ?_, ?_⟩
    · rw [hn] at hx
      cases hx
    · rw [hn, Value.int_pow_int, Outcome.ok_bind, Value.int_mul_int]
      exact ⟨_, rfl⟩
  · have hshows : ShowsDelay retrier attempts ↔ Value.Fits attempts ∧
        Binary.isFinite (Float.pow x (Binary.ofInt attempts)) = true ∧
        Value.Fits (intervalOf retrier) := by
      unfold ShowsDelay
      rw [hx]
      exact ⟨fun h => h x rfl, fun h y hy => Value.float.inj hy ▸ h⟩
    rw [hshows, hx]
    by_cases hattempts : Value.Fits attempts
    · rw [Value.float_pow_int hgrows hattempts]
      by_cases hpower : Binary.isFinite (Float.pow x (Binary.ofInt attempts)) = true
      · rw [if_pos hpower, Outcome.ok_bind, Value.int_mul_float]
        by_cases hinterval : Value.Fits (intervalOf retrier)
        · rw [if_pos hinterval]
          exact .inl ⟨⟨hattempts, hpower, hinterval⟩, _, rfl⟩
        · rw [if_neg hinterval]
          exact .inr ⟨fun h => hinterval h.2.2, _, rfl⟩
      · rw [if_neg hpower]
        exact .inr ⟨fun h => hpower h.2.1, _, rfl⟩
    · rw [Value.float_pow_int_of_not_fits x hattempts]
      exact .inr ⟨fun h => hattempts h.1, _, rfl⟩

section

variable [Room]

theorem catching_cases (h : ∀ c ∈ catchers, c.get? "ResultPath" = none) (e : Failure) (raw : Value) :
    (∃ decision, catching e catchers raw = .ok decision ∧
      ∀ c, catchers.find? (covers · e.name) = some c → ∃ text, e.text = .ok text) ∨
      ∃ c f, catchers.find? (covers · e.name) = some c ∧ e.text = .error f ∧
        catching e catchers raw = .error f := by
  unfold catching
  cases hfound : catchers.find? (covers · e.name) with
  | none => exact .inl ⟨_, rfl, nofun⟩
  | some c =>
    dsimp only
    rw [h c (List.mem_of_find?_eq_some hfound)]
    cases htext : e.text with
    | ok text =>
      rw [errorOutput_eq htext]
      exact .inl ⟨_, rfl, fun _ _ => ⟨text, rfl⟩⟩
    | error f => exact .inr ⟨c, f, rfl, rfl, by rw [errorOutput_eq_error.mpr htext]; rfl⟩

theorem decided_of_first (hretriers : ∀ r ∈ retriers, IsHandler r)
    (hcatchers : ∀ c ∈ catchers, IsHandler c) (hruntime : e.isRuntime = false)
    (hfirst : retriers.find? (covers · e.name) = some retrier) (raw : Value) (attempts : Nat) :
    decided e retriers catchers raw attempts =
      match delay? retrier (.int attempts) with
      | .ok (some delay) => .ok (.retry delay)
      | .ok none => catching e catchers raw
      | .error f => .error f := by
  rw [decided_eq hretriers hcatchers hruntime, hfirst]
  dsimp only
  rcases delay? retrier (.int attempts) with f | (_ | delay) <;> rfl

/-- The retriers do not allow another attempt. -/
def LeftToCatchers (e : Failure) (retriers : List Value) (attempts : Nat) : Prop :=
  ∀ r, retriers.find? (covers · e.name) = some r → mostOf r < attempts

theorem decided_of_left (hretriers : ∀ r ∈ retriers, IsMeasured r)
    (hcatchers : ∀ c ∈ catchers, IsHandler c) (hruntime : e.isRuntime = false)
    (hleft : LeftToCatchers e retriers attempts) (raw : Value) :
    decided e retriers catchers raw attempts = catching e catchers raw := by
  have hhandlers r (hr : r ∈ retriers) : IsHandler r := (hretriers r hr).toIsHandler
  cases hfirst : retriers.find? (covers · e.name) with
  | none => rw [decided_eq hhandlers hcatchers hruntime, hfirst]
  | some r =>
    have hmeasured := hretriers r (List.mem_of_find?_eq_some hfirst)
    have hlt := hleft r hfirst
    rw [decided_of_first hhandlers hcatchers hruntime hfirst, hmeasured.delay_eq_growth,
      if_neg (by omega)]

/-- There is a decision about every error whose delay, if the first retrier for it allows another
attempt, is whole or in the range of floating numbers, and which has a text, if a catcher takes it over.
A delay that is too large is an error instead, which says nothing of the one that the delay was for, and
so is what goes wrong with a text. -/
theorem decides_where_shown_and_told (e : Failure) {retriers catchers : List Value} (raw : Value)
    (attempts : Nat) (hretriers : ∀ r ∈ retriers, IsMeasured r)
    (hcatchers : ∀ c ∈ catchers, IsHandler c ∧ c.get? "ResultPath" = none) :
    ((∃ decision, decided e retriers catchers raw attempts = .ok decision) ↔
      (e.isRuntime = false →
        (∀ r, retriers.find? (covers · e.name) = some r → (attempts : Int) ≤ mostOf r →
          ShowsDelay r attempts) ∧
        (LeftToCatchers e retriers attempts → ∀ c, catchers.find? (covers · e.name) = some c →
          ∃ text, e.text = .ok text))) ∧
    ∀ f, decided e retriers catchers raw attempts = .error f →
      (∃ text, f = .fault .overflow text) ∨ e.text = .error f := by
  have hhandlers r (hr : r ∈ retriers) : IsHandler r := (hretriers r hr).toIsHandler
  have hcatchers' c (hc : c ∈ catchers) : IsHandler c := (hcatchers c hc).1
  cases hruntime : e.isRuntime with
  | true =>
    rw [decided_of_isRuntime hruntime]
    exact ⟨⟨fun _ => nofun, fun _ => ⟨_, rfl⟩⟩, nofun⟩
  | false =>
    by_cases hleft : LeftToCatchers e retriers attempts
    · have hdelay (r : Value) (hfirst : retriers.find? (covers · e.name) = some r)
          (hle : (attempts : Int) ≤ mostOf r) : ShowsDelay r attempts := by
        have hlt := hleft r hfirst
        omega
      rw [decided_of_left hretriers hcatchers' hruntime hleft]
      rcases catching_cases (fun c hc => (hcatchers c hc).2) e raw with
        ⟨decision, hcaught, htold⟩ | ⟨c, f, hfound, hf, hcaught⟩
      · rw [hcaught]
        exact ⟨⟨fun _ _ => ⟨hdelay, fun _ => htold⟩, fun _ => ⟨decision, rfl⟩⟩, nofun⟩
      · rw [hcaught]
        refine ⟨⟨nofun, fun h => ?_⟩, fun f' hf' => ?_⟩
        · -- The catcher would need the text.
          obtain ⟨text, htext⟩ := (h rfl).2 hleft c hfound
          cases htext.symm.trans hf
        · cases hf'
          exact .inr hf
    · -- The first retrier allows another attempt.
      obtain ⟨r, hfirst, hle⟩ : ∃ r, retriers.find? (covers · e.name) = some r ∧
          (attempts : Int) ≤ mostOf r := by
        unfold LeftToCatchers at hleft
        push Not at hleft
        exact hleft
      have hmeasured := hretriers r (List.mem_of_find?_eq_some hfirst)
      rw [decided_of_first hhandlers hcatchers' hruntime hfirst]
      rcases hmeasured.delay_cases hle with ⟨hshows, delay, hdelay⟩ | ⟨hhides, text, hdelay⟩
      · rw [hdelay]
        refine ⟨⟨fun _ _ => ⟨?_, fun h => absurd h hleft⟩, fun _ => ⟨_, rfl⟩⟩, nofun⟩
        rintro r' hr' -
        exact Option.some.inj (hfirst.symm.trans hr') ▸ hshows
      · rw [hdelay]
        refine ⟨⟨nofun, fun h => absurd ((h rfl).1 r hfirst hle) hhides⟩, fun f hf => .inl ⟨text, ?_⟩⟩
        exact (Except.error.inj hf).symm

end

def catcherOfAll : Value :=
  .obj [("ErrorEquals", .arr [.str "States.ALL"]), ("Next", .str "C")]

def retrierAfter (interval : Nat) : Value :=
  .obj [("ErrorEquals", .arr [.str "States.ALL"]), ("IntervalSeconds", .int interval)]

theorem isMeasured_retrierTwice : IsMeasured retrierTwice where
  toIsRetrier := isWhole_retrierTwice.toIsRetrier
  backoff := .inr (.inl ⟨2, rfl⟩)

theorem isMeasured_retrierAfter (interval : Nat) : IsMeasured (retrierAfter interval) where
  isObject := rfl
  names := ⟨["States.ALL"], rfl⟩
  most := .inl rfl
  interval := .inr ⟨interval, rfl⟩
  backoff := .inl rfl

/-- A retrier with a fractional backoff rate. -/
def retrierSlowly : Value :=
  .obj [("ErrorEquals", .arr [.str "E"]), ("MaxAttempts", .int 2), ("BackoffRate", .float 1.5)]

theorem isMeasured_retrierSlowly : IsMeasured retrierSlowly where
  isObject := rfl
  names := ⟨["E"], rfl⟩
  most := .inr ⟨2, rfl⟩
  interval := .inl rfl
  backoff := .inr (.inr ⟨1.5, rfl, by decide +kernel⟩)

/-- The second attempt is followed by another under a whole rate; under a fractional rate, the third is
not followed by any. -/
theorem decides_where_shown_and_told_twice :
    (∀ r ∈ [retrierTwice], IsMeasured r) ∧ (∀ r ∈ [retrierSlowly], IsMeasured r) ∧
      (∀ c ∈ [catcherOfAll], IsHandler c ∧ c.get? "ResultPath" = none) ∧
      (∃ decision, decided (.client "E" "x") [retrierTwice] [catcherOfAll] .null 2 = .ok decision) ∧
      ∃ decision, decided (.client "E" "x") [retrierSlowly] [catcherOfAll] .null 3 = .ok decision := by
  have hretriers : ∀ r ∈ [retrierTwice], IsMeasured r := by simp [isMeasured_retrierTwice]
  have hslowly : ∀ r ∈ [retrierSlowly], IsMeasured r := by simp [isMeasured_retrierSlowly]
  have hcatchers : ∀ c ∈ [catcherOfAll], IsHandler c ∧ c.get? "ResultPath" = none := by
    intro c hc
    obtain rfl := List.mem_singleton.mp hc
    exact ⟨⟨rfl, ["States.ALL"], rfl⟩, rfl⟩
  have hshows : ShowsDelay retrierTwice 2 := by
    intro x hx
    rw [growthOf, show backoffOf retrierTwice = .int 2 from rfl, Value.int_before_one] at hx
    cases hx
  refine ⟨hretriers, hslowly, hcatchers,
    (decides_where_shown_and_told (.client "E" "x") .null 2 hretriers hcatchers).1.mpr fun _ =>
      ⟨fun r hr _ => ?_, fun _ _ _ => ⟨"x", rfl⟩⟩,
    (decides_where_shown_and_told (.client "E" "x") .null 3 hslowly hcatchers).1.mpr fun _ =>
      ⟨fun r hr hle => ?_, fun _ _ _ => ⟨"x", rfl⟩⟩⟩
  · obtain rfl : retrierTwice = r := Option.some.inj hr
    exact hshows
  · obtain rfl : retrierSlowly = r := Option.some.inj hr
    exact absurd hle (by decide)

theorem undecided_after [Room] {interval : Nat} (h : ¬Value.Fits interval) (e : Failure)
    (hruntime : e.isRuntime = false) (raw : Value) :
    ∃ text, decided e [retrierAfter interval] [] raw 1 = .error (.fault .overflow text) := by
  have hmeasured := isMeasured_retrierAfter interval
  have hfirst : [retrierAfter interval].find? (covers · e.name) = some (retrierAfter interval) := by
    simp [covers, show namesOf (retrierAfter interval) = ["States.ALL"] from rfl]
  have hone : ((1 : Nat) : Int) ≤ mostOf (retrierAfter interval) := by
    change (1 : Int) ≤ 3
    decide
  rw [decided_of_first (by simpa using hmeasured.toIsHandler) (by simp) hruntime hfirst]
  rcases hmeasured.delay_cases hone with ⟨hshows, -⟩ | ⟨-, text, htext⟩
  · exact absurd (hshows 2.0 rfl).2.2 h
  · exact ⟨text, by rw [htext]⟩

/-- An interval that no floating number can show takes the place of the error. -/
theorem long_interval_undecided :
    IsMeasured (retrierAfter (Nat.pow 10 400)) ∧
      ∃ text, decided (.client "E" "x") [retrierAfter (Nat.pow 10 400)] [] .null 1 =
        .error (.fault .overflow text) :=
  ⟨isMeasured_retrierAfter _, undecided_after (by decide +kernel) _ rfl _⟩

end RetryPolicy

end StatesLanguage
