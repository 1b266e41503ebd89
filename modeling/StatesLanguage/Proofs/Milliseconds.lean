import StatesLanguage.Proofs.Clock
import StatesLanguage.Proofs.RoundedArithmetic

/-!
# The clock in whole milliseconds

A poll whose timeout and interval are whole milliseconds is off by less than half a microsecond on
the floating clock. It pauses for as long as in exact time; only when the timeout passes it may find
a little of it left, and pause once more for a moment.
-/

namespace StatesLanguage

namespace Value

open Binary (value?)

section

variable {x : Float} {q : ℚ}

theorem Number.order?_of_value? (h : value? x = some q) (b : Int) :
    Number.order? (.float x) (.int b) = some (compare q b) := by
  obtain ⟨num, den, hratio, hden, rfl⟩ := Binary.ratio_of_value? h
  have hpos : (0 : ℚ) < den := by exact_mod_cast hden
  have hcompare : compare (num * (1 : Nat)) (b * (den : Int)) = compare ((num : ℚ) / den) b := by
    rw [Nat.cast_one, Int.mul_one]
    rcases lt_trichotomy ((num : ℚ) / den) b with hlt | heq | hgt
    · have hmul := (div_lt_iff₀ hpos).mp hlt
      rw [compare_lt_iff_lt.mpr hlt, compare_lt_iff_lt]
      exact_mod_cast hmul
    · have hmul := (div_eq_iff hpos.ne').mp heq
      rw [compare_eq_iff_eq.mpr heq, compare_eq_iff_eq]
      exact_mod_cast hmul
    · have hmul := (lt_div_iff₀ hpos).mp hgt
      rw [compare_gt_iff_gt.mpr hgt, compare_gt_iff_gt]
      exact_mod_cast hmul
  simp only [Number.order?, Number.ratio?, hratio, hcompare]

theorem before_of_value? (h : value? x = some q) (b : Int) :
    (Value.float x).before (.int b) = .ok (decide (q < b)) := by
  have hnumber : (Value.int b).number? = some (.int b) := rfl
  rw [float_before, hnumber]
  simp only [Number.less, Number.order?_of_value? h, beq_eq_decide, Option.some.injEq,
    compare_lt_iff_lt]

theorem notAfter_zero_of_value? (h : value? x = some q) :
    (Value.float x).notAfter (.int 0) = .ok (decide (q ≤ 0)) := by
  have horder := Number.order?_of_value? h 0
  have hnotAfter : (Value.float x).notAfter (.int 0) =
      .ok (Number.lessEqual (.float x) (.int 0)) := by
    simp only [notAfter, number?]
  rw [hnotAfter, Number.lessEqual, Number.less, Number.equal, horder, Int.cast_zero]
  rcases lt_trichotomy q 0 with hlt | rfl | hgt
  · rw [compare_lt_iff_lt.mpr hlt, decide_eq_true hlt.le]
    rfl
  · rw [compare_eq_iff_eq.mpr rfl, decide_eq_true le_rfl]
    rfl
  · rw [compare_gt_iff_gt.mpr hgt, decide_eq_false hgt.not_ge]
    rfl

theorem micros_of_near {n : Nat} (h : value? x = some q) (hpos : 0 < q)
    (hnear : |q * second - n| < 1 / 2) : (Value.float x).micros second = .ok (n : Int) := by
  obtain ⟨num, den, hratio, hden, rfl⟩ := Binary.ratio_of_value? h
  have hpos' : (0 : ℚ) < den := by exact_mod_cast hden
  have hnum : 0 < num := by
    rw [div_pos_iff_of_pos_right hpos'] at hpos
    exact_mod_cast hpos
  have hnat : ((num.natAbs : Nat) : ℚ) = num := by
    rw [Nat.cast_natAbs, abs_of_pos hnum]
  have hround : Binary.roundDiv (num.natAbs * second) den = n := by
    apply Binary.roundDiv_eq_of_near hden
    rwa [Nat.cast_mul, hnat, mul_div_right_comm]
  unfold Binary.ratio? at hratio
  split at hratio
  · rename_i neg mant exp hfinite
    simp only [micros, number?, Number.micros, hfinite, Option.some.inj hratio, hround]
    rw [if_neg hnum.not_gt]
  · cases hratio

theorem pause_of_near {n : Nat} (h : value? x = some q) (hpos : 0 < q)
    (hnear : |q * second - n| < 1 / 2) : (Value.float x).pause = .ok (max 1 n) := by
  rw [pause, micros_of_near h hpos hnear, Outcome.ok_bind, notAfter_zero_of_value? h,
    Outcome.ok_bind, decide_eq_false hpos.not_ge, if_neg Bool.false_ne_true, Int.toNat_natCast]
  rfl

end

end Value

namespace Polling

open Binary (value? ofInt)

variable {timeout interval first elapsed : Nat}

theorem cast_second : ((second : Nat) : ℚ) = 1000000 := by norm_num [second]

/-- The clock is wrong by a thirtieth of a microsecond at most in the first years of a run. -/
theorem value?_clockSeconds {micros : Nat} (h : micros ≤ 2 ^ 47) :
    ∃ q, value? (clockSeconds micros) = some q ∧ |q - micros / 1000000| ≤ (2 : ℚ) ^ (-25 : ℤ) := by
  rcases Nat.eq_zero_or_pos micros with rfl | hpos
  · have hzero : clockSeconds 0 = ofInt (0 : Nat) := rfl
    refine ⟨_, hzero ▸ Binary.value?_ofInt (n := 0) (by decide), ?_⟩
    norm_num
  · have hsize : (micros : ℚ) / (second : Nat) ≤ (2 : ℚ) ^ 28 := by
      have hcast : (micros : ℚ) ≤ 2 ^ 47 := by exact_mod_cast h
      rw [cast_second, div_le_iff₀ (by norm_num)]
      linarith
    have hmicros : micros < 2 ^ 200 := (Nat.lt_succ_of_le h).trans_le (by decide)
    have hunit : second < 2 ^ 200 := Nat.lt_of_lt_of_le (show second < 2 ^ 20 by decide) (by decide)
    obtain ⟨q, hq, herror⟩ :=
      Binary.value?_ofRatio hpos (show 0 < second by decide) hmicros hunit hsize
    refine ⟨q, hq, ?_⟩
    rw [cast_second] at herror
    exact_mod_cast herror

theorem value?_thousand : value? 1000.0 = some ((1000 : Nat) : ℚ) :=
  Binary.value?_ofInt (n := 1000) (by decide)

theorem value?_elapsed (h : first + elapsed ≤ 2 ^ 47) :
    ∃ e, value? ((clockSeconds (first + elapsed) - clockSeconds first) * 1000.0) = some e ∧
      |e - elapsed / 1000| ≤ 1 / 5000 := by
  obtain ⟨b, hb, hb'⟩ := value?_clockSeconds (Nat.le_of_add_right_le h)
  obtain ⟨a, ha, ha'⟩ := value?_clockSeconds h
  rw [Nat.cast_add, add_div] at ha'
  have hmost : (elapsed : ℚ) / 1000000 ≤ 2 ^ 27 + 2 ^ 26 := by
    have hcast : (elapsed : ℚ) ≤ 2 ^ 47 := by exact_mod_cast (Nat.le_add_left _ _).trans h
    rw [div_le_iff₀ (by norm_num)]
    linarith
  have hleast : (0 : ℚ) ≤ elapsed / 1000000 := by positivity
  have hmillis : (elapsed : ℚ) / 1000 = elapsed / 1000000 * 1000 := by ring
  generalize (elapsed : ℚ) / 1000000 = s at *
  rw [abs_le] at ha' hb'
  norm_num at ha' hb'
  have hsize : |a - b| ≤ (2 : ℚ) ^ (28 : ℤ) := by
    rw [abs_le]
    constructor <;> norm_num <;> linarith
  obtain ⟨d, hd, hd'⟩ := Binary.value?_sub ha hb (by decide) hsize
  rw [abs_le] at hd'
  norm_num at hd'
  have hsize' : |d * (1000 : Nat)| ≤ (2 : ℚ) ^ (38 : ℤ) := by
    rw [abs_le]
    constructor <;> norm_num <;> linarith
  obtain ⟨e, he, he'⟩ := Binary.value?_mul hd value?_thousand (by decide) hsize'
  rw [abs_le] at he'
  norm_num at he'
  refine ⟨e, he, ?_⟩
  rw [hmillis, abs_le]
  constructor <;> linarith

theorem value?_remaining (timeout : Nat) {y : Float} {e : ℚ} (he : value? y = some e)
    (htimeout : timeout * 1000 ≤ 2 ^ 47) (hnear : |e - elapsed / 1000| ≤ 1 / 5000)
    (helapsed : elapsed ≤ 2 ^ 47) :
    ∃ q, (Value.int timeout).sub (.float y) = .ok (.float (ofInt timeout - y)) ∧
      value? (ofInt timeout - y) = some q ∧ |q - (timeout - elapsed / 1000)| ≤ 3 / 10000 := by
  have hsmall : timeout < 2 ^ 53 := by omega
  have hsub : (Value.int timeout).sub (.float y) = .ok (.float (ofInt timeout - y)) := by
    have hnumber : (Value.int timeout).number? = some (.int timeout) := rfl
    rw [Value.sub_float hnumber, Value.Number.toFloat_whole hsmall]
    rfl
  have hcast : (timeout : ℚ) * 1000 ≤ 2 ^ 47 := by exact_mod_cast htimeout
  have hcast' : (elapsed : ℚ) ≤ 2 ^ 47 := by exact_mod_cast helapsed
  have hleast : (0 : ℚ) ≤ timeout := by positivity
  have hleast' : (0 : ℚ) ≤ elapsed := by positivity
  rw [abs_le] at hnear
  have hsize : |timeout - e| ≤ (2 : ℚ) ^ (38 : ℤ) := by
    rw [abs_le]
    constructor <;> norm_num <;> linarith
  obtain ⟨q, hq, hq'⟩ := Binary.value?_sub (Binary.value?_ofInt hsmall) he (by decide) hsize
  rw [abs_le] at hq'
  norm_num at hq'
  refine ⟨q, hsub, hq, ?_⟩
  rw [abs_le]
  constructor <;> linarith

theorem pause_remaining {x : Float} {q : ℚ} {n : Nat} (hq : value? x = some q)
    (hnear : |q - n / 1000| ≤ 3 / 10000) (hpos : 0 < n) (hbound : n ≤ 2 ^ 47) :
    (do (← (Value.float x).div (.int 1000)).pause) = (.ok n : Outcome Nat) := by
  have hleast : (1 : ℚ) ≤ n := by exact_mod_cast hpos
  have hmost : (n : ℚ) ≤ 2 ^ 47 := by exact_mod_cast hbound
  rw [abs_le] at hnear
  have hsize : |q / (1000 : Nat)| ≤ (2 : ℚ) ^ (28 : ℤ) := by
    rw [abs_le]
    constructor <;> norm_num <;> linarith
  obtain ⟨c, hc, herror⟩ := Binary.value?_div hq value?_thousand (by decide) (by decide) hsize
  rw [abs_le] at herror
  norm_num at herror
  have hclose : |c * second - n| < 1 / 2 := by
    rw [cast_second, abs_lt]
    constructor <;> linarith
  have hsome : 0 < c := by linarith
  rw [Value.float_div_thousand, Outcome.ok_bind]
  refine (Value.pause_of_near hc hsome hclose).trans ?_
  rw [Nat.max_eq_right hpos]

theorem pause_interval (hpos : 0 < interval) (hbound : interval * 1000 ≤ 2 ^ 48) :
    (do (← (Value.int interval).div (.int 1000)).pause) =
      (.ok (interval * 1000) : Outcome Nat) := by
  have hmost : (interval : ℚ) * 1000 ≤ 2 ^ 48 := by exact_mod_cast hbound
  have hleast : (1 : ℚ) ≤ interval := by exact_mod_cast hpos
  have hsize : (interval : ℚ) / (1000 : Nat) ≤ (2 : ℚ) ^ 29 := by
    norm_num
    linarith
  have hsmall : interval < 2 ^ 200 := Nat.lt_of_lt_of_le (by omega : interval < 2 ^ 48) (by decide)
  obtain ⟨c, hc, herror⟩ :=
    Binary.value?_ofRatio hpos (show 0 < 1000 by decide) hsmall (by decide) hsize
  rw [abs_le] at herror
  norm_num at herror
  have hclose : |c * second - (interval * 1000 : Nat)| < 1 / 2 := by
    push_cast
    rw [cast_second, abs_lt]
    constructor <;> linarith
  have hsome : 0 < c := by linarith
  rw [Value.int_div_thousand (Binary.isFinite_of_value? hc), Outcome.ok_bind]
  refine (Value.pause_of_near hc hsome hclose).trans ?_
  rw [Nat.max_eq_right (Nat.mul_pos hpos (by decide))]

theorem measuredPace_some {x : Float} {q : ℚ} {first last n : Nat} (hq : value? x = some q)
    (hpos : 0 < q)
    (hsub : (Value.int timeout).sub (.float ((clockSeconds last - clockSeconds first) * 1000.0)) =
      .ok (.float x))
    (hpause : (do
      (← (if q < interval then Value.float x else .int interval).div (.int 1000)).pause) =
        (.ok n : Outcome Nat)) :
    measuredPace (.int timeout) (.int interval) first last = .ok (some n) := by
  rw [measuredPace, hsub, Outcome.ok_bind, Value.notAfter_zero_of_value? hq, Outcome.ok_bind,
    decide_eq_false hpos.not_ge, if_neg Bool.false_ne_true, Value.before_of_value? hq,
    Outcome.ok_bind]
  dsimp only
  simp only [decide_eq_true_eq]
  have hmap := congrArg (fun o : Outcome Nat => o >>= fun pause => pure (some pause)) hpause
  rw [bind_assoc] at hmap
  exact hmap

theorem measuredPace_none {x : Float} {q : ℚ} {first last : Nat} {interval : Value}
    (hq : value? x = some q) (hpast : q ≤ 0)
    (hsub : (Value.int timeout).sub (.float ((clockSeconds last - clockSeconds first) * 1000.0)) =
      .ok (.float x)) :
    measuredPace (.int timeout) interval first last = .ok none := by
  rw [measuredPace, hsub, Outcome.ok_bind, Value.notAfter_zero_of_value? hq, Outcome.ok_bind,
    decide_eq_true hpast, if_pos rfl]
  rfl

/-- Before the timeout the measured pace is the exact one. -/
theorem measuredPace_before (hinterval : 0 < interval) (hearly : elapsed < timeout * 1000)
    (hbound : first + timeout * 1000 ≤ 2 ^ 47) :
    measuredPace (.int timeout) (.int interval) first (first + elapsed) =
      .ok (some (min (interval * 1000) (timeout * 1000 - elapsed))) := by
  obtain ⟨n, hn, hpos⟩ : ∃ n, timeout * 1000 = elapsed + n ∧ 0 < n :=
    ⟨timeout * 1000 - elapsed, by omega, by omega⟩
  have hless : first + elapsed ≤ 2 ^ 47 := by omega
  obtain ⟨e, he, he'⟩ := value?_elapsed hless
  obtain ⟨q, hsub, hq, hq'⟩ := value?_remaining timeout he (by omega) he' (by omega)
  have hrest : (timeout : ℚ) - elapsed / 1000 = n / 1000 := by
    have hcast : (timeout : ℚ) * 1000 = elapsed + n := by exact_mod_cast hn
    linarith
  rw [hrest] at hq'
  have hnear := abs_le.mp hq'
  have hleast : (1 : ℚ) ≤ n := by exact_mod_cast hpos
  apply measuredPace_some hq (by linarith) hsub
  rw [hn, Nat.add_sub_cancel_left]
  split
  · rename_i hshort
    have hle : n ≤ interval * 1000 := by
      have hcast : (n : ℚ) < (interval * 1000 + 1 : Nat) := by
        push_cast
        linarith
      exact Nat.lt_succ_iff.mp (by exact_mod_cast hcast)
    rw [Nat.min_eq_right hle]
    exact pause_remaining hq hq' hpos (by omega)
  · rename_i hlong
    have hle : interval * 1000 ≤ n := by
      have hcast : ((interval * 1000 : Nat) : ℚ) < (n + 1 : Nat) := by
        push_cast
        linarith
      exact Nat.lt_succ_iff.mp (by exact_mod_cast hcast)
    rw [Nat.min_eq_left hle]
    exact pause_interval hinterval (by omega)

theorem measuredPace_after (hbound : first + (timeout * 1000 + 1) ≤ 2 ^ 47) :
    measuredPace (.int timeout) (.int interval) first (first + (timeout * 1000 + 1)) =
      .ok none := by
  obtain ⟨e, he, he'⟩ := value?_elapsed hbound
  obtain ⟨q, hsub, hq, hq'⟩ := value?_remaining timeout he (by omega) he' (by omega)
  have hpast : q ≤ 0 := by
    rw [abs_le] at hq'
    push_cast at hq'
    linarith
  exact measuredPace_none hq hpast hsub

theorem moment_left {e q : ℚ}
    (he : value? ((clockSeconds (first + timeout * 1000) - clockSeconds first) * 1000.0) = some e)
    (hnear : |e - (timeout * 1000 : Nat) / 1000| ≤ 1 / 5000)
    (hq : value? (ofInt timeout -
      (clockSeconds (first + timeout * 1000) - clockSeconds first) * 1000.0) = some q)
    (hpos : 0 < q) (hbound : first + timeout * 1000 ≤ 2 ^ 47) : (2 : ℚ) ^ (-54 : ℤ) ≤ q := by
  have hsmall : timeout < 2 ^ 53 := by omega
  have hwhole := Binary.value?_ofInt hsmall
  have hmillis : ((timeout * 1000 : Nat) : ℚ) / 1000 = timeout := by
    push_cast
    ring
  rw [hmillis, abs_le] at hnear
  rcases Nat.eq_zero_or_pos timeout with rfl | htimeout
  · -- Nothing has passed yet, and it is measured exactly.
    obtain ⟨a, ha, -⟩ := value?_clockSeconds (Nat.le_of_add_right_le hbound)
    have hnone := Binary.value?_zero_mul (Binary.value?_sub_self ha ha) value?_thousand
    rw [Nat.zero_mul, Nat.add_zero, Binary.value?_sub_self hwhole hnone] at hq
    cases hq
    exact absurd hpos (lt_irrefl 0)
  · have hleast : (1 : ℚ) ≤ timeout := by exact_mod_cast htimeout
    refine Binary.value?_whole_sub hwhole he (by linarith) ?_ hq hpos
    rw [abs_le]
    constructor <;> linarith

theorem pause_moment {x : Float} {q : ℚ} (hq : value? x = some q) (hleast : (2 : ℚ) ^ (-54 : ℤ) ≤ q)
    (hmost : q ≤ 3 / 10000) :
    (do (← (Value.float x).div (.int 1000)).pause) = (.ok 1 : Outcome Nat) := by
  have hpos : 0 < q := (zpow_pos two_pos _).trans_le hleast
  have hquotient : |q / (1000 : Nat)| = q / (1000 : Nat) := abs_of_pos (by positivity)
  have hordinary : Binary.IsOrdinary (q / (1000 : Nat)) := by
    have hplace : (2 : ℚ) ^ (-64 : ℤ) = (2 : ℚ) ^ (-54 : ℤ) / 1024 := by norm_num
    rw [Binary.IsOrdinary, hquotient]
    constructor
    · calc (2 : ℚ) ^ (-1000 : ℤ) ≤ (2 : ℚ) ^ (-64 : ℤ) :=
            zpow_le_zpow_right₀ one_lt_two.le (by norm_num)
        _ = (2 : ℚ) ^ (-54 : ℤ) / 1024 := hplace
        _ ≤ q / 1024 := div_le_div_of_nonneg_right hleast (by norm_num)
        _ ≤ q / (1000 : Nat) := div_le_div_of_nonneg_left hpos.le (by norm_num) (by norm_num)
    · calc q / (1000 : Nat) ≤ 1 := by
            push_cast
            linarith
        _ ≤ (2 : ℚ) ^ (1000 : ℤ) := one_le_zpow₀ one_lt_two.le (by norm_num)
  obtain ⟨c, hc, herror⟩ := Binary.value?_div_ordinary hq value?_thousand (by decide) hordinary
  rw [hquotient, abs_le] at herror
  norm_num at herror
  have hsome : 0 < c := by linarith
  have hclose : |c * second - (0 : Nat)| < 1 / 2 := by
    rw [cast_second, abs_lt]
    push_cast
    constructor <;> linarith
  rw [Value.float_div_thousand, Outcome.ok_bind]
  exact Value.pause_of_near hc hsome hclose

/-- At the timeout there may be a moment left. -/
theorem measuredPace_at (hinterval : 0 < interval) (hbound : first + timeout * 1000 ≤ 2 ^ 47) :
    measuredPace (.int timeout) (.int interval) first (first + timeout * 1000) = .ok none ∨
      measuredPace (.int timeout) (.int interval) first (first + timeout * 1000) =
        .ok (some 1) := by
  obtain ⟨e, he, he'⟩ := value?_elapsed hbound
  obtain ⟨q, hsub, hq, hq'⟩ := value?_remaining timeout he (by omega) he' (by omega)
  have hrest : (timeout : ℚ) - (timeout * 1000 : Nat) / 1000 = 0 := by
    push_cast
    ring
  rw [hrest, sub_zero] at hq'
  rcases le_or_gt q 0 with hpast | hpos
  · exact .inl (measuredPace_none hq hpast hsub)
  · refine .inr (measuredPace_some hq hpos hsub ?_)
    have hleast : (1 : ℚ) ≤ interval := by exact_mod_cast hinterval
    have hnear := abs_le.mp hq'
    rw [if_pos (by linarith)]
    exact pause_moment hq (moment_left he he' hq hpos hbound) hnear.2

end Polling

end StatesLanguage
