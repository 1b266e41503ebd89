import StatesLanguage.Proofs.Pace
import StatesLanguage.Proofs.WholeNumbers

/-!
# The clock in whole seconds

A poll whose times are whole seconds loses nothing to the floating clock: its measured pace is the exact
one.
-/

namespace StatesLanguage

open Binary (ofInt ofInt_sub ofInt_mul ofInt_div ratio?_ofInt ofRatio_eq_ofInt)

namespace Value

variable {a b n : Nat}

theorem Number.toFloat_whole (hn : n < 2 ^ 53) : Number.toFloat (.int n) = .ok (ofInt n) := by
  have hfinite : Binary.isFinite (ofInt n) = true := by
    obtain ⟨d, -, hratio⟩ := ratio?_ofInt hn
    unfold Binary.ratio? at hratio
    unfold Binary.isFinite
    split at hratio
    · rfl
    · cases hratio
  simp only [Number.toFloat, hfinite, if_true]

theorem Number.order?_whole (ha : a < 2 ^ 53) (b : Nat) :
    Number.order? (.float (ofInt a)) (.int b) = some (compare a b) := by
  obtain ⟨d, hd, hratio⟩ := ratio?_ofInt ha
  have hcompare : compare (((a * d : Nat) : Int) * (1 : Nat)) ((b : Int) * (d : Nat)) = compare a b := by
    rw [Nat.cast_one, Int.mul_one, ← Int.natCast_mul]
    rcases lt_trichotomy a b with h | rfl | h
    · rw [Nat.compare_eq_lt.mpr h, Int.compare_eq_lt]
      exact_mod_cast Nat.mul_lt_mul_of_pos_right h hd
    · rw [Nat.compare_eq_eq.mpr rfl, Int.compare_eq_eq]
    · rw [Nat.compare_eq_gt.mpr h, Int.compare_eq_gt]
      exact_mod_cast Nat.mul_lt_mul_of_pos_right h hd
  simp only [Number.order?, Number.ratio?, hratio, hcompare]

theorem whole_before (ha : a < 2 ^ 53) (b : Nat) :
    (Value.float (ofInt a)).before (.int b) = .ok (decide (a < b)) := by
  have hnumber : (Value.int b).number? = some (.int b) := rfl
  rw [float_before, hnumber]
  simp only [Number.less, Number.order?_whole ha, beq_eq_decide, Option.some.injEq,
    Nat.compare_eq_lt]

theorem whole_notAfter_zero (ha : a < 2 ^ 53) :
    (Value.float (ofInt a)).notAfter (.int 0) = .ok (decide (a = 0)) := by
  have horder := Number.order?_whole ha 0
  have hnotAfter : (Value.float (ofInt a)).notAfter (.int 0) =
      .ok (Number.lessEqual (.float (ofInt a)) (.int (0 : Nat))) := by
    simp only [notAfter, number?]
    rfl
  rw [hnotAfter, Number.lessEqual, Number.less, Number.equal, horder]
  rcases Nat.eq_zero_or_pos a with rfl | ha
  · rfl
  · rw [Nat.compare_eq_gt.mpr ha, decide_eq_false ha.ne']
    rfl

theorem int_sub_whole (hle : b ≤ a) (ha : a < 2 ^ 53) :
    (Value.int a).sub (.float (ofInt b)) = .ok (.float (ofInt (a - b : Nat))) := by
  have hnumber : (Value.int a).number? = some (.int a) := rfl
  rw [sub_float hnumber, Number.toFloat_whole ha, ← ofInt_sub hle ha]
  rfl

theorem whole_div_thousand (hn : n * 1000 < 2 ^ 53) :
    (Value.float (ofInt (n * 1000 : Nat))).div (.int 1000) = .ok (.float (ofInt n)) := by
  have hdiv : ofInt (n * 1000 : Nat) / ofInt 1000 = ofInt n :=
    ofInt_div (by decide) hn (by decide)
  rw [float_div_thousand, hdiv]

theorem micros_whole (hn : 0 < n) (hbound : n < 2 ^ 53) :
    (Value.float (ofInt n)).micros second = .ok ((n * second : Nat) : Int) := by
  rw [← ofRatio_eq_ofInt hbound (show 0 < 1000 by decide)]
  exact micros_of_seconds hn hbound

theorem pause_whole (hn : 0 < n) (hbound : n < 2 ^ 53) :
    (Value.float (ofInt n)).pause = .ok (n * second) := by
  have hsecond : 1 ≤ n * second := Nat.mul_pos hn (by decide)
  rw [pause, micros_whole hn hbound, Outcome.ok_bind, whole_notAfter_zero hbound, Outcome.ok_bind,
    decide_eq_false hn.ne', if_neg Bool.false_ne_true, Int.toNat_natCast, Nat.max_eq_right hsecond]
  rfl

end Value

namespace Polling

variable {timeout interval first elapsed : Nat}

theorem clockSeconds_whole (h : first < 2 ^ 53) : clockSeconds (first * second) = ofInt first :=
  ofRatio_eq_ofInt h (by decide)

theorem measuredPace_seconds (hinterval : 0 < interval) (hle : elapsed ≤ timeout)
    (hinterval' : interval * 1000 < 2 ^ 53) (htimeout : timeout * 1000 < 2 ^ 53)
    (hfirst : first + timeout < 2 ^ 53) :
    measuredPace (.int (timeout * 1000 : Nat)) (.int (interval * 1000 : Nat)) (first * second)
      ((first + elapsed) * second) =
        .ok (if timeout - elapsed = 0 then none
          else some (min interval (timeout - elapsed) * second)) := by
  have hthousand : (1000.0 : Float) = ofInt (1000 : Nat) := rfl
  have helapsed : elapsed * 1000 < 2 ^ 53 := (Nat.mul_le_mul_right _ hle).trans_lt htimeout
  have hrest : (timeout - elapsed) * 1000 < 2 ^ 53 :=
    (Nat.mul_le_mul_right _ (Nat.sub_le _ _)).trans_lt htimeout
  have hlast : first + elapsed < 2 ^ 53 := (Nat.add_le_add_left hle _).trans_lt hfirst
  -- All numbers on the way are whole and below `2 ^ 53`, so that nothing is rounded.
  have hmillis : (clockSeconds ((first + elapsed) * second) - clockSeconds (first * second)) * 1000.0 =
      ofInt (elapsed * 1000 : Nat) := by
    rw [clockSeconds_whole hlast, clockSeconds_whole ((Nat.le_add_right _ _).trans_lt hlast),
      ofInt_sub (Nat.le_add_right _ _) hlast, Nat.add_sub_cancel_left, hthousand,
      ofInt_mul ((Nat.le_add_left _ _).trans_lt hlast) (by decide) helapsed]
  have hremaining : (Value.int (timeout * 1000 : Nat)).sub (.float (ofInt (elapsed * 1000 : Nat))) =
      .ok (.float (ofInt ((timeout - elapsed) * 1000 : Nat))) := by
    rw [Value.int_sub_whole (Nat.mul_le_mul_right _ hle) htimeout, Nat.sub_mul]
  rw [measuredPace, hmillis, hremaining, Outcome.ok_bind, Value.whole_notAfter_zero hrest,
    Outcome.ok_bind]
  by_cases hlate : timeout - elapsed = 0
  · rw [if_pos hlate, hlate]
    rfl
  · have hmore : 0 < timeout - elapsed := Nat.pos_of_ne_zero hlate
    have hnotLate : ¬(timeout - elapsed) * 1000 = 0 := (Nat.mul_pos hmore (by decide)).ne'
    rw [if_neg hlate, decide_eq_false hnotLate, if_neg Bool.false_ne_true,
      Value.whole_before hrest, Outcome.ok_bind]
    have hsmall {n : Nat} (h : n * 1000 < 2 ^ 53) : n < 2 ^ 53 :=
      (Nat.le_mul_of_pos_right n (by decide)).trans_lt h
    rcases Nat.lt_or_ge (timeout - elapsed) interval with hshort | hlong
    · have hbefore : (timeout - elapsed) * 1000 < interval * 1000 :=
        Nat.mul_lt_mul_of_pos_right hshort (by decide)
      rw [decide_eq_true hbefore, if_pos rfl]
      dsimp only
      rw [Value.whole_div_thousand hrest, Outcome.ok_bind, Value.pause_whole hmore (hsmall hrest),
        Nat.min_eq_right hshort.le]
      rfl
    · have hbefore : ¬(timeout - elapsed) * 1000 < interval * 1000 :=
        Nat.not_lt.mpr (Nat.mul_le_mul_right _ hlong)
      rw [decide_eq_false hbefore, if_neg Bool.false_ne_true]
      dsimp only
      rw [Value.div_thousand_of_seconds hinterval (hsmall hinterval'), Outcome.ok_bind,
        ofRatio_eq_ofInt (hsmall hinterval') (by decide),
        Value.pause_whole hinterval (hsmall hinterval'), Nat.min_eq_left hlong]
      rfl

end Polling

end StatesLanguage
