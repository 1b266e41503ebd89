import Mathlib.Tactic.NormNum
import StatesLanguage.State.FanOut

/-!
# How many iterations may run at a time

Whatever number limits the iterations of a Map state, some of them can run: only what is not a number,
or less than zero, is refused.
-/

namespace StatesLanguage

open Float.Model UnpackedFloat

namespace Binary

/-! ## The fields of a floating number -/

theorem toNat_exponent (v : BitVec 64) :
    (@unpackExponent .binary64 v).toNat = v.toNat / Nat.pow 2 52 % 2048 := by
  simp only [unpackExponent, BitVec.toNat_cast, BitVec.extractLsb_toNat, Nat.shiftRight_eq_div_pow]

theorem toNat_mantissa (v : BitVec 64) :
    (@unpackMantissa .binary64 v).toNat = v.toNat % Nat.pow 2 52 := by
  simp only [unpackMantissa, BitVec.toNat_cast, BitVec.extractLsb_toNat, Nat.shiftRight_eq_div_pow]
  norm_num

theorem toNat_sign (v : BitVec 64) :
    (@unpackSign .binary64 v).toNat = v.toNat / Nat.pow 2 63 % 2 := by
  unfold unpackSign
  simp only [BitVec.toNat_cast, BitVec.extractLsb_toNat, Nat.shiftRight_eq_div_pow]

theorem toNat_unpackExponent (x : Float) :
    (@unpackExponent .binary64 x.toModel.toBits.toBitVec).toNat =
      x.toBits.toNat / Nat.pow 2 52 % 2048 :=
  toNat_exponent _

theorem toNat_unpackMantissa (x : Float) :
    (@unpackMantissa .binary64 x.toModel.toBits.toBitVec).toNat = x.toBits.toNat % Nat.pow 2 52 :=
  toNat_mantissa _

theorem toNat_unpackSign (x : Float) :
    (@unpackSign .binary64 x.toModel.toBits.toBitVec).toNat = x.toBits.toNat / Nat.pow 2 63 % 2 :=
  toNat_sign _

theorem lt_zero_iff (x : Float) :
    x < 0 ↔ x.toModel.unpack.compare (.zero .positive) = some .lt := by
  have hlt : x < 0 ↔ (x.toModel.unpack.compare (.zero .positive) == some .lt) = true := by
    change Float.lt x 0 = true ↔ _
    unfold Float.lt
    rw [decide_eq_true_iff]
    exact Iff.rfl
  rw [hlt]
  exact beq_iff_eq

theorem beq_zero_iff (x : Float) :
    (x == 0.0) = true ↔ x.toModel.unpack.compare (.zero .positive) = some .eq := by
  have heq : (x == 0.0) = (x.toModel.unpack.compare (.zero .positive) == some .eq) := rfl
  rw [heq]
  exact beq_iff_eq

theorem compare_finite (s : BitVec 1) (mant : Nat) (exp : Int) (hmant : 0 < mant) :
    (UnpackedFloat.finite (Sign.ofBitVec s) mant exp hmant).compare (.zero .positive) =
      if s.toNat = 0 then some .gt else some .lt := by
  have hs : s = 0#1 ∨ s = 1#1 := by
    revert s
    decide
  obtain rfl | rfl := hs
  · rfl
  · rfl

theorem toNat_eq_zero_iff {n : Nat} (b : BitVec n) : b.toNat = 0 ↔ b = 0#n :=
  BitVec.toNat_inj (y := 0#n)

theorem compare_zero {x : Float} (hfinite : x.toBits.toNat / Nat.pow 2 52 % 2048 ≠ 2047) :
    x.toModel.unpack.compare (.zero .positive) =
      if x.toBits.toNat / Nat.pow 2 52 % 2048 = 0 ∧ x.toBits.toNat % Nat.pow 2 52 = 0 then some .eq
      else if x.toBits.toNat / Nat.pow 2 63 % 2 = 0 then some .gt else some .lt := by
  rw [← toNat_unpackExponent] at hfinite ⊢
  rw [← toNat_unpackMantissa, ← toNat_unpackSign]
  have hexp : @unpackExponent .binary64 x.toModel.toBits.toBitVec ≠
      -BitVec.ofNat Format.binary64.exponentBits 1 := by
    intro h
    rw [h] at hfinite
    exact hfinite rfl
  unfold Float.Model.unpack UnpackedFloat.unpack
  dsimp only
  rw [if_neg hexp]
  by_cases hzero : (@unpackExponent .binary64 x.toModel.toBits.toBitVec).toNat = 0
  · rw [if_pos ((toNat_eq_zero_iff _).mp hzero)]
    by_cases hmant : (@unpackMantissa .binary64 x.toModel.toBits.toBitVec).toNat = 0
    · rw [dif_pos ((toNat_eq_zero_iff _).mp hmant), if_pos ⟨hzero, hmant⟩]
      rfl
    · rw [dif_neg fun h => hmant ((toNat_eq_zero_iff _).mpr h), if_neg fun h => hmant h.2]
      exact compare_finite _ _ _ _
  · rw [if_neg fun h => hzero ((toNat_eq_zero_iff _).mpr h), if_neg fun h => hzero h.1]
    exact compare_finite _ _ _ _

theorem positive_of_ofFloat {x : Float} {neg : Bool} {mant : Nat} {exp : Int} (hlt : ¬x < 0)
    (hne : (x == 0.0) = false) (hx : ofFloat x = .finite neg mant exp) : neg = false ∧ 0 < mant := by
  have hbits : x.toBits.toNat < 2 ^ 64 := x.toBits.toNat_lt
  have hsome : ¬x.toModel.unpack.compare (.zero .positive) = some .eq := by
    rw [← beq_zero_iff, hne]
    exact Bool.false_ne_true
  rw [lt_zero_iff] at hlt
  unfold ofFloat at hx
  dsimp only at hx
  by_cases hfinite : x.toBits.toNat / Nat.pow 2 52 % 2048 = 2047
  · rw [if_pos hfinite] at hx
    split at hx <;> cases hx
  · rw [compare_zero hfinite] at hlt hsome
    rw [if_neg hfinite] at hx
    have hzero : ¬(x.toBits.toNat / Nat.pow 2 52 % 2048 = 0 ∧ x.toBits.toNat % Nat.pow 2 52 = 0) :=
      fun h => hsome (if_pos h)
    have hsign : x.toBits.toNat / Nat.pow 2 63 % 2 = 0 := by
      by_contra h
      exact hlt (by rw [if_neg hzero, if_neg h])
    have hneg : (x.toBits.toNat / Nat.pow 2 63 == 1) = false := by
      rw [beq_eq_false_iff_ne]
      omega
    rw [hneg] at hx
    split at hx <;> cases hx
    · exact ⟨rfl, by omega⟩
    · exact ⟨rfl, Nat.add_pos_left (Nat.pow_pos Nat.two_pos) _⟩

theorem positive_of_ratio {x : Float} {num : Int} {den : Nat} (hlt : ¬x < 0)
    (hne : (x == 0.0) = false) (hx : ratio? x = some (num, den)) : 0 < num ∧ 0 < den := by
  unfold ratio? at hx
  split at hx
  · rename_i neg mant exp hfinite
    obtain ⟨rfl, hmant⟩ := positive_of_ofFloat hlt hne hfinite
    have hpow : 0 < Nat.pow 2 exp.natAbs := Nat.pow_pos Nat.two_pos
    simp only [ratio, Bool.false_eq_true, if_false] at hx
    split at hx <;> cases hx
    · exact ⟨by omega, hpow⟩
    · exact ⟨Int.mul_pos (by omega) (by omega), Nat.one_pos⟩
  · cases hx

end Binary

theorem Value.truthy_of_number {v : Value} {n : Number} (h : v.number? = some n) :
    v.truthy = n.toValue.truthy := by
  cases v with
  | bool b =>
    cases h
    cases b <;> rfl
  | int m => cases h; rfl
  | float x => cases h; rfl
  | _ => cases h

def Value.NotNegative (v : Value) : Prop :=
  match v.number? with
  | some (.int n) => 0 ≤ n
  | some (.float x) => ¬x < 0
  | none => False

namespace State

theorem exists_capacity {most : Value} (h : most.NotNegative) (items : Nat) :
    ∃ most?, capacity most items = .ok most? := by
  unfold Value.NotNegative at h
  unfold capacity
  split
  · exact ⟨_, rfl⟩
  · split at h
    · rename_i n hnumber
      simp only [hnumber, Int.not_lt.mpr h, if_false]
      exact ⟨_, rfl⟩
    · rename_i x hnumber
      simp only [hnumber, h, if_false]
      split <;> exact ⟨_, rfl⟩
    · exact h.elim

theorem capacity_ne_zero {most : Value} {items : Nat} {most? : Option Nat}
    (h : capacity most items = .ok most?) : most? ≠ some 0 := by
  rintro rfl
  unfold capacity at h
  split at h
  · have hmax := Option.some.inj (Except.ok.inj h)
    omega
  · rename_i htruthy
    split at h
    · cases h
    · rename_i n hnumber
      rw [Value.truthy_of_number hnumber] at htruthy
      have hn : n ≠ 0 := by simpa [Value.Number.toValue, Value.truthy] using htruthy
      split at h
      · cases h
      · have hzero := Option.some.inj (Except.ok.inj h)
        omega
    · rename_i x hnumber
      rw [Value.truthy_of_number hnumber] at htruthy
      have hx : (x == 0.0) = false := by simpa [Value.Number.toValue, Value.truthy] using htruthy
      split at h
      · cases h
      · rename_i hlt
        split at h
        · rename_i num den hratio
          obtain ⟨hnum, hden⟩ := Binary.positive_of_ratio hlt hx hratio
          split at h
          · rename_i hwhole
            have hzero := Option.some.inj (Except.ok.inj h)
            have hpos : 0 < num / den :=
              Int.ediv_pos_of_pos_of_dvd hnum (by omega) (Int.dvd_of_emod_eq_zero hwhole)
            omega
          · cases h
        · cases h

end State

end StatesLanguage
