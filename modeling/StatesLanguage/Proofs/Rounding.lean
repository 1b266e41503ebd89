import Mathlib
import StatesLanguage.Proofs.WholeNumbers

/-!
# Rounding

A floating number that is rounded is no further from the exact one than the last place of a number
as large.
-/

namespace StatesLanguage.Binary

open Float.Model UnpackedFloat

/-! ## Values -/

def isMinus : Sign → Bool
  | .negative => true
  | .positive => false

def ofUnpacked : UnpackedFloat → Binary
  | .finite s mant exp _ => .finite (isMinus s) mant exp
  | .zero s => .finite (isMinus s) 0 (-1074)
  | .infinity s => .infinite (isMinus s)
  | .notANumber => .nan

theorem isMinus_ofBitVec (b : BitVec 1) : isMinus (Sign.ofBitVec b) = (b.toNat == 1) := by
  have hb : b = 0#1 ∨ b = 1#1 := by
    revert b
    decide
  obtain rfl | rfl := hb <;> rfl

theorem ofFloat_eq (x : Float) : ofFloat x = ofUnpacked x.toModel.unpack := by
  have hsize : x.toBits.toNat < 2 ^ 64 := x.toBits.toNat_lt
  have hsign : (x.toBits.toNat / Nat.pow 2 63 == 1) =
      isMinus (Sign.ofBitVec (@unpackSign .binary64 x.toModel.toBits.toBitVec)) := by
    have hpow : Nat.pow 2 63 = 9223372036854775808 := rfl
    rw [isMinus_ofBitVec, toNat_unpackSign, hpow, Nat.mod_eq_of_lt (by omega)]
  have hmax : (@unpackExponent .binary64 x.toModel.toBits.toBitVec).toNat = 2047 ↔
      @unpackExponent .binary64 x.toModel.toBits.toBitVec =
        -BitVec.ofNat Format.binary64.exponentBits 1 :=
    BitVec.toNat_inj (y := 2047#11)
  have hfull : (1#1 ++ @unpackMantissa .binary64 x.toModel.toBits.toBitVec).toNat =
      Nat.pow 2 52 + (@unpackMantissa .binary64 x.toModel.toBits.toBitVec).toNat := by
    rw [toNat_append_eq]
    rfl
  unfold ofFloat Float.Model.unpack UnpackedFloat.unpack
  dsimp only
  rw [hsign, ← toNat_unpackExponent, ← toNat_unpackMantissa, ← hfull]
  by_cases hinf : @unpackExponent .binary64 x.toModel.toBits.toBitVec =
      -BitVec.ofNat Format.binary64.exponentBits 1
  · rw [if_pos (hmax.mpr hinf), if_pos hinf]
    by_cases hmant : @unpackMantissa .binary64 x.toModel.toBits.toBitVec = 0#52
    · rw [if_pos ((toNat_eq_zero_iff _).mpr hmant), if_pos hmant]
      rfl
    · rw [if_neg fun h => hmant ((toNat_eq_zero_iff _).mp h), if_neg hmant]
      rfl
  · rw [if_neg fun h => hinf (hmax.mp h), if_neg hinf]
    by_cases hzero : @unpackExponent .binary64 x.toModel.toBits.toBitVec = 0#11
    · rw [if_pos ((toNat_eq_zero_iff _).mpr hzero), if_pos hzero]
      by_cases hmant : @unpackMantissa .binary64 x.toModel.toBits.toBitVec = 0#52
      · rw [dif_pos hmant, hmant]
        rfl
      · rw [dif_neg hmant, hzero]
        rfl
    · rw [if_neg fun h => hzero ((toNat_eq_zero_iff _).mp h), if_neg hzero]
      rfl

/-- The number that an unpacked floating number stands for, if it is finite. -/
def unpackedValue? : UnpackedFloat → Option ℚ
  | .finite s mant exp _ => some ((s.apply mant : ℤ) * (2 : ℚ) ^ exp)
  | .zero _ => some 0
  | .infinity _ | .notANumber => none

/-- The number that a floating number stands for, if it is finite. -/
def value? (x : Float) : Option ℚ :=
  (ratio? x).map fun (num, den) => (num : ℚ) / den

theorem div_ratio (s : Sign) (mant : Nat) (exp : Int) :
    ((ratio (isMinus s) mant exp).1 : ℚ) / (ratio (isMinus s) mant exp).2 =
      (s.apply mant : ℤ) * (2 : ℚ) ^ exp := by
  have hsign : (if isMinus s then -(mant : Int) else mant) = s.apply mant := by cases s <;> rfl
  unfold ratio
  dsimp only
  rw [hsign]
  split
  · have hexp : exp = -(exp.natAbs : Int) := by omega
    rw [hexp, zpow_neg, zpow_natCast, Int.natAbs_neg, Int.natAbs_natCast, div_eq_mul_inv]
    simp
  · have hexp : exp = (exp.natAbs : Int) := by omega
    rw [hexp, zpow_natCast, Int.natAbs_natCast]
    simp

theorem value?_eq (x : Float) : value? x = unpackedValue? x.toModel.unpack := by
  unfold value? ratio?
  rw [ofFloat_eq]
  cases x.toModel.unpack with
  | finite s mant exp hpos => simp [ofUnpacked, unpackedValue?, div_ratio]
  | zero s =>
    have hvalue := div_ratio s 0 (-1074)
    have hnone : s.apply ((0 : Nat) : Int) = 0 := by cases s <;> rfl
    rw [hnone, Int.cast_zero, zero_mul] at hvalue
    simp only [ofUnpacked, unpackedValue?, Option.map_some, hvalue]
  | infinity s => rfl
  | notANumber => rfl

theorem apply_eq_mul (s : Sign) (mant : Nat) :
    ((s.apply mant : ℤ) : ℚ) = ((s.apply 1 : ℤ) : ℚ) * mant := by
  cases s <;> simp [Sign.apply]

theorem abs_apply (s : Sign) (mant : Nat) (exp : Int) :
    |((s.apply mant : ℤ) : ℚ) * (2 : ℚ) ^ exp| = mant * (2 : ℚ) ^ exp := by
  have hscale : (0 : ℚ) < (2 : ℚ) ^ exp := zpow_pos two_pos _
  rw [abs_mul, abs_of_pos hscale]
  cases s <;> simp [Sign.apply]

/-! ## Numbers as they are packed -/

/-- A number that is packed as it is: its mantissa has all bits, or its exponent is the least. -/
def IsCanonical : UnpackedFloat → Prop
  | .finite _ mant exp _ =>
    mant < 2 ^ 53 ∧ -1074 ≤ exp ∧ exp ≤ 971 ∧ (2 ^ 52 ≤ mant ∨ exp = -1074)
  | _ => True

section

variable (s : Sign) (e : BitVec 11) (m : BitVec 52)

theorem toNat_packComponents :
    (packComponents .binary64 s e m).toNat =
      (s.toBitVec.toNat * 2 ^ 11 + e.toNat) * 2 ^ 52 + m.toNat := by
  unfold packComponents
  rw [toNat_append_eq, toNat_append_eq]

theorem unpackMantissa_packComponents : unpackMantissa (packComponents .binary64 s e m) = m := by
  apply BitVec.eq_of_toNat_eq
  have hm := m.isLt
  rw [toNat_mantissa, toNat_packComponents, Nat.pow_eq]
  omega

theorem unpackExponent_packComponents : unpackExponent (packComponents .binary64 s e m) = e := by
  apply BitVec.eq_of_toNat_eq
  have he := e.isLt
  have hm := m.isLt
  rw [toNat_exponent, toNat_packComponents, Nat.pow_eq]
  omega

theorem ofBitVec_unpackSign :
    Sign.ofBitVec (unpackSign (packComponents .binary64 s e m)) = s := by
  have hsign : unpackSign (packComponents .binary64 s e m) = s.toBitVec := by
    apply BitVec.eq_of_toNat_eq
    have hs := s.toBitVec.isLt
    have he := e.isLt
    have hm := m.isLt
    rw [toNat_sign, toNat_packComponents, Nat.pow_eq]
    omega
  rw [hsign]
  cases s <;> rfl

theorem unpack_packComponents (hzero : e.toNat ≠ 0) (hmax : e.toNat ≠ 2047) :
    UnpackedFloat.unpack .binary64 (packComponents .binary64 s e m) =
      .finite s (2 ^ 52 + m.toNat) (e.toNat - 1075) (by omega) := by
  have hexp := unpackExponent_packComponents s e m
  have hmant := unpackMantissa_packComponents s e m
  have hsign := ofBitVec_unpackSign s e m
  generalize packComponents .binary64 s e m = v at *
  have hfull : (1#1 ++ @unpackMantissa .binary64 v).toNat = 2 ^ 52 + m.toNat := by
    rw [hmant, toNat_append_eq]
    rfl
  have hbias : ((@unpackExponent .binary64 v).toNat : Int) -
      ((Format.binary64.exponentBias : Int) + (52 : Nat)) = e.toNat - 1075 := by
    rw [hexp]
    rfl
  have hlast : ¬@unpackExponent .binary64 v = -BitVec.ofNat Format.binary64.exponentBits 1 := by
    rw [hexp]
    intro h
    exact hmax (by rw [h]; rfl)
  have hfirst : ¬@unpackExponent .binary64 v = 0#11 := by
    rw [hexp]
    exact fun h => hzero ((toNat_eq_zero_iff e).mpr h)
  unfold UnpackedFloat.unpack
  dsimp only
  rw [if_neg hlast, if_neg hfirst]
  exact finite_congr hsign hfull hbias

theorem unpack_packComponents_zero (hm : m.toNat ≠ 0) :
    UnpackedFloat.unpack .binary64 (packComponents .binary64 s 0#11 m) =
      .finite s m.toNat (-1074) (by omega) := by
  have hexp := unpackExponent_packComponents s 0#11 m
  have hmant := unpackMantissa_packComponents s 0#11 m
  have hsign := ofBitVec_unpackSign s 0#11 m
  generalize packComponents .binary64 s 0#11 m = v at *
  have hlast : ¬@unpackExponent .binary64 v = -BitVec.ofNat Format.binary64.exponentBits 1 := by
    rw [hexp]
    decide
  have hne : ¬@unpackMantissa .binary64 v = 0#52 := by
    rw [hmant]
    exact fun h => hm ((toNat_eq_zero_iff m).mpr h)
  have hbias : ((@unpackExponent .binary64 v).toNat : Int) -
      ((Format.binary64.exponentBias : Int) + (52 : Nat)) + 1 = -1074 := by
    rw [hexp]
    rfl
  unfold UnpackedFloat.unpack
  dsimp only
  rw [if_neg hlast, if_pos hexp, dif_neg hne]
  exact finite_congr hsign (congrArg BitVec.toNat hmant) hbias

end

theorem unpack_pack {r : UnpackedFloat} (h : IsCanonical r) : (Float.Model.pack r).unpack = r := by
  cases r with
  | zero s => cases s <;> rfl
  | infinity s => cases s <;> rfl
  | notANumber => rfl
  | finite s mant exp hpos =>
    obtain ⟨hsmall, hmin, hmax, hnormal⟩ := h
    have hbias : (exp + (Format.binary64.exponentBias : Int) + (52 : Nat)).toNat =
        (exp + 1075).toNat := by
      have hbias : (Format.binary64.exponentBias : Int) = 1023 := rfl
      omega
    have hfinite : ¬2 ^ Format.binary64.exponentBits ≤ (exp + 1075).toNat + 1 := by
      have hbits : 2 ^ Format.binary64.exponentBits = 2048 := rfl
      omega
    have hbits : Format.binary64.mantissaBits = 53 := rfl
    unfold Float.Model.unpack Float.Model.pack UnpackedFloat.pack
    dsimp only
    rw [hbias, if_neg hfinite, hbits]
    by_cases hfull : 2 ^ 52 ≤ mant
    · have hlog : mant.log2 = 52 := (Nat.log2_eq_iff hpos.ne').mpr ⟨hfull, hsmall⟩
      have hexp : (BitVec.ofNat 11 (exp + 1075).toNat).toNat = (exp + 1075).toNat := by
        rw [BitVec.toNat_ofNat]
        omega
      have hmant : 2 ^ 52 + (BitVec.ofNat 52 mant).toNat = mant := by
        rw [BitVec.toNat_ofNat]
        omega
      have hback : ((exp + 1075).toNat : Int) - 1075 = exp := by omega
      rw [hlog, if_pos rfl, unpack_packComponents _ _ _ (by omega) (by omega)]
      exact finite_congr rfl hmant (by rw [hexp, hback])
    · have hlog : mant.log2 < 52 := (Nat.log2_lt hpos.ne').mpr (by omega)
      have hmant : (BitVec.ofNat 52 mant).toNat = mant := by
        rw [BitVec.toNat_ofNat]
        omega
      rw [if_neg (by omega), unpack_packComponents_zero _ _ (by omega)]
      exact finite_congr rfl hmant (hnormal.resolve_left hfull).symm

theorem isCanonical_unpack (v : Float.Model) : IsCanonical v.unpack := by
  have hexp := (@unpackExponent .binary64 v.toBits.toBitVec).isLt
  have hmant := (@unpackMantissa .binary64 v.toBits.toBitVec).isLt
  have hfull : (1#1 ++ @unpackMantissa .binary64 v.toBits.toBitVec).toNat =
      2 ^ 52 + (@unpackMantissa .binary64 v.toBits.toBitVec).toNat := by
    rw [toNat_append_eq]
    rfl
  have hbias : (Format.binary64.exponentBias : Int) + (52 : Nat) = 1075 := rfl
  unfold Float.Model.unpack UnpackedFloat.unpack
  dsimp only
  by_cases hlast : @unpackExponent .binary64 v.toBits.toBitVec =
      -BitVec.ofNat Format.binary64.exponentBits 1
  · rw [if_pos hlast]
    split <;> trivial
  · rw [if_neg hlast]
    have hne : (@unpackExponent .binary64 v.toBits.toBitVec).toNat ≠ 2047 := fun h =>
      hlast (BitVec.eq_of_toNat_eq h)
    change (@unpackExponent .binary64 v.toBits.toBitVec).toNat < 2048 at hexp
    change (@unpackMantissa .binary64 v.toBits.toBitVec).toNat < 2 ^ 52 at hmant
    by_cases hfirst : @unpackExponent .binary64 v.toBits.toBitVec = 0#11
    · rw [if_pos hfirst]
      split
      · trivial
      · refine ⟨by omega, ?_, ?_, .inr ?_⟩
        all_goals
          rw [hbias, hfirst]
          decide
    · rw [if_neg hfirst]
      have hpos : (@unpackExponent .binary64 v.toBits.toBitVec).toNat ≠ 0 := fun h =>
        hfirst ((toNat_eq_zero_iff _).mp h)
      refine ⟨?_, ?_, ?_, .inl ?_⟩
      · rw [hfull]
        omega
      · rw [hbias]
        omega
      · rw [hbias]
        omega
      · rw [hfull]
        omega

/-! ## Rounding -/

theorem mantissa_shiftRight (em : ExtendedMantissa) (k : Nat) :
    (em >>> k).mantissa = em.mantissa / 2 ^ k := by
  change (Nat.repeat ExtendedMantissa.shiftRightOne k em).mantissa = _
  induction k with
  | zero => simp [Nat.repeat]
  | succ k ih =>
    rw [Nat.repeat, Nat.pow_succ, ← Nat.div_div_eq_div_mul, ← ih]
    rfl

theorem roundedMantissa_near (em : ExtendedMantissa) :
    em.mantissa ≤ em.roundedMantissa ∧ em.roundedMantissa ≤ em.mantissa + 1 := by
  rcases em with ⟨mant, roundBit, stickyBit⟩
  cases roundBit <;> cases stickyBit <;>
    simp [ExtendedMantissa.roundedMantissa, ExtendedMantissa.accuracy, Accuracy.roundToNearestEven]
  omega

theorem targetExponent_eq (mant : Nat) (exp : Int) :
    Format.binary64.targetExponent (totalExponent mant exp) =
      max ((mant.log2 : Int) + exp - 52) (-1074) := by
  have hmin : Format.binary64.minExponent = -1074 := rfl
  have hbits : Format.binary64.mantissaBits = 53 := rfl
  rw [Format.targetExponent, totalExponent, hmin, hbits]
  omega

section

variable {s : Sign} {mant k : Nat} {exp : Int}

theorem shiftToTargetExponent_small (hmant : mant < 2 ^ 53) (hexp : -1074 ≤ exp) :
    shiftToTargetExponent Format.binary64 mant exp .exact =
      (ExtendedMantissa.ofMantissaAndAccuracy mant .exact, exp) := by
  have hlog : mant.log2 ≤ 52 := by
    rcases Nat.eq_zero_or_pos mant with rfl | hpos
    · simp
    · exact log2_le hpos hmant
  have hshift : (max ((mant.log2 : Int) + exp - 52) (-1074) - exp).toNat = 0 := by omega
  simp only [shiftToTargetExponent, targetExponent_eq, shiftToExponent, hshift]
  simp [HShiftRight.hShiftRight, Nat.repeat]

theorem shiftToTargetExponent_carry (hexp : -1074 ≤ exp) :
    shiftToTargetExponent Format.binary64 (2 ^ 53) exp .exact =
      (ExtendedMantissa.ofMantissaAndAccuracy (2 ^ 52) .exact, exp + 1) := by
  have hlog : (2 ^ 53).log2 = 53 := Nat.log2_two_pow
  have hshift : (max (((2 ^ 53).log2 : Int) + exp - 52) (-1074) - exp).toNat = 1 := by
    rw [hlog]
    omega
  have hcarry := shiftRight_mul (2 ^ 52) 1
  simp only [shiftToTargetExponent, targetExponent_eq, shiftToExponent, hshift]
  exact congrArg (·, exp + 1) hcarry

theorem mantissa_ofMantissaAndAccuracy (mant : Nat) (accuracy : Accuracy) :
    (ExtendedMantissa.ofMantissaAndAccuracy mant accuracy).mantissa = mant := by
  cases accuracy with
  | exact => rfl
  | inexact o => cases o <;> rfl

theorem div_pow_lt (mant k : Nat) (h : mant.log2 ≤ 52 + k) : mant / 2 ^ k < 2 ^ 53 := by
  rw [Nat.div_lt_iff_lt_mul (Nat.two_pow_pos k), ← Nat.pow_add]
  exact Nat.lt_log2_self.trans_le (Nat.pow_le_pow_right Nat.two_pos (by omega))

theorem le_div_pow (hpos : 0 < mant) (h : mant.log2 = 52 + k) : 2 ^ 52 ≤ mant / 2 ^ k := by
  rw [Nat.le_div_iff_mul_le (Nat.two_pow_pos k), ← Nat.pow_add, ← h]
  exact Nat.log2_self_le hpos.ne'

/-- A number is rounded to a multiple of its last place, `k` bits above that of its mantissa. -/
theorem exists_rounded (s : Sign) (accuracy : Accuracy) (hbits : 52 ≤ mant.log2 ∨ exp ≤ -1074)
    (hk : exp + k = max ((mant.log2 : Int) + exp - 52) (-1074))
    (hmax : (mant.log2 : Int) + exp ≤ 1022) :
    ∃ r, mant / 2 ^ k ≤ r ∧ r ≤ mant / 2 ^ k + 1 ∧
      IsCanonical (roundWithAccuracy .binary64 s mant exp accuracy) ∧
      unpackedValue? (roundWithAccuracy .binary64 s mant exp accuracy) =
        some ((s.apply r : ℤ) * (2 : ℚ) ^ (exp + k)) := by
  have hshift : (max ((mant.log2 : Int) + exp - 52) (-1074) - exp).toNat = k := by omega
  have hfirst : shiftToTargetExponent .binary64 mant exp accuracy =
      (ExtendedMantissa.ofMantissaAndAccuracy mant accuracy >>> k, exp + k) := by
    simp only [shiftToTargetExponent, targetExponent_eq, shiftToExponent, hshift]
  obtain ⟨hlow, hhigh⟩ := roundedMantissa_near
    (ExtendedMantissa.ofMantissaAndAccuracy mant accuracy >>> k)
  rw [mantissa_shiftRight, mantissa_ofMantissaAndAccuracy] at hlow hhigh
  have hsmall := div_pow_lt mant k (by omega)
  have hnormal : 2 ^ 52 ≤ mant / 2 ^ k ∨ exp + k = -1074 := by
    by_cases hmin : exp + k = -1074
    · exact .inr hmin
    · have hlog : 0 < mant.log2 := by
        rcases hbits with hfull | hleast <;> omega
      exact .inl (le_div_pow (Nat.pos_of_ne_zero fun h => by simp [h] at hlog) (by omega))
  unfold roundWithAccuracy
  rw [hfirst]
  dsimp only
  generalize (ExtendedMantissa.ofMantissaAndAccuracy mant accuracy >>> k).roundedMantissa = r at *
  refine ⟨r, hlow, hhigh, ?_⟩
  have hexact (m : Nat) : (ExtendedMantissa.ofMantissaAndAccuracy m .exact).mantissa = m := rfl
  by_cases hcarry : r = 2 ^ 53
  · subst hcarry
    rw [shiftToTargetExponent_carry (by omega)]
    dsimp only
    rw [dif_neg (by rw [hexact]; exact (Nat.two_pow_pos 52).ne')]
    refine ⟨⟨by rw [hexact]; decide, by omega, by omega, .inl (by rw [hexact])⟩, ?_⟩
    rw [unpackedValue?, hexact, zpow_add₀ two_ne_zero (exp + k) 1]
    cases s <;> simp [Sign.apply] <;> ring
  · rw [shiftToTargetExponent_small (by omega) (by omega)]
    dsimp only
    by_cases hzero : r = 0
    · rw [dif_pos (by rw [hexact, hzero])]
      refine ⟨trivial, ?_⟩
      rw [hzero]
      cases s <;> simp [unpackedValue?, Sign.apply]
    · rw [dif_neg (by rw [hexact]; exact hzero)]
      exact ⟨⟨by rw [hexact]; omega, by omega, by omega, by rw [hexact]; omega⟩,
        by rw [unpackedValue?, hexact]⟩

theorem log2_add_le {N : Int} (hpos : 0 < mant)
    (hvalue : (mant : ℚ) * (2 : ℚ) ^ exp ≤ (2 : ℚ) ^ N) :
    (mant.log2 : Int) + exp ≤ N := by
  have hlog : (2 : ℚ) ^ mant.log2 ≤ mant := by exact_mod_cast Nat.log2_self_le hpos.ne'
  have hle : (2 : ℚ) ^ ((mant.log2 : Int) + exp) ≤ (2 : ℚ) ^ N := by
    rw [zpow_add₀ two_ne_zero, zpow_natCast]
    exact (mul_le_mul_of_nonneg_right hlog (zpow_nonneg two_pos.le _)).trans hvalue
  exact (zpow_le_zpow_iff_right₀ one_lt_two).mp hle

theorem abs_sub_le_of_div {r : Nat} (hlow : mant / 2 ^ k ≤ r) (hhigh : r ≤ mant / 2 ^ k + 1) :
    |(r : ℚ) * 2 ^ k - mant| ≤ 2 ^ k := by
  have hless : mant < (mant / 2 ^ k + 1) * 2 ^ k := by
    rw [Nat.mul_comm]
    exact Nat.lt_mul_div_succ mant (Nat.two_pow_pos k)
  have hmore : mant / 2 ^ k * 2 ^ k ≤ mant := Nat.div_mul_le_self mant (2 ^ k)
  have hlow' := Nat.mul_le_mul_right (2 ^ k) hlow
  have hhigh' := Nat.mul_le_mul_right (2 ^ k) hhigh
  rw [Nat.succ_mul] at hless hhigh'
  have hlow'' : (mant : ℚ) ≤ r * 2 ^ k + 2 ^ k := by
    exact_mod_cast (show mant ≤ r * 2 ^ k + 2 ^ k by omega)
  have hhigh'' : (r : ℚ) * 2 ^ k ≤ mant + 2 ^ k := by
    exact_mod_cast (show r * 2 ^ k ≤ mant + 2 ^ k by omega)
  rw [abs_le]
  constructor <;> linarith

/-- Within the last place of a number as large as `2 ^ N`. -/
def Near (N : Int) (r : UnpackedFloat) (v : ℚ) : Prop :=
  IsCanonical r ∧ ∃ q, unpackedValue? r = some q ∧ |q - v| ≤ (2 : ℚ) ^ (N - 52)

theorem near_roundWithAccuracy (s : Sign) (accuracy : Accuracy) {N : Int}
    (hN : -1022 ≤ N ∧ N ≤ 1022) (hbits : 52 ≤ mant.log2 ∨ exp ≤ -1074)
    (hvalue : (mant : ℚ) * (2 : ℚ) ^ exp ≤ (2 : ℚ) ^ N) :
    Near N (roundWithAccuracy .binary64 s mant exp accuracy)
      ((s.apply mant : ℤ) * (2 : ℚ) ^ exp) := by
  have hlog : (mant.log2 : Int) + exp ≤ N := by
    rcases Nat.eq_zero_or_pos mant with rfl | hpos
    · have hzero : (0 : Nat).log2 = 0 := rfl
      omega
    · exact log2_add_le hpos hvalue
  obtain ⟨k, hk⟩ : ∃ k : Nat, exp + k = max ((mant.log2 : Int) + exp - 52) (-1074) :=
    ⟨(max ((mant.log2 : Int) + exp - 52) (-1074) - exp).toNat, by omega⟩
  obtain ⟨r, hlow, hhigh, hcanonical, hr⟩ := exists_rounded s accuracy hbits hk (by omega)
  refine ⟨hcanonical, _, hr, ?_⟩
  have herror := abs_sub_le_of_div hlow hhigh
  have hscale : (0 : ℚ) < (2 : ℚ) ^ exp := zpow_pos two_pos _
  have hexp : (2 : ℚ) ^ (exp + k) = 2 ^ k * (2 : ℚ) ^ exp := by
    rw [zpow_add₀ two_ne_zero, zpow_natCast, mul_comm]
  have hplace : (2 : ℚ) ^ (exp + k) ≤ (2 : ℚ) ^ (N - 52) :=
    zpow_le_zpow_right₀ one_lt_two.le (by omega)
  calc |((s.apply r : ℤ) : ℚ) * (2 : ℚ) ^ (exp + k) - (s.apply mant : ℤ) * (2 : ℚ) ^ exp|
      = |(r : ℚ) * 2 ^ k - mant| * (2 : ℚ) ^ exp := by
        rw [hexp, ← abs_of_pos hscale, ← abs_mul, abs_of_pos hscale]
        cases s
        · rw [← abs_neg]
          congr 1
          simp [Sign.apply]
          ring
        · congr 1
          simp [Sign.apply]
          ring
    _ ≤ 2 ^ k * (2 : ℚ) ^ exp := mul_le_mul_of_nonneg_right herror hscale.le
    _ ≤ (2 : ℚ) ^ (N - 52) := hexp ▸ hplace

theorem apply_shiftLeft (s : Sign) (mant j : Nat) (exp : Int) :
    ((s.apply (mant <<< j : Nat) : ℤ) : ℚ) * (2 : ℚ) ^ (exp - j) =
      (s.apply mant : ℤ) * (2 : ℚ) ^ exp := by
  have hscaled : (mant : ℚ) * 2 ^ j * (2 : ℚ) ^ (exp - j) = mant * (2 : ℚ) ^ exp := by
    rw [zpow_sub₀ two_ne_zero, zpow_natCast, mul_assoc,
      mul_div_cancel₀ _ (pow_ne_zero j two_ne_zero)]
  rw [Nat.shiftLeft_eq]
  cases s <;> simp [Sign.apply, hscaled]

/-- A mantissa is first given as many bits as there may be. -/
theorem near_round (s : Sign) (mant : Nat) (exp : Int) {N : Int} (hN : -1022 ≤ N ∧ N ≤ 1022)
    (hpos : 0 < mant)
    (hvalue : (mant : ℚ) * (2 : ℚ) ^ exp ≤ (2 : ℚ) ^ N) :
    Near N (UnpackedFloat.round .binary64 s mant exp) ((s.apply mant : ℤ) * (2 : ℚ) ^ exp) := by
  simp only [UnpackedFloat.round, targetExponent_eq, decreaseExponent]
  generalize hj : (exp - max ((mant.log2 : Int) + exp - 52) (-1074)).toNat = j
  have hlog : (mant <<< j).log2 = mant.log2 + j := by
    rw [Nat.shiftLeft_eq]
    exact log2_mul_pow hpos j
  rw [← apply_shiftLeft s mant j exp]
  apply near_roundWithAccuracy s .exact hN
  · rw [hlog]
    omega
  · exact (apply_shiftLeft .positive mant j exp).trans_le hvalue

theorem near_normalize (m : Int) (zero : Sign) {N : Int} (hN : -1022 ≤ N ∧ N ≤ 1022)
    (hvalue : |(m : ℚ) * (2 : ℚ) ^ exp| ≤ (2 : ℚ) ^ N) :
    Near N (UnpackedFloat.normalize .binary64 m exp zero) ((m : ℚ) * (2 : ℚ) ^ exp) := by
  have hscale : (0 : ℚ) < (2 : ℚ) ^ exp := zpow_pos two_pos _
  rw [abs_mul, abs_of_pos hscale] at hvalue
  rcases lt_trichotomy m 0 with hm | rfl | hm
  · have hnat : (((-m).toNat : Int)) = -m := Int.toNat_of_nonneg (by omega)
    have hcast : (((-m).toNat : Nat) : ℚ) = |(m : ℚ)| := by
      rw [abs_of_neg (by exact_mod_cast hm)]
      exact_mod_cast hnat
    have hround := near_round .negative (-m).toNat exp hN (by omega)
      (by rwa [hcast])
    rw [Sign.apply, hnat, neg_neg] at hround
    rwa [UnpackedFloat.normalize, Int.compare_eq_lt.mpr hm]
  · refine ⟨trivial, 0, rfl, ?_⟩
    simpa using zpow_nonneg two_pos.le _
  · have hnat : ((m.toNat : Int)) = m := Int.toNat_of_nonneg hm.le
    have hcast : ((m.toNat : Nat) : ℚ) = |(m : ℚ)| := by
      rw [abs_of_pos (by exact_mod_cast hm)]
      exact_mod_cast hnat
    have hround := near_round .positive m.toNat exp hN (by omega)
      (by rwa [hcast])
    rw [Sign.apply, hnat] at hround
    rwa [UnpackedFloat.normalize, Int.compare_eq_gt.mpr hm]

end

end StatesLanguage.Binary
