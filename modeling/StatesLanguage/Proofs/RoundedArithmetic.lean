import StatesLanguage.Proofs.Rounding

/-!
# Arithmetic with rounding

A difference, product or quotient of floating numbers is off by the last place of a number as large
at most, or by two for a quotient. What is left of a whole number is nothing at all, or enough to be
divided again.
-/

namespace StatesLanguage.Binary

open Float.Model UnpackedFloat

/-! ## Arithmetic -/

section

variable {x y z : Float} {a b : ℚ} {N : Int}

theorem value?_of_near {r : UnpackedFloat} {v : ℚ} (h : Near N r v)
    (hz : z.toModel = Float.Model.pack r) :
    ∃ c, value? z = some c ∧ |c - v| ≤ (2 : ℚ) ^ (N - 52) := by
  obtain ⟨hcanonical, c, hc, herror⟩ := h
  refine ⟨c, ?_, herror⟩
  rw [value?_eq, hz, unpack_pack hcanonical, hc]

theorem unpack_cases (h : value? x = some a) :
    (∃ s, x.toModel.unpack = .zero s ∧ a = 0) ∨
      ∃ s mant exp, ∃ hpos : 0 < mant, x.toModel.unpack = .finite s mant exp hpos ∧
        a = (s.apply mant : ℤ) * (2 : ℚ) ^ exp := by
  rw [value?_eq] at h
  cases hx : x.toModel.unpack with
  | zero s =>
    rw [hx] at h
    cases h
    exact .inl ⟨s, rfl, rfl⟩
  | finite s mant exp hpos =>
    rw [hx] at h
    cases h
    exact .inr ⟨s, mant, exp, hpos, rfl, rfl⟩
  | infinity s =>
    rw [hx] at h
    cases h
  | notANumber =>
    rw [hx] at h
    cases h

theorem decreaseExponent_value (s : Sign) (mant : Nat) {exp target : Int} (h : target ≤ exp) :
    ((s.apply (decreaseExponent mant exp target).1 : ℤ) : ℚ) * (2 : ℚ) ^ target =
      (s.apply mant : ℤ) * (2 : ℚ) ^ exp := by
  have htarget : exp - ((exp - target).toNat : Int) = target := by omega
  have hshift := apply_shiftLeft s mant (exp - target).toNat exp
  rwa [htarget] at hshift

theorem near_sub {r r' : UnpackedFloat} (hr : IsCanonical r) (hr' : IsCanonical r')
    (ha : unpackedValue? r = some a) (hb : unpackedValue? r' = some b)
    (hN : -1022 ≤ N ∧ N ≤ 1022) (h : |a - b| ≤ (2 : ℚ) ^ N) :
    Near N (UnpackedFloat.sub .binary64 r r') (a - b) := by
  have hexact {v w : ℚ} (hvw : v = w) : |v - w| ≤ (2 : ℚ) ^ (N - 52) := by
    rw [hvw, sub_self, abs_zero]
    exact zpow_nonneg two_pos.le _
  cases r with
  | zero s =>
    cases ha
    cases r' with
    | zero s' =>
      cases hb
      cases s <;> cases s' <;> exact ⟨trivial, 0, rfl, hexact (sub_zero 0).symm⟩
    | finite s' mant' exp' hpos' =>
      cases hb
      refine ⟨hr', _, rfl, hexact ?_⟩
      cases s' <;> simp [Sign.apply]
    | infinity s' => cases hb
    | notANumber => cases hb
  | finite s mant exp hpos =>
    cases ha
    cases r' with
    | zero s' =>
      cases hb
      exact ⟨hr, _, rfl, hexact (sub_zero _).symm⟩
    | finite s' mant' exp' hpos' =>
      cases hb
      have hsame := decreaseExponent_value s mant (min_le_left exp exp')
      have hsame' := decreaseExponent_value s' mant' (min_le_right exp exp')
      have hdiff : ((s.apply (decreaseExponent mant exp (min exp exp')).1 -
          s'.apply (decreaseExponent mant' exp' (min exp exp')).1 : ℤ) : ℚ) *
            (2 : ℚ) ^ min exp exp' =
          (s.apply mant : ℤ) * (2 : ℚ) ^ exp - (s'.apply mant' : ℤ) * (2 : ℚ) ^ exp' := by
        rw [Int.cast_sub, sub_mul, hsame, hsame']
      have hnear := near_normalize _ .positive hN (by rwa [hdiff])
      rwa [hdiff] at hnear
    | infinity s' => cases hb
    | notANumber => cases hb
  | infinity s => cases ha
  | notANumber => cases ha

theorem near_mul {r r' : UnpackedFloat} (hr : IsCanonical r) (hr' : IsCanonical r')
    (ha : unpackedValue? r = some a) (hb : unpackedValue? r' = some b)
    (hN : -1022 ≤ N ∧ N ≤ 1022) (h : |a * b| ≤ (2 : ℚ) ^ N) :
    Near N (UnpackedFloat.mul .binary64 r r') (a * b) := by
  have hzero {v : ℚ} (s : Sign) (hv : v = 0) : Near N (.zero s) v := by
    refine ⟨trivial, 0, rfl, ?_⟩
    rw [hv, sub_self, abs_zero]
    exact zpow_nonneg two_pos.le _
  cases r with
  | zero s =>
    cases ha
    cases r' with
    | zero s' =>
      cases hb
      exact hzero _ (zero_mul 0)
    | finite s' mant' exp' hpos' =>
      cases hb
      exact hzero _ (zero_mul _)
    | infinity s' => cases hb
    | notANumber => cases hb
  | finite s mant exp hpos =>
    cases ha
    cases r' with
    | zero s' =>
      cases hb
      exact hzero _ (mul_zero _)
    | finite s' mant' exp' hpos' =>
      cases hb
      obtain ⟨-, -, -, hnormal⟩ := hr
      obtain ⟨-, -, -, hnormal'⟩ := hr'
      have hbits : 52 ≤ (mant * mant').log2 ∨ exp + exp' ≤ -1074 := by
        have hfull (hle : 2 ^ 52 ≤ mant * mant') : 52 ≤ (mant * mant').log2 :=
          (Nat.le_log2 (Nat.mul_pos hpos hpos').ne').mpr hle
        rcases hnormal with hlarge | hleast
        · exact .inl (hfull (hlarge.trans (Nat.le_mul_of_pos_right _ hpos')))
        · rcases hnormal' with hlarge | hleast'
          · exact .inl (hfull (hlarge.trans (Nat.le_mul_of_pos_left _ hpos)))
          · exact .inr (by omega)
      have hproduct : (s.apply mant : ℤ) * (2 : ℚ) ^ exp * ((s'.apply mant' : ℤ) * (2 : ℚ) ^ exp') =
          ((s * s').apply (mant * mant' : Nat) : ℤ) * (2 : ℚ) ^ (exp + exp') := by
        rw [zpow_add₀ two_ne_zero]
        cases s <;> cases s' <;> simp [Sign.apply] <;> ring
      rw [hproduct, abs_apply] at h
      rw [hproduct]
      exact near_roundWithAccuracy _ .exact hN hbits h
    | infinity s' => cases hb
    | notANumber => cases hb
  | infinity s => cases ha
  | notANumber => cases ha

theorem divCore_eq (mant mant' : Nat) (exp exp' : Int) :
    ∃ (j : Nat) (accuracy : Accuracy), divCore .binary64 mant exp mant' exp' =
        (mant * 2 ^ j / mant', exp - exp' - j, accuracy) ∧
      exp - exp' - j = min (exp - exp')
        (max ((mant.log2 : Int) + exp - (mant'.log2 + exp') - 53) (-1074)) := by
  have hmin : Format.binary64.minExponent = -1074 := rfl
  have hbits : Format.binary64.mantissaBits = 53 := rfl
  have htarget :
      Format.binary64.targetExponent (totalExponent mant exp - totalExponent mant' exp') =
        max ((mant.log2 : Int) + exp - (mant'.log2 + exp') - 53) (-1074) := by
    rw [Format.targetExponent, totalExponent, totalExponent, hmin, hbits]
    omega
  generalize htarget' : min (exp - exp')
    (max ((mant.log2 : Int) + exp - (mant'.log2 + exp') - 53) (-1074)) = target
  refine ⟨(exp - exp' - target).toNat, accuracyOfFraction
    ((mant <<< (exp - exp' - target).toNat) % mant') mant', ?_, by omega⟩
  rw [divCore, htarget, htarget', ← Nat.shiftLeft_eq]
  congr 2
  omega

section

variable {s s' : Sign} {mant mant' j : Nat} {exp exp' last : Int}

theorem div_eq_scaled (s s' : Sign) (mant : Nat) (hpos' : 0 < mant')
    (hlast : exp - exp' - j = last) :
    ((s.apply mant : ℤ) : ℚ) * (2 : ℚ) ^ exp / ((s'.apply mant' : ℤ) * (2 : ℚ) ^ exp') =
      ((s / s').apply 1 : ℤ) * ((mant * 2 ^ j : Nat) / mant' : ℚ) * (2 : ℚ) ^ last := by
  have hpow : (2 : ℚ) ^ exp = (2 : ℚ) ^ last * 2 ^ j * (2 : ℚ) ^ exp' := by
    rw [← zpow_natCast, ← zpow_add₀ two_ne_zero, ← zpow_add₀ two_ne_zero]
    congr 1
    omega
  have hne : (mant' : ℚ) ≠ 0 := by exact_mod_cast hpos'.ne'
  have hscale : (2 : ℚ) ^ exp' ≠ 0 := zpow_ne_zero _ two_ne_zero
  have hsign : (((s / s').apply 1 : ℤ) : ℚ) = (s.apply 1 : ℤ) * (s'.apply 1 : ℤ) := by
    cases s <;> cases s' <;> exact_mod_cast rfl
  rw [hpow, apply_eq_mul, apply_eq_mul s', hsign]
  cases s' <;> simp [Sign.apply] <;> field_simp

theorem log2_add_le_of_div {N : Int} (hpos : 0 < mant) (hpos' : 0 < mant')
    (h : ((mant * 2 ^ j : Nat) / mant' : ℚ) * (2 : ℚ) ^ last ≤ (2 : ℚ) ^ N) :
    (mant.log2 : Int) + j + last < N + (mant'.log2 + 1) := by
  have hmant : (2 : ℚ) ^ mant.log2 ≤ mant := by exact_mod_cast Nat.log2_self_le hpos.ne'
  have hmant' : (mant' : ℚ) < 2 ^ (mant'.log2 + 1) := by exact_mod_cast Nat.lt_log2_self
  rw [div_mul_eq_mul_div, div_le_iff₀ (by exact_mod_cast hpos')] at h
  apply (zpow_lt_zpow_iff_right₀ (one_lt_two : (1 : ℚ) < 2)).mp
  calc (2 : ℚ) ^ ((mant.log2 : Int) + j + last)
      = 2 ^ mant.log2 * 2 ^ j * (2 : ℚ) ^ last := by
        rw [zpow_add₀ two_ne_zero, zpow_add₀ two_ne_zero, zpow_natCast, zpow_natCast]
    _ ≤ (mant * 2 ^ j : Nat) * (2 : ℚ) ^ last := by
        push_cast
        gcongr
    _ ≤ (2 : ℚ) ^ N * mant' := h
    _ < (2 : ℚ) ^ N * 2 ^ (mant'.log2 + 1) := by gcongr
    _ = (2 : ℚ) ^ (N + (mant'.log2 + 1)) := by
        rw [zpow_add₀ two_ne_zero]
        norm_cast

theorem le_log2_quotient (hpos : 0 < mant) (hpos' : 0 < mant')
    (hbits : mant'.log2 + 53 ≤ mant.log2 + j) : 52 ≤ (mant * 2 ^ j / mant').log2 := by
  have hfull : 2 ^ 52 ≤ mant * 2 ^ j / mant' := by
    rw [Nat.le_div_iff_mul_le hpos']
    calc 2 ^ 52 * mant' ≤ 2 ^ 52 * 2 ^ (mant'.log2 + 1) :=
        Nat.mul_le_mul_left _ Nat.lt_log2_self.le
      _ = 2 ^ (52 + (mant'.log2 + 1)) := (Nat.pow_add 2 52 _).symm
      _ ≤ 2 ^ (mant.log2 + j) := Nat.pow_le_pow_right Nat.two_pos (by omega)
      _ = 2 ^ mant.log2 * 2 ^ j := Nat.pow_add 2 _ _
      _ ≤ mant * 2 ^ j := Nat.mul_le_mul_right _ (Nat.log2_self_le hpos.ne')
  exact (Nat.le_log2 (by omega)).mpr hfull

theorem abs_quotient_sub_le (hpos' : 0 < mant') :
    |((mant * 2 ^ j / mant' : Nat) : ℚ) - (mant * 2 ^ j : Nat) / mant'| ≤ 1 := by
  have hlow : ((mant * 2 ^ j / mant' : Nat) : ℚ) ≤ (mant * 2 ^ j : Nat) / mant' := Nat.cast_div_le
  have hhigh : ((mant * 2 ^ j : Nat) / mant' : ℚ) ≤ (mant * 2 ^ j / mant' : Nat) + 1 := by
    rw [div_le_iff₀ (by exact_mod_cast hpos')]
    exact_mod_cast (Nat.lt_mul_div_succ (mant * 2 ^ j) hpos').le.trans_eq (Nat.mul_comm _ _)
  rw [abs_le]
  constructor <;> linarith

end

/-- The quotient of the mantissas is cut off, which may cost as much again. -/
theorem near_div {r : UnpackedFloat} (s' : Sign) {mant' : Nat} {exp' : Int} (hpos' : 0 < mant')
    (ha : unpackedValue? r = some a) (hb : b = (s'.apply mant' : ℤ) * (2 : ℚ) ^ exp')
    (hN : -1022 ≤ N ∧ N ≤ 1022) (h : |a / b| ≤ (2 : ℚ) ^ N) :
    ∃ v, |v - a / b| ≤ (2 : ℚ) ^ (N - 52) ∧
      Near N (UnpackedFloat.div .binary64 r (.finite s' mant' exp' hpos')) v := by
  have hplace : (0 : ℚ) ≤ (2 : ℚ) ^ (N - 52) := zpow_nonneg two_pos.le _
  cases r with
  | zero s =>
    cases ha
    exact ⟨0, by simpa using hplace, trivial, 0, rfl, by simpa using hplace⟩
  | finite s mant exp hpos =>
    cases ha
    obtain ⟨j, accuracy, hcore, htarget⟩ := divCore_eq mant mant' exp exp'
    have hdiv : UnpackedFloat.div .binary64 (.finite s mant exp hpos)
          (.finite s' mant' exp' hpos') =
        roundWithAccuracy .binary64 (s / s') (divCore .binary64 mant exp mant' exp').1
          (divCore .binary64 mant exp mant' exp').2.1
          (divCore .binary64 mant exp mant' exp').2.2 := rfl
    rw [hdiv, hcore]
    dsimp only
    generalize hlast : exp - exp' - j = last at *
    have hquotient := div_eq_scaled s s' mant hpos' hlast
    have hscale : (0 : ℚ) < (2 : ℚ) ^ last := zpow_pos two_pos _
    have hone : |(((s / s').apply 1 : ℤ) : ℚ)| = 1 := by
      cases s <;> cases s' <;> exact_mod_cast rfl
    rw [hb, hquotient, abs_mul, abs_mul, hone, one_mul, abs_of_nonneg (by positivity),
      abs_of_pos hscale] at h
    have hlog := log2_add_le_of_div hpos hpos' h
    refine ⟨((s / s').apply (mant * 2 ^ j / mant' : Nat) : ℤ) * (2 : ℚ) ^ last, ?_, ?_⟩
    · rw [hb, hquotient, apply_eq_mul, ← sub_mul, ← mul_sub, abs_mul, abs_mul, hone, one_mul,
        abs_of_pos hscale]
      exact (mul_le_of_le_one_left hscale.le (abs_quotient_sub_le hpos')).trans
        (zpow_le_zpow_right₀ one_lt_two.le (by omega))
    · apply near_roundWithAccuracy _ _ hN
      · by_cases hleast : last ≤ -1074
        · exact .inr hleast
        · exact .inl (le_log2_quotient hpos hpos' (by omega))
      · exact (mul_le_mul_of_nonneg_right Nat.cast_div_le hscale.le).trans h
  | infinity s => cases ha
  | notANumber => cases ha

theorem value?_sub (hx : value? x = some a) (hy : value? y = some b) (hN : -1022 ≤ N ∧ N ≤ 1022)
    (h : |a - b| ≤ (2 : ℚ) ^ N) :
    ∃ c, value? (x - y) = some c ∧ |c - (a - b)| ≤ (2 : ℚ) ^ (N - 52) := by
  rw [value?_eq] at hx hy
  exact value?_of_near (near_sub (isCanonical_unpack _) (isCanonical_unpack _) hx hy hN h) rfl

theorem value?_mul (hx : value? x = some a) (hy : value? y = some b) (hN : -1022 ≤ N ∧ N ≤ 1022)
    (h : |a * b| ≤ (2 : ℚ) ^ N) :
    ∃ c, value? (x * y) = some c ∧ |c - a * b| ≤ (2 : ℚ) ^ (N - 52) := by
  rw [value?_eq] at hx hy
  exact value?_of_near (near_mul (isCanonical_unpack _) (isCanonical_unpack _) hx hy hN h) rfl

theorem value?_div (hx : value? x = some a) (hy : value? y = some b) (hb : b ≠ 0)
    (hN : -1022 ≤ N ∧ N ≤ 1022) (h : |a / b| ≤ (2 : ℚ) ^ N) :
    ∃ c, value? (x / y) = some c ∧ |c - a / b| ≤ 2 * (2 : ℚ) ^ (N - 52) := by
  rcases unpack_cases hy with ⟨s, -, rfl⟩ | ⟨s, mant, exp, hpos, hyu, hvalue⟩
  · exact absurd rfl hb
  · rw [value?_eq] at hx
    obtain ⟨v, hv, hnear⟩ := near_div s hpos hx hvalue hN h
    have hmodel : (x / y).toModel = Float.Model.pack
        (UnpackedFloat.div .binary64 x.toModel.unpack y.toModel.unpack) := rfl
    obtain ⟨c, hc, herror⟩ := value?_of_near hnear (by rw [hmodel, hyu])
    refine ⟨c, hc, (abs_sub_le c v (a / b)).trans ?_⟩
    linarith

end

/-! ## Fractions -/

section

variable {num den : Nat}

theorem roundDiv_cases (num den : Nat) :
    roundDiv num den = num / den ∧ 2 * (num % den) ≤ den ∨
      roundDiv num den = num / den + 1 ∧ den ≤ 2 * (num % den) := by
  unfold roundDiv
  dsimp only
  split
  · exact .inl ⟨rfl, by omega⟩
  · split
    · exact .inr ⟨rfl, by omega⟩
    · split
      · exact .inl ⟨rfl, by omega⟩
      · exact .inr ⟨rfl, by omega⟩

theorem abs_roundDiv_sub_le (num : Nat) (hden : 0 < den) :
    |(roundDiv num den : ℚ) - num / den| ≤ 1 / 2 := by
  have hpos : (0 : ℚ) < den := by exact_mod_cast hden
  have hnum : (num : ℚ) = (num / den : Nat) * den + (num % den : Nat) := by
    exact_mod_cast (Nat.div_add_mod' num den).symm
  have hquotient : (num : ℚ) / den = (num / den : Nat) + (num % den : Nat) / den := by
    rw [div_eq_iff hpos.ne', add_mul, div_mul_cancel₀ _ hpos.ne', ← hnum]
  have hrest : (0 : ℚ) ≤ (num % den : Nat) / den := by positivity
  rw [hquotient, abs_le]
  rcases roundDiv_cases num den with ⟨hround, hhalf⟩ | ⟨hround, hhalf⟩
  · have hless : ((num % den : Nat) : ℚ) / den ≤ 1 / 2 := by
      rw [div_le_iff₀ hpos]
      have hcast : (2 : ℚ) * (num % den : Nat) ≤ den := by exact_mod_cast hhalf
      linarith
    rw [hround]
    constructor <;> linarith
  · have hmore : (1 : ℚ) / 2 ≤ (num % den : Nat) / den := by
      rw [le_div_iff₀ hpos]
      have hcast : (den : ℚ) ≤ 2 * (num % den : Nat) := by exact_mod_cast hhalf
      linarith
    have hlast : ((num % den : Nat) : ℚ) / den ≤ 1 := by
      rw [div_le_one hpos]
      exact_mod_cast (Nat.mod_lt num hden).le
    rw [hround, Nat.cast_add, Nat.cast_one]
    constructor <;> linarith

theorem roundDiv_eq_of_near {n : Nat} (hden : 0 < den) (h : |(num : ℚ) / den - n| < 1 / 2) :
    roundDiv num den = n := by
  have hnear := abs_roundDiv_sub_le num hden
  have hsum := abs_sub_le (roundDiv num den : ℚ) (num / den) n
  have hlt : |((roundDiv num den : Int) - (n : Int) : ℚ)| < 1 := by
    push_cast
    linarith
  have hzero : (roundDiv num den : Int) - n = 0 := by
    rw [← Int.abs_lt_one_iff]
    exact_mod_cast hlt
  omega

theorem value?_assemble {mant : Nat} {exp : Int} (hlow : 2 ^ 52 ≤ mant) (hhigh : mant ≤ 2 ^ 53)
    (hmin : -1074 ≤ exp) (hmax : exp < 971) :
    value? (assemble false mant exp) = some (mant * (2 : ℚ) ^ exp) := by
  have hratio (m : Nat) (e : Int) := div_ratio .positive m e
  rcases hhigh.lt_or_eq with hless | rfl
  · unfold value? ratio?
    rw [ofFloat_assemble hlow hless hmin (by omega)]
    exact congrArg some (hratio mant exp)
  · unfold value? ratio?
    have hcarry := assemble_carry exp
    rw [Nat.pow_eq] at hcarry
    rw [hcarry, ofFloat_assemble le_rfl (by decide) (by omega) (by omega)]
    refine congrArg some ((hratio _ (exp + 1)).trans ?_)
    rw [zpow_add₀ two_ne_zero]
    norm_num [Sign.apply]
    ring

/-- The mantissa that a fraction has under an exponent, rounded. -/
def mantissaUnder (num den : Nat) (exp : Int) : Nat :=
  if exp < 0 then roundDiv (num * Nat.pow 2 exp.natAbs) den
  else roundDiv num (den * Nat.pow 2 exp.natAbs)

theorem abs_mantissaUnder_sub_le (num : Nat) (hden : 0 < den) (exp : Int) :
    |(mantissaUnder num den exp : ℚ) - num / den * (2 : ℚ) ^ (-exp)| ≤ 1 / 2 := by
  unfold mantissaUnder
  split
  · have hexp : -exp = (exp.natAbs : Int) := by omega
    have hnear := abs_roundDiv_sub_le (num * Nat.pow 2 exp.natAbs) hden
    rw [Nat.cast_mul, Nat.pow_eq, Nat.cast_pow, mul_div_right_comm] at hnear
    rw [hexp, zpow_natCast]
    exact_mod_cast hnear
  · have hexp : exp = (exp.natAbs : Int) := by omega
    have hnear := abs_roundDiv_sub_le num (Nat.mul_pos hden (Nat.two_pow_pos exp.natAbs))
    rw [Nat.cast_mul, Nat.cast_pow, ← div_div, div_eq_mul_inv _ (_ ^ _)] at hnear
    rw [zpow_neg, hexp, zpow_natCast, Int.natAbs_natCast]
    exact_mod_cast hnear

theorem mantissaUnder_le (num : Nat) (exp : Int) (hden : 0 < den)
    (hhigh : num / den * (2 : ℚ) ^ (-exp) ≤ (2 : ℚ) ^ 53) : mantissaUnder num den exp ≤ 2 ^ 53 := by
  have hnear := abs_le.mp (abs_mantissaUnder_sub_le num hden exp)
  have hless : (mantissaUnder num den exp : ℚ) < 2 ^ 53 + 1 := by linarith
  have hnat : mantissaUnder num den exp < 2 ^ 53 + 1 := by exact_mod_cast hless
  omega

theorem value?_assemble_mantissaUnder {exp : Int} (hden : 0 < den)
    (hlow : (2 : ℚ) ^ 52 ≤ num / den * (2 : ℚ) ^ (-exp))
    (hhigh : mantissaUnder num den exp ≤ 2 ^ 53) (hmin : -1074 ≤ exp) (hmax : exp < 971) :
    ∃ q, value? (assemble false (mantissaUnder num den exp) exp) = some q ∧
      |q - num / den| ≤ (2 : ℚ) ^ (exp - 1) := by
  have hnear := abs_mantissaUnder_sub_le num hden exp
  have hscale : (0 : ℚ) < (2 : ℚ) ^ exp := zpow_pos two_pos _
  have hback : (num : ℚ) / den = num / den * (2 : ℚ) ^ (-exp) * (2 : ℚ) ^ exp := by
    rw [mul_assoc, ← zpow_add₀ two_ne_zero, neg_add_cancel, zpow_zero, mul_one]
  have hhalf : (2 : ℚ) ^ (exp - 1) = 1 / 2 * (2 : ℚ) ^ exp := by
    rw [zpow_sub₀ two_ne_zero, zpow_one, div_eq_inv_mul, one_div]
  generalize num / den * (2 : ℚ) ^ (-exp) = scaled at *
  have hleast : 2 ^ 52 ≤ mantissaUnder num den exp := by
    have hless : (2 ^ 52 : ℚ) < mantissaUnder num den exp + 1 := by linarith [abs_le.mp hnear]
    have hnat : 2 ^ 52 < mantissaUnder num den exp + 1 := by exact_mod_cast hless
    omega
  refine ⟨_, value?_assemble hleast hhigh hmin hmax, ?_⟩
  rw [hback, ← sub_mul, abs_mul, abs_of_pos hscale, hhalf]
  exact mul_le_mul_of_nonneg_right hnear hscale.le

theorem ofRatio_eq (hnum : 0 < num) (hden : 0 < den) {low : Int}
    (hlow : max ((num.log2 : Int) - den.log2 - 53) (-1074) = low) :
    ofRatio false num den = if mantissaUnder num den low ≤ 2 ^ 53
      then assemble false (mantissaUnder num den low) low
      else assemble false (mantissaUnder num den (low + 1)) (low + 1) := by
  subst hlow
  unfold ofRatio
  rw [if_neg (by omega)]
  rfl

theorem zpow_log2_le (hnum : 0 < num) : (2 : ℚ) ^ (num.log2 : Int) ≤ num := by
  exact_mod_cast Nat.log2_self_le hnum.ne'

theorem lt_zpow_log2 (num : Nat) : (num : ℚ) < (2 : ℚ) ^ ((num.log2 : Int) + 1) := by
  exact_mod_cast Nat.lt_log2_self

/-- A quotient has as many bits as its terms differ by, or one more. -/
theorem lt_div_of_log2 (hnum : 0 < num) (hden : 0 < den) {n : Int}
    (hn : n + den.log2 + 1 ≤ num.log2) : (2 : ℚ) ^ n < num / den := by
  rw [lt_div_iff₀ (by exact_mod_cast hden)]
  calc (2 : ℚ) ^ n * den
      < (2 : ℚ) ^ n * (2 : ℚ) ^ ((den.log2 : Int) + 1) := by
        gcongr
        exact lt_zpow_log2 den
    _ = (2 : ℚ) ^ (n + den.log2 + 1) := by
        rw [← zpow_add₀ two_ne_zero, add_assoc]
    _ ≤ (2 : ℚ) ^ (num.log2 : Int) := zpow_le_zpow_right₀ one_lt_two.le hn
    _ ≤ num := zpow_log2_le hnum

theorem div_le_of_log2 (hden : 0 < den) {n : Int} (hn : num.log2 + 1 ≤ n + den.log2) :
    (num : ℚ) / den ≤ (2 : ℚ) ^ n := by
  rw [div_le_iff₀ (by exact_mod_cast hden)]
  calc (num : ℚ) ≤ (2 : ℚ) ^ ((num.log2 : Int) + 1) := (lt_zpow_log2 num).le
    _ ≤ (2 : ℚ) ^ (n + den.log2) := zpow_le_zpow_right₀ one_lt_two.le hn
    _ = (2 : ℚ) ^ n * (2 : ℚ) ^ (den.log2 : Int) := zpow_add₀ two_ne_zero _ _
    _ ≤ (2 : ℚ) ^ n * den := by
        gcongr
        exact zpow_log2_le hden

theorem zpow_le_mul_neg {x : ℚ} {n : Int} (exp : Int) (h : (2 : ℚ) ^ n ≤ x) :
    (2 : ℚ) ^ (n - exp) ≤ x * (2 : ℚ) ^ (-exp) := by
  rw [sub_eq_add_neg, zpow_add₀ two_ne_zero]
  exact mul_le_mul_of_nonneg_right h (zpow_pos two_pos _).le

theorem mul_neg_le_zpow {x : ℚ} {n : Int} (exp : Int) (h : x ≤ (2 : ℚ) ^ n) :
    x * (2 : ℚ) ^ (-exp) ≤ (2 : ℚ) ^ (n - exp) := by
  rw [sub_eq_add_neg, zpow_add₀ two_ne_zero]
  exact mul_le_mul_of_nonneg_right h (zpow_pos two_pos _).le

theorem value?_ofRatio {N : Nat} (hnum : 0 < num) (hden : 0 < den) (hnum' : num < 2 ^ 200)
    (hden' : den < 2 ^ 200) (h : (num : ℚ) / den ≤ (2 : ℚ) ^ N) :
    ∃ q, value? (ofRatio false num den) = some q ∧
      |q - num / den| ≤ (2 : ℚ) ^ ((N : Int) - 53) := by
  have hlog : num.log2 < 200 := (Nat.log2_lt hnum.ne').mpr hnum'
  have hlog' : den.log2 < 200 := (Nat.log2_lt hden.ne').mpr hden'
  generalize hlow : max ((num.log2 : Int) - den.log2 - 53) (-1074) = low
  have hleast : (2 : ℚ) ^ (low + 52) < num / den := lt_div_of_log2 hnum hden (by omega)
  have hmost : (num : ℚ) / den ≤ (2 : ℚ) ^ (low + 54) := div_le_of_log2 hden (by omega)
  have hN : low + 52 < N := by
    apply (zpow_lt_zpow_iff_right₀ (one_lt_two : (1 : ℚ) < 2)).mp
    exact_mod_cast hleast.trans_le h
  have hplace {exp : Int} (hexp : exp ≤ low + 1) :
      (2 : ℚ) ^ (exp - 1) ≤ (2 : ℚ) ^ ((N : Int) - 53) :=
    zpow_le_zpow_right₀ one_lt_two.le (by omega)
  rw [ofRatio_eq hnum hden hlow]
  split
  · rename_i hfits
    have hbits : (2 : ℚ) ^ 52 ≤ num / den * (2 : ℚ) ^ (-low) := by
      simpa using zpow_le_mul_neg low hleast.le
    obtain ⟨q, hq, herror⟩ := value?_assemble_mantissaUnder hden hbits hfits (by omega) (by omega)
    exact ⟨q, hq, herror.trans (hplace (by omega))⟩
  · rename_i hcarries
    have hhalf : (num : ℚ) / den * (2 : ℚ) ^ (-(low + 1)) * 2 = num / den * (2 : ℚ) ^ (-low) := by
      rw [neg_add, zpow_add₀ two_ne_zero, zpow_neg_one]
      ring
    have hbits : (2 : ℚ) ^ 52 ≤ num / den * (2 : ℚ) ^ (-(low + 1)) := by
      have hnear := abs_le.mp (abs_mantissaUnder_sub_le num hden low)
      have hmore : (2 : ℚ) ^ 53 + 1 ≤ mantissaUnder num den low := by
        exact_mod_cast Nat.succ_le_of_lt (not_le.mp hcarries)
      linarith
    have hfits : mantissaUnder num den (low + 1) ≤ 2 ^ 53 := by
      have hmul := mul_neg_le_zpow (low + 1) hmost
      rw [show low + 54 - (low + 1) = 53 by ring] at hmul
      exact mantissaUnder_le num (low + 1) hden hmul
    obtain ⟨q, hq, herror⟩ := value?_assemble_mantissaUnder hden hbits hfits (by omega) (by omega)
    exact ⟨q, hq, herror.trans (hplace le_rfl)⟩

end

/-! ## Small differences -/

section

variable {x y : Float} {a b c q : ℚ}

theorem ratio_den_pos (neg : Bool) (mant : Nat) (exp : Int) : 0 < (ratio neg mant exp).2 := by
  unfold ratio
  dsimp only
  split
  · exact Nat.two_pow_pos _
  · exact Nat.one_pos

theorem ratio_of_value? (h : value? x = some q) :
    ∃ num den, ratio? x = some (num, den) ∧ 0 < den ∧ q = num / den := by
  obtain ⟨⟨num, den⟩, hratio, rfl⟩ := Option.map_eq_some_iff.mp h
  refine ⟨num, den, hratio, ?_, rfl⟩
  unfold ratio? at hratio
  split at hratio
  · rename_i neg mant exp _
    have hpos := ratio_den_pos neg mant exp
    rwa [Option.some.inj hratio] at hpos
  · cases hratio

theorem isFinite_of_value? (h : value? x = some q) : isFinite x = true := by
  obtain ⟨num, den, hratio, -⟩ := ratio_of_value? h
  unfold ratio? at hratio
  unfold isFinite
  split at hratio
  · rfl
  · cases hratio

theorem value?_ofInt {n : Nat} (hn : n < 2 ^ 53) : value? (ofInt n) = some (n : ℚ) := by
  obtain ⟨d, hd, hratio⟩ := ratio?_ofInt hn
  have hne : (d : ℚ) ≠ 0 := by exact_mod_cast hd.ne'
  rw [value?, hratio, Option.map_some]
  dsimp only
  rw [Int.cast_natCast, Nat.cast_mul, mul_div_cancel_right₀ _ hne]

/-- Sizes that are far from the ends of what there are floating numbers for. -/
def IsOrdinary (v : ℚ) : Prop := (2 : ℚ) ^ (-1000 : ℤ) ≤ |v| ∧ |v| ≤ (2 : ℚ) ^ (1000 : ℤ)

theorem IsOrdinary.exists_size {v : ℚ} (h : IsOrdinary v) :
    ∃ N : ℤ, (-1022 ≤ N ∧ N ≤ 1022) ∧ |v| ≤ (2 : ℚ) ^ N ∧ 4 * (2 : ℚ) ^ (N - 52) ≤ |v| := by
  have hpos : 0 < |v| := (zpow_pos two_pos _).trans_le h.1
  obtain ⟨n, hlow, hhigh⟩ := exists_mem_Ioc_zpow hpos (one_lt_two : (1 : ℚ) < 2)
  refine ⟨n + 1, ⟨?_, ?_⟩, hhigh, ?_⟩
  · have hleast := (zpow_le_zpow_iff_right₀ (one_lt_two : (1 : ℚ) < 2)).mp (h.1.trans hhigh)
    omega
  · have hmost := (zpow_lt_zpow_iff_right₀ (one_lt_two : (1 : ℚ) < 2)).mp (hlow.trans_le h.2)
    omega
  · have hfour : 4 * (2 : ℚ) ^ (n + 1 - 52) = (2 : ℚ) ^ (n - 49) := by
      rw [show (4 : ℚ) = (2 : ℚ) ^ (2 : ℤ) by norm_num, ← zpow_add₀ two_ne_zero]
      congr 1
      omega
    rw [hfour]
    exact (zpow_le_zpow_right₀ one_lt_two.le (by omega)).trans hlow.le

theorem value?_sub_ordinary (hx : value? x = some a) (hy : value? y = some b)
    (h : IsOrdinary (a - b)) :
    ∃ c, value? (x - y) = some c ∧ |c - (a - b)| ≤ |a - b| / 4 := by
  obtain ⟨N, hN, hsize, hplace⟩ := h.exists_size
  obtain ⟨c, hc, herror⟩ := value?_sub hx hy hN hsize
  exact ⟨c, hc, by linarith⟩

theorem value?_div_ordinary (hx : value? x = some a) (hy : value? y = some b) (hb : b ≠ 0)
    (h : IsOrdinary (a / b)) :
    ∃ c, value? (x / y) = some c ∧ |c - a / b| ≤ |a / b| / 2 := by
  obtain ⟨N, hN, hsize, hplace⟩ := h.exists_size
  obtain ⟨c, hc, herror⟩ := value?_div hx hy hb hN hsize
  exact ⟨c, hc, by linarith⟩

theorem apply_mul_ne_zero (s : Sign) {mant : Nat} (hpos : 0 < mant) (exp : Int) :
    ((s.apply mant : ℤ) : ℚ) * (2 : ℚ) ^ exp ≠ 0 := by
  have hmant : (0 : ℚ) < mant := by exact_mod_cast hpos
  rw [← abs_pos, abs_apply]
  exact mul_pos hmant (zpow_pos two_pos exp)

theorem value?_sub_self (hx : value? x = some a) (hy : value? y = some a) :
    value? (x - y) = some 0 := by
  have hmodel : (x - y).toModel = Float.Model.pack
      (UnpackedFloat.sub .binary64 x.toModel.unpack y.toModel.unpack) := rfl
  suffices hzero : ∃ s, UnpackedFloat.sub .binary64 x.toModel.unpack y.toModel.unpack = .zero s by
    obtain ⟨s, hs⟩ := hzero
    rw [value?_eq, hmodel, hs, unpack_pack (r := .zero s) trivial, unpackedValue?]
  rcases unpack_cases hx with ⟨s, hs, rfl⟩ | ⟨s, mant, exp, hpos, hs, rfl⟩
  · rcases unpack_cases hy with ⟨s', hs', -⟩ | ⟨s', mant', exp', hpos', -, hzero⟩
    · rw [hs, hs']
      cases s <;> cases s' <;> exact ⟨_, rfl⟩
    · exact absurd hzero.symm (apply_mul_ne_zero s' hpos' exp')
  · rcases unpack_cases hy with ⟨s', -, hzero⟩ | ⟨s', mant', exp', hpos', hs', hsame⟩
    · exact absurd hzero (apply_mul_ne_zero s hpos exp)
    · rw [← decreaseExponent_value s mant (min_le_left exp exp'),
        ← decreaseExponent_value s' mant' (min_le_right exp exp')] at hsame
      have hnone := mul_right_cancel₀ (zpow_ne_zero _ two_ne_zero) hsame
      have hdiff : s.apply (decreaseExponent mant exp (min exp exp')).1 -
          s'.apply (decreaseExponent mant' exp' (min exp exp')).1 = 0 := by
        rw [sub_eq_zero]
        exact_mod_cast hnone
      rw [hs, hs']
      refine ⟨.positive, ?_⟩
      unfold UnpackedFloat.sub
      dsimp only
      rw [hdiff]
      rfl

theorem value?_zero_mul (hx : value? x = some 0) (hy : value? y = some b) :
    value? (x * y) = some 0 := by
  have hmodel : (x * y).toModel = Float.Model.pack
      (UnpackedFloat.mul .binary64 x.toModel.unpack y.toModel.unpack) := rfl
  rcases unpack_cases hx with ⟨s, hs, -⟩ | ⟨s, mant, exp, hpos, -, hzero⟩
  · rcases unpack_cases hy with ⟨s', hs', -⟩ | ⟨s', mant', exp', hpos', hs', -⟩
    all_goals
      rw [value?_eq, hmodel, hs, hs', UnpackedFloat.mul, unpack_pack (r := .zero _) trivial]
      rfl
  · exact absurd hzero.symm (apply_mul_ne_zero s hpos exp)

theorem exists_places (hy : value? y = some b) (hb : 1 / 2 ≤ b) :
    ∃ m : ℤ, b = m * (2 : ℚ) ^ (-53 : ℤ) := by
  rcases unpack_cases hy with ⟨s, -, rfl⟩ | ⟨s, mant, exp, hpos, hunpack, rfl⟩
  · norm_num at hb
  · have hcanonical := isCanonical_unpack y.toModel
    rw [hunpack] at hcanonical
    obtain ⟨hmant, -⟩ := hcanonical
    have hhalf : (2 : ℚ) ^ (-1 : ℤ) < (2 : ℚ) ^ (53 + exp) := by
      have hscale : (0 : ℚ) < (2 : ℚ) ^ exp := zpow_pos two_pos _
      have hcast : (mant : ℚ) < (2 : ℚ) ^ (53 : ℤ) := by exact_mod_cast hmant
      calc (2 : ℚ) ^ (-1 : ℤ) ≤ |(s.apply mant : ℤ) * (2 : ℚ) ^ exp| :=
            (by norm_num; linarith : (2 : ℚ) ^ (-1 : ℤ) ≤ _).trans (le_abs_self _)
        _ = mant * (2 : ℚ) ^ exp := abs_apply s mant exp
        _ < (2 : ℚ) ^ (53 : ℤ) * (2 : ℚ) ^ exp := mul_lt_mul_of_pos_right hcast hscale
        _ = (2 : ℚ) ^ (53 + exp) := (zpow_add₀ two_ne_zero _ _).symm
    have hexp := (zpow_lt_zpow_iff_right₀ (one_lt_two : (1 : ℚ) < 2)).mp hhalf
    obtain ⟨k, hk⟩ : ∃ k : ℕ, exp = k + -53 := ⟨(exp + 53).toNat, by omega⟩
    refine ⟨s.apply mant * 2 ^ k, ?_⟩
    rw [hk, zpow_add₀ two_ne_zero, zpow_natCast]
    push_cast
    ring

/-- What is left of a whole number is nothing at all, or not too little to be seen. -/
theorem value?_whole_sub {n : Nat} (hx : value? x = some (n : ℚ)) (hy : value? y = some b)
    (hb : 1 / 2 ≤ b) (hnear : |n - b| ≤ 1) (hc : value? (x - y) = some c) (hpos : 0 < c) :
    (2 : ℚ) ^ (-54 : ℤ) ≤ c := by
  rcases eq_or_ne (n : ℚ) b with rfl | hne
  · rw [value?_sub_self hx hy] at hc
    cases hc
    exact absurd hpos (lt_irrefl 0)
  · obtain ⟨m, hm⟩ := exists_places hy hb
    have hplaces : (n : ℚ) - b = ((n * 2 ^ 53 - m : ℤ) : ℚ) * (2 : ℚ) ^ (-53 : ℤ) := by
      rw [hm]
      push_cast
      norm_num
      ring
    have hsome : (n * 2 ^ 53 - m : ℤ) ≠ 0 := fun h => by
      rw [h, Int.cast_zero, zero_mul] at hplaces
      exact hne (sub_eq_zero.mp hplaces)
    have hone : (1 : ℚ) ≤ |((n * 2 ^ 53 - m : ℤ) : ℚ)| := by exact_mod_cast Int.one_le_abs hsome
    have hleast : (2 : ℚ) ^ (-53 : ℤ) ≤ |(n : ℚ) - b| := by
      rw [hplaces, abs_mul, abs_of_pos (zpow_pos two_pos _ : (0 : ℚ) < (2 : ℚ) ^ (-53 : ℤ))]
      exact le_mul_of_one_le_left (zpow_nonneg two_pos.le _) hone
    have hordinary : IsOrdinary (n - b) := by
      refine ⟨le_trans ?_ hleast, hnear.trans ?_⟩
      · exact zpow_le_zpow_right₀ one_lt_two.le (by norm_num)
      · exact one_le_zpow₀ one_lt_two.le (by norm_num)
    obtain ⟨c', hc', herror⟩ := value?_sub_ordinary hx hy hordinary
    rw [hc] at hc'
    obtain rfl : c = c' := Option.some.inj hc'
    rw [abs_le] at herror
    have hplace : (2 : ℚ) ^ (-53 : ℤ) = 2 * (2 : ℚ) ^ (-54 : ℤ) := by norm_num
    rcases abs_cases ((n : ℚ) - b) with ⟨habs, -⟩ | ⟨habs, -⟩
    · rw [habs] at herror hleast
      linarith
    · rw [habs] at herror hleast
      have := zpow_pos (two_pos : (0 : ℚ) < 2) (-54 : ℤ)
      linarith

end

end StatesLanguage.Binary
