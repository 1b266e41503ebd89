import StatesLanguage.Proofs.Seconds

/-!
# Whole floating numbers

Whole numbers that have no more bits than a mantissa are added, subtracted, multiplied and divided
without rounding.
-/

namespace StatesLanguage.Binary

open Float.Model UnpackedFloat

theorem finite_congr {s s' : Sign} {mant mant' : Nat} {exp exp' : Int} {hpos : 0 < mant}
    {hpos' : 0 < mant'} (hsign : s = s') (hmant : mant = mant') (hexp : exp = exp') :
    UnpackedFloat.finite s mant exp hpos = .finite s' mant' exp' hpos' := by
  subst hsign hmant hexp
  rfl

/-! ## Rounding -/

theorem shiftRight_mul (m shift : Nat) :
    ExtendedMantissa.ofMantissaAndAccuracy (m * 2 ^ shift) .exact >>> shift =
      ExtendedMantissa.ofMantissaAndAccuracy m .exact := by
  change Nat.repeat ExtendedMantissa.shiftRightOne shift _ = _
  induction shift generalizing m with
  | zero => rw [Nat.pow_zero, Nat.mul_one]; rfl
  | succ shift ih =>
    have hpower : m * 2 ^ (shift + 1) = m * 2 * 2 ^ shift := by
      rw [Nat.pow_succ, Nat.mul_right_comm, Nat.mul_assoc]
    rw [Nat.repeat, hpower, ih]
    simp [ExtendedMantissa.shiftRightOne, ExtendedMantissa.ofMantissaAndAccuracy]

section

variable {n : Nat}

def wholeMant (n : Nat) : Nat := n * 2 ^ (52 - n.log2)

def wholeExp (n : Nat) : Int := -((52 - n.log2 : Nat) : Int)

theorem wholeMant_pos (hn : 0 < n) : 0 < wholeMant n :=
  Nat.mul_pos hn (Nat.two_pow_pos _)

def unpackedWhole (n : Nat) : UnpackedFloat :=
  if hn : 0 < n then .finite .positive (wholeMant n) (wholeExp n) (wholeMant_pos hn)
  else .zero .positive

theorem log2_le (hn : 0 < n) (hbound : n < 2 ^ 53) : n.log2 ≤ 52 :=
  Nat.le_of_lt_succ ((Nat.log2_lt hn.ne').mpr hbound)

theorem log2_mul_pow (hn : 0 < n) (k : Nat) : (n * 2 ^ k).log2 = n.log2 + k := by
  have hne : n * 2 ^ k ≠ 0 := (Nat.mul_pos hn (Nat.two_pow_pos k)).ne'
  refine (Nat.log2_eq_iff hne).mpr ⟨?_, ?_⟩
  · rw [Nat.pow_add]
    exact Nat.mul_le_mul_right _ (Nat.log2_self_le hn.ne')
  · rw [show n.log2 + k + 1 = n.log2 + 1 + k by omega, Nat.pow_add]
    exact Nat.mul_lt_mul_of_pos_right Nat.lt_log2_self (Nat.two_pow_pos k)

theorem targetExponent_whole (hn : 0 < n) (hbound : n < 2 ^ 53) (k : Nat) :
    Format.binary64.targetExponent (totalExponent (n * 2 ^ k) (-(k : Int))) = wholeExp n := by
  have hlog := log2_le hn hbound
  have hmin : Format.binary64.minExponent = -1074 := rfl
  have hbits : Format.binary64.mantissaBits = 53 := rfl
  simp only [Format.targetExponent, totalExponent, log2_mul_pow hn, hmin, hbits, wholeExp]
  omega

theorem shiftToTargetExponent_whole (hn : 0 < n) (hbound : n < 2 ^ 53) {k : Nat}
    (hk : 52 - n.log2 ≤ k) :
    shiftToTargetExponent Format.binary64 (n * 2 ^ k) (-(k : Int)) .exact =
      (ExtendedMantissa.ofMantissaAndAccuracy (wholeMant n) .exact, wholeExp n) := by
  obtain ⟨shift, rfl⟩ := Nat.exists_eq_add_of_le hk
  have hshift : (wholeExp n - -((52 - n.log2 + shift : Nat) : Int)).toNat = shift := by
    rw [wholeExp]
    omega
  have hmant : n * 2 ^ (52 - n.log2 + shift) = wholeMant n * 2 ^ shift := by
    rw [Nat.pow_add, ← Nat.mul_assoc, wholeMant]
  have hexp : -((52 - n.log2 + shift : Nat) : Int) + (shift : Int) = wholeExp n := by
    rw [wholeExp]
    omega
  simp only [shiftToTargetExponent, targetExponent_whole hn hbound, shiftToExponent, hshift, hexp]
  rw [hmant, shiftRight_mul]

theorem roundWithAccuracy_whole (hn : 0 < n) (hbound : n < 2 ^ 53) {k : Nat}
    (hk : 52 - n.log2 ≤ k) :
    roundWithAccuracy Format.binary64 .positive (n * 2 ^ k) (-(k : Int)) .exact =
      unpackedWhole n := by
  have hrounded (m : Nat) :
      (ExtendedMantissa.ofMantissaAndAccuracy m .exact).roundedMantissa = m := rfl
  have hagain : shiftToTargetExponent Format.binary64 (wholeMant n) (wholeExp n) .exact =
      (ExtendedMantissa.ofMantissaAndAccuracy (wholeMant n) .exact, wholeExp n) :=
    shiftToTargetExponent_whole hn hbound le_rfl
  have hmant (m : Nat) : (ExtendedMantissa.ofMantissaAndAccuracy m .exact).mantissa = m := rfl
  rw [roundWithAccuracy, shiftToTargetExponent_whole hn hbound hk]
  dsimp only
  rw [hrounded, hagain]
  dsimp only
  rw [unpackedWhole, dif_pos hn]
  exact dif_neg (wholeMant_pos hn).ne'

theorem round_whole (hn : 0 < n) (hbound : n < 2 ^ 53) (k : Nat) :
    UnpackedFloat.round Format.binary64 .positive (n * 2 ^ k) (-(k : Int)) = unpackedWhole n := by
  have hshift : (-(k : Int) - wholeExp n).toNat = 52 - n.log2 - k := by
    rw [wholeExp]
    omega
  have hmant : (n * 2 ^ k) <<< (52 - n.log2 - k) = n * 2 ^ (k + (52 - n.log2 - k)) := by
    rw [Nat.shiftLeft_eq, Nat.mul_assoc, ← Nat.pow_add]
  have hexp : -(k : Int) - ((52 - n.log2 - k : Nat) : Int) =
      -((k + (52 - n.log2 - k) : Nat) : Int) := by
    omega
  simp only [UnpackedFloat.round, targetExponent_whole hn hbound, decreaseExponent, hshift, hmant,
    hexp]
  exact roundWithAccuracy_whole hn hbound (by omega)

theorem normalize_whole (hbound : n < 2 ^ 53) (k : Nat) :
    UnpackedFloat.normalize Format.binary64 ((n * 2 ^ k : Nat) : Int) (-(k : Int)) .positive =
      unpackedWhole n := by
  rcases Nat.eq_zero_or_pos n with rfl | hn
  · rw [Nat.zero_mul]
    rfl
  · have hpos : compare ((n * 2 ^ k : Nat) : Int) 0 = .gt :=
      Int.compare_eq_gt.mpr (by exact_mod_cast Nat.mul_pos hn (Nat.two_pow_pos k))
    rw [UnpackedFloat.normalize, hpos]
    exact round_whole hn hbound k

end

/-! ## Whole numbers -/

section

variable {a b n : Nat}

theorem unpack_of_fields {v : BitVec 64} {mant : Nat} {exp : Int} (hpos : 0 < mant)
    (hlow : Nat.pow 2 52 ≤ mant) (hmin : -1074 ≤ exp) (hmax : exp < 972)
    (hexp : v.toNat / Nat.pow 2 52 % 2048 = (exp + 1075).toNat)
    (hmant : v.toNat % Nat.pow 2 52 = mant - Nat.pow 2 52)
    (hsign : v.toNat / Nat.pow 2 63 % 2 = 0) :
    UnpackedFloat.unpack .binary64 v = .finite .positive mant exp hpos := by
  rw [← toNat_exponent] at hexp
  rw [← toNat_mantissa] at hmant
  rw [← toNat_sign] at hsign
  have hzero : @unpackSign .binary64 v = 0#1 := BitVec.eq_of_toNat_eq hsign
  have hne : @unpackExponent .binary64 v ≠ -1#11 := fun h => by
    rw [h] at hexp
    have hlast : (2047 : Nat) = (exp + 1075).toNat := hexp
    omega
  have hne' : @unpackExponent .binary64 v ≠ 0#11 := fun h => by
    rw [h] at hexp
    have hfirst : (0 : Nat) = (exp + 1075).toNat := hexp
    omega
  have hfull : (1#1 ++ @unpackMantissa .binary64 v).toNat = mant := by
    have hsplit : (1#1 ++ @unpackMantissa .binary64 v).toNat =
        Nat.pow 2 52 + (@unpackMantissa .binary64 v).toNat := by
      rw [toNat_append_eq]
      rfl
    rw [hsplit, hmant, Nat.add_sub_cancel' hlow]
  have hback : ((@unpackExponent .binary64 v).toNat : Int) -
      (Format.binary64.exponentBias + Format.binary64.mantissaBitsWithoutImplicit : Int) = exp := by
    have hbias : (Format.binary64.exponentBias + Format.binary64.mantissaBitsWithoutImplicit : Int) =
        1075 := rfl
    rw [hexp, hbias]
    omega
  unfold UnpackedFloat.unpack
  dsimp only
  rw [if_neg hne, if_neg hne', hzero]
  exact finite_congr rfl hfull hback

theorem exists_bits_ofInt (hn : 0 < n) (hbound : n < 2 ^ 53) : ∃ b : UInt64,
    ofInt n = Float.ofBits b ∧ b.toNat / Nat.pow 2 52 % 2048 = (wholeExp n + 1075).toNat ∧
      b.toNat % Nat.pow 2 52 = wholeMant n - Nat.pow 2 52 ∧ b.toNat / Nat.pow 2 63 % 2 = 0 := by
  have hlog := log2_le hn hbound
  have hlow : Nat.pow 2 52 ≤ wholeMant n := le_mantissa hn.ne' hlog
  have hhigh : wholeMant n < Nat.pow 2 53 := mantissa_lt hlog
  have hexp : -52 ≤ wholeExp n ∧ wholeExp n ≤ 0 := by
    rw [wholeExp]
    omega
  have hneg : decide ((n : Int) < 0) = false := decide_eq_false (by omega)
  have hratio : ofRatio false n 1 = assemble false (wholeMant n) (wholeExp n) := by
    have hmul := ofRatio_mul hn hbound Nat.one_pos
    rwa [Nat.mul_one] at hmul
  have hofInt : ofInt n = Float.ofBits (UInt64.ofNat
      ((wholeExp n + 1075).toNat * Nat.pow 2 52 + (wholeMant n - Nat.pow 2 52))) := by
    rw [ofInt, hneg, Int.natAbs_natCast, hratio, assemble_eq hlow hhigh (by omega)]
  refine ⟨_, hofInt, ?_⟩
  have htop : Nat.pow 2 52 = 4503599627370496 := rfl
  have hall : Nat.pow 2 53 = 9007199254740992 := rfl
  have hlarge : Nat.pow 2 63 = 9223372036854775808 := rfl
  generalize hbits : (wholeExp n + 1075).toNat * Nat.pow 2 52 + (wholeMant n - Nat.pow 2 52) = bits
  rw [htop] at hbits hlow ⊢
  rw [hall] at hhigh
  have hsize : bits < 18446744073709551616 := by omega
  have hnat : (UInt64.ofNat bits).toNat = bits := UInt64.toNat_ofNat_of_lt' hsize
  rw [hnat, hlarge]
  omega

theorem toModel_ofInt (hbound : n < 2 ^ 53) :
    (ofInt n).toModel = Float.Model.pack (unpackedWhole n) ∧
      (ofInt n).toModel.unpack = unpackedWhole n := by
  rcases Nat.eq_zero_or_pos n with rfl | hn
  · exact ⟨rfl, rfl⟩
  · obtain ⟨b, hb, hexp, hmant, hsign⟩ := exists_bits_ofInt hn hbound
    have hlow : Nat.pow 2 52 ≤ wholeMant n := le_mantissa hn.ne' (log2_le hn hbound)
    have hrange : -52 ≤ wholeExp n ∧ wholeExp n ≤ 0 := by
      rw [wholeExp]
      omega
    have hunpack : UnpackedFloat.unpack .binary64 b.toBitVec = unpackedWhole n := by
      rw [unpackedWhole, dif_pos hn]
      exact unpack_of_fields (wholeMant_pos hn) hlow (by omega) (by omega) hexp hmant hsign
    have hread : (Float.ofBits b).toBits = b := by
      refine toBits_ofBits ?_ ?_
      · rw [hexp]
        omega
      · rw [hexp]
        omega
    refine ⟨?_, ?_⟩
    · rw [hb, ← hunpack]
      rfl
    · have hbits : (Float.ofBits b).toModel.unpack =
          UnpackedFloat.unpack .binary64 (Float.ofBits b).toBits.toBitVec := rfl
      rw [hb, hbits, hread, hunpack]

theorem eq_ofInt {x : Float} (hbound : n < 2 ^ 53)
    (hx : x.toModel = Float.Model.pack (unpackedWhole n)) : x = ofInt n := by
  rw [← (toModel_ofInt hbound).1] at hx
  cases x
  cases hx
  rfl

/-! ## Arithmetic -/

theorem decreaseExponent_whole {k : Nat} (hk : 52 - n.log2 ≤ k) :
    (decreaseExponent (wholeMant n) (wholeExp n) (-(k : Int))).1 = n * 2 ^ k := by
  have hshift : (wholeExp n - -(k : Int)).toNat = k - (52 - n.log2) := by
    rw [wholeExp]
    omega
  rw [decreaseExponent]
  dsimp only
  rw [hshift, Nat.shiftLeft_eq, wholeMant, Nat.mul_assoc, ← Nat.pow_add, Nat.add_sub_cancel' hk]

theorem sub_finite {format : Format} {m m' : Nat} {e e' : Int} (hm : 0 < m) (hm' : 0 < m') :
    UnpackedFloat.sub format (.finite .positive m e hm) (.finite .positive m' e' hm') =
      UnpackedFloat.normalize format ((decreaseExponent m e (min e e')).1 -
        (decreaseExponent m' e' (min e e')).1) (min e e') .positive := rfl

theorem mul_finite {format : Format} {m m' : Nat} {e e' : Int} (hm : 0 < m) (hm' : 0 < m') :
    UnpackedFloat.mul format (.finite .positive m e hm) (.finite .positive m' e' hm') =
      roundWithAccuracy format .positive (m * m') (e + e') .exact := rfl

theorem div_finite {format : Format} {m m' mant : Nat} {e e' exp : Int} (hm : 0 < m) (hm' : 0 < m')
    {accuracy : Accuracy} (h : divCore format m e m' e' = (mant, exp, accuracy)) :
    UnpackedFloat.div format (.finite .positive m e hm) (.finite .positive m' e' hm') =
      roundWithAccuracy format .positive mant exp accuracy := by
  have hdiv : UnpackedFloat.div format (.finite .positive m e hm) (.finite .positive m' e' hm') =
      roundWithAccuracy format .positive (divCore format m e m' e').1 (divCore format m e m' e').2.1
        (divCore format m e m' e').2.2 := rfl
  rw [hdiv, h]

theorem sub_unpackedWhole (hle : b ≤ a) (hbound : a < 2 ^ 53) :
    UnpackedFloat.sub Format.binary64 (unpackedWhole a) (unpackedWhole b) =
      unpackedWhole (a - b) := by
  rcases Nat.eq_zero_or_pos b with rfl | hb
  · rw [Nat.sub_zero]
    rcases Nat.eq_zero_or_pos a with rfl | ha
    · rfl
    · rw [unpackedWhole, dif_pos ha]
      rfl
  · have ha : 0 < a := hb.trans_le hle
    obtain ⟨k, hka, hkb, hmin⟩ : ∃ k : Nat, 52 - a.log2 ≤ k ∧ 52 - b.log2 ≤ k ∧
        min (wholeExp a) (wholeExp b) = -(k : Int) := by
      refine ⟨max (52 - a.log2) (52 - b.log2), le_max_left _ _, le_max_right _ _, ?_⟩
      rw [wholeExp, wholeExp]
      omega
    have hdiff : ((a * 2 ^ k : Nat) : Int) - ((b * 2 ^ k : Nat) : Int) =
        (((a - b) * 2 ^ k : Nat) : Int) := by
      rw [Nat.sub_mul, Int.ofNat_sub (Nat.mul_le_mul_right _ hle)]
    rw [unpackedWhole, dif_pos ha, unpackedWhole, dif_pos hb, sub_finite, hmin,
      decreaseExponent_whole hka, decreaseExponent_whole hkb, hdiff]
    exact normalize_whole (by omega) k

theorem mul_unpackedWhole (hbound : a * b < 2 ^ 53) :
    UnpackedFloat.mul Format.binary64 (unpackedWhole a) (unpackedWhole b) =
      unpackedWhole (a * b) := by
  rcases Nat.eq_zero_or_pos a with rfl | ha
  · rw [Nat.zero_mul]
    rcases Nat.eq_zero_or_pos b with rfl | hb
    · rfl
    · rw [unpackedWhole.eq_def b, dif_pos hb]
      rfl
  · rcases Nat.eq_zero_or_pos b with rfl | hb
    · rw [Nat.mul_zero, unpackedWhole.eq_def a, dif_pos ha]
      rfl
    · have hlog : a.log2 + b.log2 ≤ (a * b).log2 := by
        rcases log2_mul ha.ne' hb.ne' with h | h <;> omega
      have hmant : wholeMant a * wholeMant b = a * b * 2 ^ (52 - a.log2 + (52 - b.log2)) := by
        rw [wholeMant, wholeMant, Nat.pow_add]
        ac_rfl
      have hexp : wholeExp a + wholeExp b = -((52 - a.log2 + (52 - b.log2) : Nat) : Int) := by
        rw [wholeExp, wholeExp]
        omega
      rw [unpackedWhole.eq_def a, dif_pos ha, unpackedWhole.eq_def b, dif_pos hb, mul_finite,
        hmant, hexp]
      exact roundWithAccuracy_whole (Nat.mul_pos ha hb) hbound (by omega)

theorem ofInt_sub (hle : b ≤ a) (hbound : a < 2 ^ 53) : ofInt a - ofInt b = ofInt (a - b : Nat) := by
  have hmodel : (ofInt a - ofInt b).toModel = Float.Model.pack (UnpackedFloat.sub Format.binary64
      (ofInt a).toModel.unpack (ofInt b).toModel.unpack) := rfl
  rw [(toModel_ofInt hbound).2, (toModel_ofInt (hle.trans_lt hbound)).2,
    sub_unpackedWhole hle hbound] at hmodel
  exact eq_ofInt (by omega) hmodel

theorem ofInt_mul (ha : a < 2 ^ 53) (hb : b < 2 ^ 53) (hbound : a * b < 2 ^ 53) :
    ofInt a * ofInt b = ofInt (a * b : Nat) := by
  have hmodel : (ofInt a * ofInt b).toModel = Float.Model.pack (UnpackedFloat.mul Format.binary64
      (ofInt a).toModel.unpack (ofInt b).toModel.unpack) := rfl
  rw [(toModel_ofInt ha).2, (toModel_ofInt hb).2, mul_unpackedWhole hbound] at hmodel
  exact eq_ofInt hbound hmodel

theorem divCore_whole {q d : Nat} (hq : 0 < q) (hd : 0 < d) (hbound : q * d < 2 ^ 53) :
    ∃ k : Nat, 52 - q.log2 ≤ k ∧
      divCore Format.binary64 (wholeMant (q * d)) (wholeExp (q * d)) (wholeMant d) (wholeExp d) =
        (q * 2 ^ k, -(k : Int), .exact) := by
  have hn : 0 < q * d := Nat.mul_pos hq hd
  have hd' : d < 2 ^ 53 := (Nat.le_mul_of_pos_left d hq).trans_lt hbound
  have hlogn := log2_le hn hbound
  have hlogd := log2_le hd hd'
  have hlog := log2_mul hq.ne' hd.ne'
  have htotal {m : Nat} (hm : 0 < m) (hlogm : m.log2 ≤ 52) :
      totalExponent (wholeMant m) (wholeExp m) = (m.log2 : Int) + 1 := by
    rw [totalExponent, wholeMant, log2_mul_pow hm, wholeExp]
    omega
  have hmin : Format.binary64.minExponent = -1074 := rfl
  have hbits : Format.binary64.mantissaBits = 53 := rfl
  obtain ⟨k, hk⟩ : ∃ k : Nat, k + (q * d).log2 = 53 + d.log2 := ⟨53 + d.log2 - (q * d).log2, by omega⟩
  have htarget : min (wholeExp (q * d) - wholeExp d) (Format.binary64.targetExponent
      (totalExponent (wholeMant (q * d)) (wholeExp (q * d)) -
        totalExponent (wholeMant d) (wholeExp d))) = -(k : Int) := by
    rw [htotal hn hlogn, htotal hd hlogd, Format.targetExponent, hmin, hbits, wholeExp, wholeExp]
    omega
  have hshift : (wholeExp (q * d) - wholeExp d - -(k : Int)).toNat = 53 := by
    rw [wholeExp, wholeExp]
    omega
  have hmant : wholeMant (q * d) <<< 53 = q * 2 ^ k * wholeMant d := by
    have hpower : 52 - (q * d).log2 + 53 = k + (52 - d.log2) := by omega
    rw [Nat.shiftLeft_eq, wholeMant, wholeMant, Nat.mul_assoc, ← Nat.pow_add, hpower, Nat.pow_add]
    ac_rfl
  refine ⟨k, by omega, ?_⟩
  rw [divCore, htarget, hshift, hmant, Nat.mul_div_cancel _ (wholeMant_pos hd), Nat.mul_mod_left]
  rfl

theorem div_unpackedWhole {q d : Nat} (hd : 0 < d) (hbound : q * d < 2 ^ 53) :
    UnpackedFloat.div Format.binary64 (unpackedWhole (q * d)) (unpackedWhole d) =
      unpackedWhole q := by
  rcases Nat.eq_zero_or_pos q with rfl | hq
  · rw [Nat.zero_mul, unpackedWhole.eq_def d, dif_pos hd]
    rfl
  · obtain ⟨k, hk, hcore⟩ := divCore_whole hq hd hbound
    have hn : 0 < q * d := Nat.mul_pos hq hd
    rw [unpackedWhole.eq_def (q * d), dif_pos hn, unpackedWhole.eq_def d, dif_pos hd,
      div_finite _ _ hcore]
    exact roundWithAccuracy_whole hq ((Nat.le_mul_of_pos_right q hd).trans_lt hbound) hk

theorem ofInt_div {q d : Nat} (hd : 0 < d) (hbound : q * d < 2 ^ 53) (hd' : d < 2 ^ 53) :
    ofInt (q * d : Nat) / ofInt d = ofInt q := by
  have hmodel : (ofInt (q * d : Nat) / ofInt d).toModel =
      Float.Model.pack (UnpackedFloat.div Format.binary64 (ofInt (q * d : Nat)).toModel.unpack
        (ofInt d).toModel.unpack) := rfl
  rw [(toModel_ofInt hbound).2, (toModel_ofInt hd').2, div_unpackedWhole hd hbound] at hmodel
  exact eq_ofInt ((Nat.le_mul_of_pos_right q hd).trans_lt hbound) hmodel

theorem ofRatio_eq_ofInt (hbound : n < 2 ^ 53) {d : Nat} (hd : 0 < d) :
    ofRatio false (n * d) d = ofInt n := by
  have hofInt : ofInt n = ofRatio false (n * 1) 1 := by
    rw [ofInt, decide_eq_false (by omega : ¬(n : Int) < 0), Int.natAbs_natCast, Nat.mul_one]
  rcases Nat.eq_zero_or_pos n with rfl | hn
  · rw [hofInt, Nat.zero_mul, Nat.zero_mul, ofRatio, if_pos (.inl rfl), ofRatio, if_pos (.inl rfl)]
  · rw [hofInt, ofRatio_mul hn hbound hd, ofRatio_mul hn hbound Nat.one_pos]

theorem ratio?_ofInt (hbound : n < 2 ^ 53) :
    ∃ d : Nat, 0 < d ∧ ratio? (ofInt n) = some (((n * d : Nat) : Int), d) := by
  rcases Nat.eq_zero_or_pos n with rfl | hn
  · exact ⟨Nat.pow 2 (-1074 : Int).natAbs, Nat.pow_pos Nat.two_pos, by rw [Nat.zero_mul]; rfl⟩
  · refine ⟨2 ^ (52 - n.log2), Nat.two_pow_pos _, ?_⟩
    rw [← ofRatio_eq_ofInt hbound Nat.one_pos, ratio?, ofFloat_ofRatio_mul hn hbound Nat.one_pos]
    dsimp only
    rw [ratio_mul_pow]

end

end StatesLanguage.Binary
