import Mathlib.Data.Nat.Log
import StatesLanguage.Proofs.Concurrency

/-!
# Whole seconds

A time that is given in whole seconds is counted exactly, although it goes through a floating number on
its way from milliseconds to microseconds.
-/

namespace StatesLanguage

open Float.Model UnpackedFloat

namespace Binary

/-! ## The bits of a number -/

theorem toNat_append_eq {m n : Nat} (x : BitVec m) (y : BitVec n) :
    (x ++ y).toNat = x.toNat * 2 ^ n + y.toNat := by
  rw [BitVec.toNat_append, ← Nat.shiftLeft_add_eq_or_of_lt y.isLt, Nat.shiftLeft_eq]

theorem pack_unpack {b : BitVec 64} (hlow : @unpackExponent .binary64 b ≠ 0#11)
    (hhigh : @unpackExponent .binary64 b ≠ -1#11) :
    UnpackedFloat.pack .binary64 (UnpackedFloat.unpack .binary64 b) = b := by
  -- Unpacking puts the implicit bit in front of the mantissa, and packing takes it off.
  have hmant : (1#1 ++ @unpackMantissa .binary64 b).toNat =
      2 ^ 52 + (@unpackMantissa .binary64 b).toNat := by
    rw [toNat_append_eq]
    rfl
  have hbound : (@unpackMantissa .binary64 b).toNat < 2 ^ 52 := (@unpackMantissa .binary64 b).isLt
  have hlog : (1#1 ++ @unpackMantissa .binary64 b).toNat.log2 = 52 := by
    rw [hmant]
    exact (Nat.log2_eq_iff (by omega)).mpr ⟨by omega, by omega⟩
  have hexp : (@unpackExponent .binary64 b).toNat < 2047 := by
    have hlt : (@unpackExponent .binary64 b).toNat < 2048 := (@unpackExponent .binary64 b).isLt
    have hne : (@unpackExponent .binary64 b).toNat ≠ 2047 := fun h =>
      hhigh (BitVec.eq_of_toNat_eq h)
    omega
  have hbias : (((@unpackExponent .binary64 b).toNat : Int) -
      (Format.binary64.exponentBias + Format.binary64.mantissaBitsWithoutImplicit : Int) +
      Format.binary64.exponentBias + Format.binary64.mantissaBitsWithoutImplicit).toNat =
      (@unpackExponent .binary64 b).toNat := by
    omega
  unfold UnpackedFloat.unpack
  dsimp only
  rw [if_neg hhigh, if_neg hlow]
  unfold UnpackedFloat.pack
  dsimp only
  rw [hlog, hbias, if_neg (by
    have : 2 ^ Format.binary64.exponentBits = 2048 := rfl
    omega), if_pos (show 52 + 1 = Format.binary64.mantissaBits from rfl)]
  have hsign (x : BitVec 1) : (Sign.ofBitVec x).toBitVec.toNat = x.toNat := by
    revert x
    decide
  apply BitVec.eq_of_toNat_eq
  unfold packComponents
  have hfields : b.toNat = (@unpackSign .binary64 b).toNat * 2 ^ 63 +
      (@unpackExponent .binary64 b).toNat * 2 ^ 52 + (@unpackMantissa .binary64 b).toNat := by
    have hsize := b.isLt
    rw [toNat_sign, toNat_exponent, toNat_mantissa]
    norm_num
    omega
  rw [toNat_append_eq, toNat_append_eq, hsign, BitVec.toNat_ofNat, BitVec.toNat_ofNat, hmant]
  change ((@unpackSign .binary64 b).toNat * 2 ^ 11 + (@unpackExponent .binary64 b).toNat % 2 ^ 11) * 2 ^ 52 +
    (2 ^ 52 + (@unpackMantissa .binary64 b).toNat) % 2 ^ 52 = b.toNat
  omega

theorem toBits_ofBits {b : UInt64} (hlow : b.toNat / Nat.pow 2 52 % 2048 ≠ 0)
    (hhigh : b.toNat / Nat.pow 2 52 % 2048 ≠ 2047) : (Float.ofBits b).toBits = b := by
  have hexp : (@unpackExponent .binary64 b.toBitVec).toNat = b.toNat / Nat.pow 2 52 % 2048 :=
    toNat_exponent _
  refine UInt64.toBitVec_inj.mp (pack_unpack (fun h => hlow ?_) fun h => hhigh ?_)
  · rw [← hexp, h]
    rfl
  · rw [← hexp, h]
    rfl

theorem assemble_eq {mant : Nat} {exp : Int} (hlow : Nat.pow 2 52 ≤ mant)
    (hhigh : mant < Nat.pow 2 53) (hmax : exp < 972) :
    assemble false mant exp = Float.ofBits (UInt64.ofNat
      ((exp + 1075).toNat * Nat.pow 2 52 + (mant - Nat.pow 2 52))) := by
  unfold assemble
  dsimp only
  rw [if_neg hhigh.ne]
  dsimp only
  rw [if_neg (not_lt.mpr hlow), if_neg (by omega)]
  simp only [Bool.false_eq_true, if_false, Nat.zero_add]

theorem ofFloat_assemble {mant : Nat} {exp : Int} (hlow : Nat.pow 2 52 ≤ mant)
    (hhigh : mant < Nat.pow 2 53) (hmin : -1074 ≤ exp) (hmax : exp < 972) :
    ofFloat (assemble false mant exp) = .finite false mant exp := by
  have htop : Nat.pow 2 52 = 4503599627370496 := rfl
  have hall : Nat.pow 2 53 = 9007199254740992 := rfl
  have hsign : Nat.pow 2 63 = 9223372036854775808 := rfl
  have hassemble := assemble_eq hlow hhigh hmax
  generalize hbits : (exp + 1075).toNat * Nat.pow 2 52 + (mant - Nat.pow 2 52) = bits at hassemble
  rw [htop] at hlow hbits
  rw [hall] at hhigh
  have hnat : (UInt64.ofNat bits).toNat = bits := UInt64.toNat_ofNat_of_lt' (by
    change bits < 18446744073709551616
    omega)
  have hexp : bits / 4503599627370496 % 2048 = (exp + 1075).toNat := by omega
  have hread : (assemble false mant exp).toBits.toNat = bits := by
    rw [hassemble, toBits_ofBits, hnat]
    · rw [hnat, htop]
      omega
    · rw [hnat, htop]
      omega
  unfold ofFloat
  rw [hread, htop, hsign]
  have hneg : (bits / 9223372036854775808 == 1) = false := by
    rw [beq_eq_false_iff_ne]
    omega
  have hmant : 4503599627370496 + bits % 4503599627370496 = mant := by omega
  have hback : ((exp + 1075).toNat : Int) - 1075 = exp := by omega
  dsimp only
  rw [hexp, if_neg (by omega), if_neg (by omega), hneg, hmant, hback]

/-! ## Whole numbers -/

theorem roundDiv_mul (k : Nat) {d : Nat} (hd : 0 < d) : roundDiv (k * d) d = k := by
  unfold roundDiv
  rw [Nat.mul_div_cancel _ hd, Nat.mul_mod_left]
  exact if_pos hd

theorem log2_mul {n d : Nat} (hn : n ≠ 0) (hd : d ≠ 0) :
    (n * d).log2 = n.log2 + d.log2 ∨ (n * d).log2 = n.log2 + d.log2 + 1 := by
  have hlow : 2 ^ (n.log2 + d.log2) ≤ n * d := by
    rw [Nat.pow_add]
    exact Nat.mul_le_mul (Nat.log2_self_le hn) (Nat.log2_self_le hd)
  have hhigh : n * d < 2 ^ (n.log2 + d.log2 + 2) := by
    have hsum : n.log2 + d.log2 + 2 = (n.log2 + 1) + (d.log2 + 1) := by omega
    rw [hsum, Nat.pow_add]
    exact Nat.mul_lt_mul'' Nat.lt_log2_self Nat.lt_log2_self
  have hne : n * d ≠ 0 := Nat.mul_ne_zero hn hd
  have hle := (Nat.le_log2 hne).mpr hlow
  have hlt := (Nat.log2_lt hne).mpr hhigh
  omega

theorem assemble_carry (exp : Int) :
    assemble false (Nat.pow 2 53) exp = assemble false (Nat.pow 2 52) (exp + 1) := by
  have hne : ¬Nat.pow 2 52 = Nat.pow 2 53 := by decide
  unfold assemble
  dsimp only
  rw [if_pos rfl, if_neg hne]

theorem mantissa_lt {n : Nat} (hlog : n.log2 ≤ 52) : n * 2 ^ (52 - n.log2) < Nat.pow 2 53 := by
  have hpower : 2 ^ (n.log2 + 1) * 2 ^ (52 - n.log2) = Nat.pow 2 53 := by
    rw [← Nat.pow_add, show n.log2 + 1 + (52 - n.log2) = 53 by omega]
  exact hpower ▸ Nat.mul_lt_mul_of_pos_right Nat.lt_log2_self (Nat.two_pow_pos _)

theorem le_mantissa {n : Nat} (hn : n ≠ 0) (hlog : n.log2 ≤ 52) :
    Nat.pow 2 52 ≤ n * 2 ^ (52 - n.log2) := by
  have hpower : 2 ^ n.log2 * 2 ^ (52 - n.log2) = Nat.pow 2 52 := by
    rw [← Nat.pow_add, Nat.add_sub_cancel' hlog]
  exact hpower ▸ Nat.mul_le_mul_right _ (Nat.log2_self_le hn)

theorem ofRatio_mul {n d : Nat} (hn : 0 < n) (hbound : n < Nat.pow 2 53) (hd : 0 < d) :
    ofRatio false (n * d) d =
      assemble false (n * 2 ^ (52 - n.log2)) (-((52 - n.log2 : Nat) : Int)) := by
  have hlog : n.log2 ≤ 52 := Nat.le_of_lt_succ ((Nat.log2_lt hn.ne').mpr hbound)
  have hne : ¬(n * d = 0 ∨ d = 0) := by
    rintro (h | h)
    · exact (Nat.mul_pos hn hd).ne' h
    · exact hd.ne' h
  have hscaled (k : Nat) : (if -(k : Int) < 0
      then roundDiv (n * d * Nat.pow 2 (-(k : Int)).natAbs) d
      else roundDiv (n * d) (d * Nat.pow 2 (-(k : Int)).natAbs)) = n * 2 ^ k := by
    rw [Int.natAbs_neg, Int.natAbs_natCast]
    split
    · rw [Nat.mul_right_comm]
      exact roundDiv_mul _ hd
    · obtain rfl : k = 0 := by omega
      have hone : Nat.pow 2 0 = 1 := rfl
      rw [hone, Nat.mul_one, Nat.pow_zero, Nat.mul_one]
      exact roundDiv_mul n hd
  have htwice : n * 2 ^ (53 - n.log2) = 2 * (n * 2 ^ (52 - n.log2)) := by
    rw [show 53 - n.log2 = 52 - n.log2 + 1 by omega, Nat.pow_succ, ← Nat.mul_assoc, Nat.mul_comm]
  have hlow : Nat.pow 2 52 ≤ n * 2 ^ (52 - n.log2) := le_mantissa hn.ne' hlog
  unfold ofRatio
  rw [if_neg hne]
  dsimp only
  rcases log2_mul hn.ne' hd.ne' with hsum | hsum
  · have hguess : max (((n * d).log2 : Int) - d.log2 - 53) (-1074) = -((53 - n.log2 : Nat) : Int) := by
      omega
    have hnext : -((53 - n.log2 : Nat) : Int) + 1 = -((52 - n.log2 : Nat) : Int) := by omega
    simp only [hguess, hscaled, hnext]
    split
    · rename_i hcarry
      have hpower : Nat.pow 2 53 = 2 * Nat.pow 2 52 := rfl
      have hexact : n * 2 ^ (52 - n.log2) = Nat.pow 2 52 := by omega
      rw [htwice, hexact, ← hpower, assemble_carry, hnext]
    · rfl
  · have hguess : max (((n * d).log2 : Int) - d.log2 - 53) (-1074) = -((52 - n.log2 : Nat) : Int) := by
      omega
    simp only [hguess, hscaled]
    exact if_pos (mantissa_lt hlog).le

theorem ofFloat_ofRatio_mul {n d : Nat} (hn : 0 < n) (hbound : n < Nat.pow 2 53) (hd : 0 < d) :
    ofFloat (ofRatio false (n * d) d) =
      .finite false (n * 2 ^ (52 - n.log2)) (-((52 - n.log2 : Nat) : Int)) := by
  have hlog : n.log2 ≤ 52 := Nat.le_of_lt_succ ((Nat.log2_lt hn.ne').mpr hbound)
  rw [ofRatio_mul hn hbound hd]
  exact ofFloat_assemble (le_mantissa hn.ne' hlog) (mantissa_lt hlog) (by omega) (by omega)

theorem ratio_mul_pow (n k : Nat) :
    ratio false (n * 2 ^ k) (-(k : Int)) = (((n * 2 ^ k : Nat) : Int), 2 ^ k) := by
  unfold ratio
  dsimp only
  rw [Int.natAbs_neg, Int.natAbs_natCast]
  split
  · rfl
  · obtain rfl : k = 0 := by omega
    have hone : Nat.pow 2 0 = 1 := rfl
    rw [hone, Nat.pow_zero]
    simp

end Binary

namespace Value

variable {n : Nat}

theorem int_div_thousand (hfinite : Binary.isFinite (Binary.ofRatio false n 1000) = true) :
    (Value.int n).div (.int 1000) = .ok (.float (Binary.ofRatio false n 1000)) := by
  have hsign : (decide ((n : Int) < 0) != decide ((1000 : Int) < 0)) = false := by
    simp
  have hquotient : Number.intQuotient n 1000 = .ok (.float (Binary.ofRatio false n 1000)) := by
    rw [Number.intQuotient, if_neg (by decide), hsign]
    exact if_pos hfinite
  simp only [div, arith, number?, Number.div, Number.lift, hquotient]
  rfl

theorem div_thousand_of_seconds (hn : 0 < n) (hbound : n < Nat.pow 2 53) :
    (Value.int ((n * 1000 : Nat) : Int)).div (.int 1000) =
      .ok (.float (Binary.ofRatio false (n * 1000) 1000)) := by
  apply int_div_thousand
  rw [Binary.isFinite, Binary.ofFloat_ofRatio_mul hn hbound (by decide)]

theorem micros_of_seconds (hn : 0 < n) (hbound : n < Nat.pow 2 53) :
    (Value.float (Binary.ofRatio false (n * 1000) 1000)).micros second =
      .ok ((n * second : Nat) : Int) := by
  have hsize (k : Nat) : Binary.roundDiv (n * 2 ^ k * second) (2 ^ k) = n * second := by
    rw [Nat.mul_right_comm]
    exact Binary.roundDiv_mul _ (Nat.two_pow_pos k)
  simp only [micros, number?, Number.micros, Binary.ratio_mul_pow, hsize, Int.natAbs_natCast,
    Binary.ofFloat_ofRatio_mul hn hbound (show 0 < 1000 by decide)]
  rw [if_neg (by omega)]

end Value

end StatesLanguage
