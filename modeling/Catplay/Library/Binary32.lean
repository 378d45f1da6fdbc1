import Mathlib

/-!
# Whole numbers in single precision

A number below 2^24 has an exact `Float32`, from whose bits the number is read back. The facts are
about the model of `Float32`, so that they hold of the bits.
-/

set_option autoImplicit false

namespace Catplay.Library.Binary32

open Float.Model Float.Model.UnpackedFloat

/-- A mantissa of 24 bits is rounded to itself. -/
theorem roundWithAccuracy_exact {m : Nat} {e : Int} (hm : m.log2 = 23) (hpos : 0 < m)
    (he : -149 ≤ e) :
    roundWithAccuracy .binary32 .positive m e .exact = .finite .positive m e hpos := by
  have htarget : Format.binary32.targetExponent (totalExponent m e) = e := by
    simp only [Format.targetExponent, totalExponent, Format.mantissaBits, Format.minExponent, hm]
    omega
  have hshift : shiftToTargetExponent .binary32 m e .exact = (⟨m, false, false⟩, e) := by
    unfold shiftToTargetExponent shiftToExponent
    rw [htarget]
    simp [HShiftRight.hShiftRight, Nat.repeat, ExtendedMantissa.ofMantissaAndAccuracy]
  have hrounded : ExtendedMantissa.roundedMantissa ⟨m, false, false⟩ = m := rfl
  unfold roundWithAccuracy
  rw [hshift]
  dsimp only
  rw [hrounded, hshift]
  dsimp only
  rw [dif_neg (Nat.ne_of_gt hpos)]

section Small

variable {n : Nat}

/-- The number with its first bit moved to the place of the implicit one. -/
def mantissa (n : Nat) : Nat := n * 2 ^ (23 - n.log2)

theorem mantissa_pos (hn : n ≠ 0) : 0 < mantissa n :=
  Nat.mul_pos (Nat.pos_of_ne_zero hn) (Nat.two_pow_pos _)

theorem log2_mantissa (hn : n ≠ 0) (h : n < 2 ^ 24) : (mantissa n).log2 = 23 := by
  have hlog : n.log2 < 24 := (Nat.log2_lt hn).mpr h
  have hlow := Nat.log2_self_le hn
  have hhigh := @Nat.lt_log2_self n
  have hsplit : 2 ^ n.log2 * 2 ^ (23 - n.log2) = 2 ^ 23 := by
    rw [← Nat.pow_add]
    congr 1
    omega
  have hdouble : 2 ^ (n.log2 + 1) * 2 ^ (23 - n.log2) = 2 ^ 24 := by
    rw [← Nat.pow_add]
    congr 1
    omega
  rw [Nat.log2_eq_iff (Nat.ne_of_gt (mantissa_pos hn)), ← hsplit, ← hdouble]
  exact ⟨Nat.mul_le_mul_right _ hlow, Nat.mul_lt_mul_of_pos_right hhigh (Nat.two_pow_pos _)⟩

theorem ofNat_eq (hn : n ≠ 0) (h : n < 2 ^ 24) :
    UnpackedFloat.ofNat .binary32 n =
      .finite .positive (mantissa n) (-(23 - n.log2 : Nat)) (mantissa_pos hn) := by
  have hlog : n.log2 < 24 := (Nat.log2_lt hn).mpr h
  have htarget : Format.binary32.targetExponent (totalExponent n 0) = -(23 - n.log2 : Nat) := by
    simp only [Format.targetExponent, totalExponent, Format.mantissaBits, Format.minExponent]
    omega
  have hcompare : compare (n : Int) 0 = .gt := by
    rw [compare_gt_iff_gt]
    omega
  unfold UnpackedFloat.ofNat UnpackedFloat.ofInt UnpackedFloat.normalize
  rw [hcompare]
  dsimp only
  unfold UnpackedFloat.round decreaseExponent
  dsimp only
  rw [Int.toNat_natCast, htarget]
  have hamount : ((0 : Int) - -(23 - n.log2 : Nat)).toNat = 23 - n.log2 := by omega
  rw [hamount, Nat.shiftLeft_eq, Int.zero_sub]
  exact roundWithAccuracy_exact (log2_mantissa hn h) (mantissa_pos hn) (by omega)

/-- The sign of what is put together. -/
theorem unpackSign_packComponents {spec : Format} {sign : Sign}
    {exponent : BitVec spec.exponentBits} {m : BitVec spec.mantissaBitsWithoutImplicit} :
    unpackSign (packComponents spec sign exponent m) = sign.toBitVec := by
  ext i hi
  have hzero : i = 0 := by omega
  subst hzero
  simp [unpackSign, packComponents, BitVec.getLsbD_append, BitVec.getLsbD_eq_getElem,
    BitVec.getElem_append]

theorem unpack_components {spec : Format}
    {exponent : BitVec spec.exponentBits} {m : BitVec spec.mantissaBitsWithoutImplicit}
    (hzero : exponent ≠ 0#_) (hones : exponent ≠ -1#_) (hpos : 0 < (1#1 ++ m).toNat) :
    UnpackedFloat.unpack spec (packComponents spec .positive exponent m) =
      .finite .positive (1#1 ++ m).toNat
        (exponent.toNat - (spec.exponentBias + spec.mantissaBitsWithoutImplicit)) hpos := by
  unfold UnpackedFloat.unpack
  simp only [unpackExponent_packComponents, unpackMantissa_packComponents,
    unpackSign_packComponents, if_neg hones, if_neg hzero]
  rfl

/-- The implicit bit comes back. -/
theorem implicit_append {m : Nat} (hlow : 2 ^ 23 ≤ m) (hhigh : m < 2 ^ 24) :
    (1#1 ++ BitVec.ofNat 23 m).toNat = m := by
  have hmod : m % 2 ^ 23 < 2 ^ 23 := Nat.mod_lt _ (Nat.two_pow_pos 23)
  rw [BitVec.toNat_append, BitVec.toNat_ofNat, BitVec.toNat_ofNat,
    ← Nat.shiftLeft_add_eq_or_of_lt hmod, Nat.shiftLeft_eq]
  omega

theorem pack_eq (hn : n ≠ 0) (h : n < 2 ^ 24) :
    UnpackedFloat.pack .binary32
      (.finite .positive (mantissa n) (-(23 - n.log2 : Nat)) (mantissa_pos hn)) =
      packComponents .binary32 .positive (BitVec.ofNat 8 (127 + n.log2))
        (BitVec.ofNat 23 (mantissa n)) := by
  have hlog : n.log2 < 24 := (Nat.log2_lt hn).mpr h
  have hbiased : (-(23 - n.log2 : Nat) + (Format.binary32.exponentBias : Int) +
      Format.binary32.mantissaBitsWithoutImplicit).toNat = 127 + n.log2 := by
    have hbias : Format.binary32.exponentBias = 127 := rfl
    rw [hbias]
    dsimp only
    omega
  unfold UnpackedFloat.pack
  dsimp only
  rw [hbiased, if_neg (by omega), if_pos (by rw [log2_mantissa hn h]; rfl)]

/-- **The number is read back** from what it is packed to. -/
theorem unpack_pack (hn : n ≠ 0) (h : n < 2 ^ 24) :
    UnpackedFloat.unpack .binary32 (UnpackedFloat.pack .binary32 (UnpackedFloat.ofNat .binary32 n)) =
      UnpackedFloat.ofNat .binary32 n := by
  have hlog : n.log2 < 24 := (Nat.log2_lt hn).mpr h
  obtain ⟨hlow, hhigh⟩ :=
    (Nat.log2_eq_iff (Nat.ne_of_gt (mantissa_pos hn))).mp (log2_mantissa hn h)
  have hexponent : (BitVec.ofNat 8 (127 + n.log2)).toNat = 127 + n.log2 := by
    rw [BitVec.toNat_ofNat, Nat.mod_eq_of_lt (by omega)]
  have hzero : BitVec.ofNat 8 (127 + n.log2) ≠ 0#8 := by
    intro heq
    rw [heq] at hexponent
    change 0 = _ at hexponent
    omega
  have hones : BitVec.ofNat 8 (127 + n.log2) ≠ -1#8 := by
    intro heq
    rw [heq] at hexponent
    change 255 = _ at hexponent
    omega
  have himplicit := implicit_append hlow hhigh
  have hpos : 0 < (1#1 ++ BitVec.ofNat 23 (mantissa n)).toNat := by
    rw [himplicit]
    exact mantissa_pos hn
  have hunpack := @unpack_components .binary32 _ _ hzero hones hpos
  have hunbiased : ((127 + n.log2 : Nat) : Int) - ((127 : Nat) + (23 : Nat)) =
      -(23 - n.log2 : Nat) := by omega
  rw [ofNat_eq hn h, pack_eq hn h, hunpack]
  congr 1
  rw [hexponent]
  exact hunbiased

theorem shiftRight_mantissa (em : ExtendedMantissa) (k : Nat) :
    (em >>> k).mantissa = em.mantissa / 2 ^ k := by
  induction k with
  | zero => exact (Nat.div_one _).symm
  | succ k ih =>
    have hstep : (em >>> (k + 1)).mantissa = (em >>> k).mantissa / 2 := rfl
    rw [hstep, ih, Nat.div_div_eq_div_mul, Nat.pow_succ]

theorem toInt_ofNat (hn : n ≠ 0) (h : n < 2 ^ 24) (least most : Int) :
    (UnpackedFloat.ofNat .binary32 n).toInt least most = n := by
  have hback : (mantissa n <<< 0) / 2 ^ (23 - n.log2) = n := by
    rw [Nat.shiftLeft_zero]
    exact Nat.mul_div_cancel _ (Nat.two_pow_pos _)
  have hno : ((-(23 - n.log2 : Nat) : Int) - 0).toNat = 0 := by omega
  have hamount : ((0 : Int) - (-(23 - n.log2 : Nat) - (0 : Nat))).toNat = 23 - n.log2 := by omega
  rw [ofNat_eq hn h]
  unfold UnpackedFloat.toInt roundToInt decreaseExponent shiftToExponent
  dsimp only
  rw [hno, hamount, shiftRight_mantissa]
  unfold ExtendedMantissa.ofMantissaAndAccuracy
  dsimp only
  rw [hback]
  rfl

end Small

/-- **A number below 2^24 survives** the way to the bits of its float and back. -/
theorem toUInt32_ofBits (n : UInt32) (h : n.toNat < 2 ^ 24) :
    (Float32.ofBits n.toFloat32.toBits).toUInt32 = n := by
  by_cases hn : n.toNat = 0
  · have hzero : n = 0 := UInt32.toNat_inj.mp hn
    rw [hzero]
    decide
  · have hbits : n.toFloat32.toBits.toBitVec =
        UnpackedFloat.pack .binary32 (UnpackedFloat.ofNat .binary32 n.toNat) := rfl
    have hread : (Float32.ofBits n.toFloat32.toBits).toUInt32 =
        UnpackedFloat.toUInt32 (UnpackedFloat.unpack .binary32 (UnpackedFloat.pack .binary32
          (UnpackedFloat.unpack .binary32 n.toFloat32.toBits.toBitVec))) := rfl
    rw [hread, hbits, unpack_pack hn h, unpack_pack hn h]
    unfold UnpackedFloat.toUInt32
    rw [toInt_ofNat hn h, Int.toNat_natCast]
    unfold UInt32.ofNatClamp
    rw [dif_pos n.toNat_lt]
    rfl

end Catplay.Library.Binary32
