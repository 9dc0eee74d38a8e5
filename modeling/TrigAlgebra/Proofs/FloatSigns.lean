/-
This file follows the signs of rounded numbers: a sum of numbers of one sign has this sign and is
neither zero nor undefined, however far it is rounded and also where it is too large.
-/

import TrigAlgebra.Proofs.FloatValues

namespace TrigAlgebra

open Float.Model Float.Model.UnpackedFloat

namespace Binary64

/-- A number other than zero, perhaps infinite, in a form that the bits can hold. -/
inductive Directed (sign : Sign) : UnpackedFloat → Prop
  | infinity : Directed sign (.infinity sign)
  | finite {mantissa : Nat} {exponent : Int} (positive : 0 < mantissa) (small : mantissa < 2 ^ 53)
      (least : -1074 ≤ exponent) : Directed sign (.finite sign mantissa exponent positive)

/-- The negative points the other way. -/
theorem Directed.neg {sign : Sign} {form : UnpackedFloat} (directed : Directed sign form) :
    Directed (-sign) form.neg := by
  cases directed with
  | infinity => exact .infinity
  | finite positive small least => exact .finite positive small least

/-- Where a mantissa is shifted to: a place where it has at most 53 digits, but not below the least. -/
theorem targetExponent_eq (mantissa : Nat) (exponent : Int) :
    Format.binary64.targetExponent (totalExponent mantissa exponent) =
      max ((mantissa.log2 : Int) + 1 + exponent - 53) (-1074) := rfl

/-- A shift to the right is a division by a power of two. -/
theorem mantissa_shiftRight (extended : ExtendedMantissa) (digits : Nat) :
    (extended >>> digits).mantissa = extended.mantissa / 2 ^ digits := by
  induction digits with
  | zero => exact (Nat.div_one _).symm
  | succ digits hypothesis =>
      change (extended >>> digits).mantissa / 2 = _
      rw [hypothesis, Nat.div_div_eq_div_mul, pow_succ]

theorem mantissa_ofMantissaAndAccuracy (mantissa : Nat) (accuracy : Accuracy) :
    (ExtendedMantissa.ofMantissaAndAccuracy mantissa accuracy).mantissa = mantissa := by
  cases accuracy with
  | exact => rfl
  | inexact order => cases order <;> rfl

/-- Of a mantissa that is too long, the first 53 digits are left. -/
theorem div_two_pow_log2 {mantissa : Nat} (long : 2 ^ 53 ≤ mantissa) :
    0 < mantissa / 2 ^ (mantissa.log2 - 52) ∧ mantissa / 2 ^ (mantissa.log2 - 52) < 2 ^ 53 := by
  have nonzero : mantissa ≠ 0 := by omega
  have length : 53 ≤ mantissa.log2 := (Nat.le_log2 nonzero).2 long
  have least := Nat.log2_self_le nonzero
  have split : 2 ^ (mantissa.log2 + 1) = 2 ^ 53 * 2 ^ (mantissa.log2 - 52) := by
    rw [← pow_add]
    congr 1
    omega
  constructor
  · exact Nat.div_pos ((Nat.pow_le_pow_right Nat.two_pos (Nat.sub_le _ _)).trans least)
      (Nat.two_pow_pos _)
  · rw [Nat.div_lt_iff_lt_mul (Nat.two_pow_pos _), ← split]
    exact Nat.lt_log2_self

/-- Shifting leaves some digits, and at most 53 of them. -/
theorem shiftToTargetExponent_bounds {mantissa : Nat} {exponent : Int} (accuracy : Accuracy)
    (positive : 0 < mantissa) (least : -1074 ≤ exponent) :
    0 < (shiftToTargetExponent .binary64 mantissa exponent accuracy).1.mantissa ∧
      (shiftToTargetExponent .binary64 mantissa exponent accuracy).1.mantissa < 2 ^ 53 ∧
        -1074 ≤ (shiftToTargetExponent .binary64 mantissa exponent accuracy).2 := by
  unfold shiftToTargetExponent shiftToExponent
  dsimp only
  rw [targetExponent_eq, mantissa_shiftRight, mantissa_ofMantissaAndAccuracy]
  by_cases long : 2 ^ 53 ≤ mantissa
  · have length : 53 ≤ mantissa.log2 := (Nat.le_log2 positive.ne').2 long
    have amount : (max ((mantissa.log2 : Int) + 1 + exponent - 53) (-1074) - exponent).toNat =
        mantissa.log2 - 52 := by omega
    rw [amount]
    exact ⟨(div_two_pow_log2 long).1, (div_two_pow_log2 long).2, by omega⟩
  · have length : mantissa.log2 < 53 := (Nat.log2_lt positive.ne').2 (Nat.lt_of_not_le long)
    have amount : (max ((mantissa.log2 : Int) + 1 + exponent - 53) (-1074) - exponent).toNat = 0 := by
      omega
    rw [amount, pow_zero, Nat.div_one]
    exact ⟨positive, Nat.lt_of_not_le long, by omega⟩

/-- Rounding never makes a mantissa smaller. -/
theorem le_roundedMantissa (extended : ExtendedMantissa) :
    extended.mantissa ≤ extended.roundedMantissa := by
  obtain ⟨mantissa, round, sticky⟩ := extended
  cases round <;> cases sticky
  · exact Nat.le_refl mantissa
  · exact Nat.le_refl mantissa
  · exact Nat.le_add_right mantissa _
  · exact Nat.le_add_right mantissa 1

/-- Rounding keeps the sign, and a number other than zero stays one. -/
theorem directed_roundWithAccuracy (sign : Sign) {mantissa : Nat} {exponent : Int} (accuracy : Accuracy)
    (positive : 0 < mantissa) (least : -1074 ≤ exponent) :
    Directed sign (roundWithAccuracy .binary64 sign mantissa exponent accuracy) := by
  obtain ⟨shifted, -, above⟩ := shiftToTargetExponent_bounds accuracy positive least
  have rounded := Nat.lt_of_lt_of_le shifted (le_roundedMantissa _)
  obtain ⟨positive', small, least'⟩ := shiftToTargetExponent_bounds .exact rounded above
  unfold roundWithAccuracy
  dsimp only
  rw [dif_neg positive'.ne']
  exact .finite positive' small least'

/-- A number other than zero is not rounded to zero. -/
theorem directed_round (sign : Sign) {mantissa : Nat} {exponent : Int} (positive : 0 < mantissa)
    (least : -1074 ≤ exponent) : Directed sign (UnpackedFloat.round .binary64 sign mantissa exponent) := by
  unfold UnpackedFloat.round decreaseExponent
  dsimp only
  refine directed_roundWithAccuracy sign .exact ?_ ?_
  · rw [Nat.shiftLeft_eq]
    exact Nat.mul_pos positive (Nat.two_pow_pos _)
  · rw [targetExponent_eq]
    omega

theorem apply_add (sign : Sign) (first second : Nat) :
    sign.apply first + sign.apply second = sign.apply (first + second : Nat) := by
  cases sign <;> simp only [Sign.apply] <;> omega

/-- Two numbers of one sign have a sum of that sign. -/
theorem Directed.add {sign : Sign} {first second : UnpackedFloat} (directed : Directed sign first)
    (directed' : Directed sign second) : Directed sign (UnpackedFloat.add .binary64 first second) := by
  cases directed with
  | infinity =>
      cases directed' with
      | infinity => cases sign <;> exact .infinity
      | finite positive' small' least' => exact .infinity
  | @finite mantissa exponent positive small least =>
      cases directed' with
      | infinity => exact .infinity
      | @finite mantissa' exponent' positive' small' least' =>
          have longer : 0 < mantissa <<< (exponent - min exponent exponent').toNat := by
            rw [Nat.shiftLeft_eq]
            exact Nat.mul_pos positive (Nat.two_pow_pos _)
          simp only [UnpackedFloat.add, decreaseExponent]
          rw [apply_add, normalize_apply sign .positive (Nat.add_pos_left longer _)]
          exact directed_round sign (Nat.add_pos_left longer _) (by omega)

/-- Sign, exponent and fraction stand beside each other. -/
theorem toNat_packComponents (sign : Sign) (exponent : BitVec 11) (fraction : BitVec 52) :
    (packComponents .binary64 sign exponent fraction).toNat =
      sign.toBitVec.toNat * signWeight + exponent.toNat * leadingWeight + fraction.toNat := by
  have joined := Nat.shiftLeft_add_eq_or_of_lt exponent.isLt sign.toBitVec.toNat
  have whole := Nat.shiftLeft_add_eq_or_of_lt fraction.isLt (sign.toBitVec ++ exponent).toNat
  rw [packComponents, BitVec.toNat_append, ← whole, BitVec.toNat_append, ← joined, Nat.shiftLeft_eq,
    Nat.shiftLeft_eq, signWeight, leadingWeight]
  omega

/-- Bits that stand neither for zero nor for an undefined number have the sign they were packed with. -/
theorem directed_packComponents (sign : Sign) (exponent : BitVec 11) (fraction : BitVec 52)
    (defined : exponent.toNat = topExponent → fraction.toNat = 0)
    (nonzero : exponent.toNat = 0 → 0 < fraction.toNat) :
    Directed sign (UnpackedFloat.unpack .binary64 (packComponents .binary64 sign exponent fraction)) := by
  rw [unpack_bits, toNat_packComponents, decodeBits]
  have inside := exponent.isLt
  have small := fraction.isLt
  generalize exponent.toNat = place at *
  generalize fraction.toNat = digits at *
  have first : sign.toBitVec.toNat < 2 := sign.toBitVec.isLt
  have signBit : (sign.toBitVec.toNat * signWeight + place * leadingWeight + digits) / signWeight =
      sign.toBitVec.toNat := by
    rw [signWeight, leadingWeight]
    omega
  have stored : (sign.toBitVec.toNat * signWeight + place * leadingWeight + digits) / leadingWeight %
      (topExponent + 1) = place := by
    rw [signWeight, leadingWeight, topExponent]
    omega
  have rest : (sign.toBitVec.toNat * signWeight + place * leadingWeight + digits) % leadingWeight =
      digits := by
    rw [signWeight, leadingWeight]
    omega
  have same : signOf (sign.toBitVec.toNat == 1) = sign := by cases sign <;> rfl
  rw [signBit, stored, rest]
  by_cases top : place = topExponent
  · rw [if_pos (beq_iff_eq.2 top), if_pos (beq_iff_eq.2 (defined top)), Decoded.unpacked, same]
    exact .infinity
  · rw [if_neg (mt beq_iff_eq.1 top)]
    by_cases least : place = 0
    · rw [if_pos (beq_iff_eq.2 least), unpacked_finite (nonzero least), same]
      exact .finite _ (by omega) (Int.le_refl _)
    · have full : 0 < digits + leadingWeight := Nat.add_pos_right _ (by decide)
      rw [if_neg (mt beq_iff_eq.1 least), unpacked_finite full, same]
      exact .finite full (by rw [leadingWeight]; omega) (by omega)

/-- An infinity has its sign. -/
theorem directed_packedInfinity (sign : Sign) :
    Directed sign (UnpackedFloat.unpack .binary64 (packedInfinity .binary64 sign)) :=
  directed_packComponents sign _ _ (fun _ => rfl) fun absurd => by cases absurd

/-- A form that the bits can hold keeps its sign there, or becomes infinite with this sign. -/
theorem Directed.packed {sign : Sign} {form : UnpackedFloat} (directed : Directed sign form) :
    Directed sign (UnpackedFloat.unpack .binary64 (UnpackedFloat.pack .binary64 form)) := by
  cases directed with
  | infinity => exact directed_packedInfinity sign
  | @finite mantissa exponent positive small least =>
      unfold UnpackedFloat.pack
      dsimp only
      split
      · exact directed_packedInfinity sign
      · rename_i bounded
        change ¬ 2 ^ 11 ≤ (exponent + 1023 + 52).toNat + 1 at bounded
        split
        · refine directed_packComponents sign _ _ (fun top => ?_) fun zero => ?_
          · rw [BitVec.toNat_ofNat, topExponent] at top
            change (exponent + 1023 + 52).toNat % 2 ^ 11 = _ at top
            omega
          · rw [BitVec.toNat_ofNat] at zero
            change (exponent + 1023 + 52).toNat % 2 ^ 11 = _ at zero
            omega
        · rename_i short
          change ¬ mantissa.log2 + 1 = 53 at short
          have length : mantissa.log2 < 53 := (Nat.log2_lt positive.ne').2 small
          have below : mantissa < 2 ^ 52 := (Nat.log2_lt positive.ne').1 (by omega)
          refine directed_packComponents sign _ _ (fun top => by cases top) fun _ => ?_
          rw [BitVec.toNat_ofNat]
          rwa [Nat.mod_eq_of_lt below]

/-- The number has a sign and is neither zero nor undefined. -/
def HasSign (sign : Sign) (value : Float) : Prop :=
  Directed sign value.toModel.unpack

theorem hasSign_one : HasSign .positive 1.0 := by
  rw [HasSign, unpack_eq, unpacked_one]
  exact .finite _ (by decide) (by decide)

variable {sign : Sign} {first second value : Float}

/-- The same for packed numbers. -/
theorem HasSign.add (signed : HasSign sign first) (signed' : HasSign sign second) :
    HasSign sign (first + second) :=
  (Directed.add signed signed').packed

/-- The negative has the other sign. -/
theorem HasSign.neg (signed : HasSign sign value) : HasSign (-sign) (-value) :=
  (Directed.neg signed).packed

/-- A number with a sign is not zero. -/
theorem HasSign.isZero_eq_false (signed : HasSign sign value) : (BigFloat.ofFloat value).isZero = false := by
  rw [HasSign, unpack_eq] at signed
  unfold BigFloat.ofFloat
  cases decoded : decode value with
  | finite negative mantissa exponent =>
      rw [Bool.eq_false_iff, ne_eq, BigFloat.isZero_signedNat]
      rintro rfl
      rw [decoded] at signed
      cases signed
  | infinite negative => rfl
  | undefined => rfl

end Binary64

end TrigAlgebra
