/-
This file proves that sums and products of rounded numbers are not rounded again where some rounded
number has the exact value of the result.
-/

import Mathlib
import TrigAlgebra.Proofs.FloatValues

namespace TrigAlgebra

open Float.Model Float.Model.UnpackedFloat

namespace Binary64

/-- Of two forms of one value, the one with the smaller exponent has the longer mantissa. -/
theorem eq_shifted {mantissa mantissa' : Nat} {exponent exponent' : Int} (order : exponent ≤ exponent')
    (equal : (mantissa : Rat) * 2 ^ exponent = mantissa' * 2 ^ exponent') :
    mantissa = 2 ^ (exponent' - exponent).toNat * mantissa' := by
  have aligned : (mantissa : Int) = mantissa' * (1 <<< (exponent' - exponent).toNat : Nat) :=
    (BigFloat.eq_shifted_iff order).1 (by exact_mod_cast equal)
  rw [Nat.one_shiftLeft, mul_comm] at aligned
  exact_mod_cast aligned

theorem signedNat_eq (negative : Bool) (mantissa : Nat) :
    BigFloat.signedNat negative mantissa = (signOf negative).apply mantissa := by
  cases negative <;> rfl

theorem apply_mul (sign sign' : Sign) (mantissa mantissa' : Nat) :
    (sign * sign').apply (mantissa * mantissa' : Nat) = sign.apply mantissa * sign'.apply mantissa' := by
  rw [Int.natCast_mul]
  cases sign <;> cases sign'
  · exact (Int.neg_mul_neg _ _).symm
  · exact (Int.neg_mul _ _).symm
  · exact (Int.mul_neg _ _).symm
  · rfl

/-- A sign and a size belong to one value only. -/
theorem apply_injective {sign sign' : Sign} {mantissa mantissa' : Nat} {unit unit' : Rat}
    (positive : 0 < mantissa * unit) (positive' : 0 < mantissa' * unit')
    (same : (sign.apply mantissa : Rat) * unit = sign'.apply mantissa' * unit') :
    sign = sign' ∧ mantissa * unit = mantissa' * unit' := by
  cases sign <;> cases sign' <;> simp only [Sign.apply, Int.cast_neg, Int.cast_natCast, neg_mul] at same
  · exact ⟨rfl, neg_injective same⟩
  · linarith
  · linarith
  · exact ⟨rfl, same⟩

theorem size_pos {mantissa : Nat} (positive : 0 < mantissa) (exponent : Int) :
    (0 : Rat) < mantissa * 2 ^ exponent :=
  mul_pos (by exact_mod_cast positive) (zpow_pos (by norm_num) exponent)

/-- A finite number is zero or has a canonical form. -/
theorem form_cases {value : Float} {number : Rat} (known : exactValue value = some number) :
    number = 0 ∨ ∃ sign mantissa exponent positive,
      value.toModel.unpack = .finite sign mantissa exponent positive ∧ Canonical mantissa exponent ∧
        number = sign.apply mantissa * 2 ^ exponent := by
  obtain ⟨negative, mantissa, exponent, decoded, isNumber⟩ := decode_of_exactValue known
  rcases Nat.eq_zero_or_pos mantissa with zero | positive
  · rw [(exactValue_eq_zero decoded).2 zero] at known
    exact .inl (Option.some.inj known).symm
  · refine .inr ⟨signOf negative, mantissa, exponent, positive, ?_, canonical_of_decode decoded, ?_⟩
    · rw [unpack_eq, decoded, unpacked_finite positive]
    · rw [isNumber, signedNat_eq]

/-- The canonical form of a value other than zero has its sign and its size. -/
theorem form_of_value {value : Float} {sign : Sign} {mantissa : Nat} {exponent : Int}
    (positive : 0 < mantissa) (known : exactValue value = some ((sign.apply mantissa : Rat) * 2 ^ exponent)) :
    ∃ mantissa' exponent' positive', value.toModel.unpack = .finite sign mantissa' exponent' positive' ∧
      Canonical mantissa' exponent' ∧ (mantissa : Rat) * 2 ^ exponent = mantissa' * 2 ^ exponent' := by
  have size := size_pos positive exponent
  rcases form_cases known with zero | ⟨sign', mantissa', exponent', positive', form, canonical, same⟩
  · cases sign <;> simp only [Sign.apply, Int.cast_neg, Int.cast_natCast, neg_mul] at zero <;> linarith
  · obtain ⟨rfl, equal⟩ := apply_injective size (size_pos positive' exponent') same
    exact ⟨mantissa', exponent', positive', form, canonical, equal⟩

/-- Rounding finds the canonical form of a value that has one. -/
theorem round_exact (sign : Sign) {mantissa mantissa' : Nat} {exponent exponent' : Int}
    (positive : 0 < mantissa) (positive' : 0 < mantissa') (canonical : Canonical mantissa' exponent')
    (equal : (mantissa : Rat) * 2 ^ exponent = mantissa' * 2 ^ exponent') :
    UnpackedFloat.round Format.binary64 sign mantissa exponent = .finite sign mantissa' exponent' positive' := by
  unfold UnpackedFloat.round
  rcases Int.le_total exponent exponent' with order | order
  · obtain ⟨digits, rfl⟩ : ∃ digits : Nat, exponent = exponent' - digits :=
      ⟨(exponent' - exponent).toNat, by omega⟩
    have shifted := eq_shifted order equal
    have amount : (exponent' - (exponent' - digits)).toNat = digits := by omega
    have none : (exponent' - digits - exponent').toNat = 0 := by omega
    rw [amount] at shifted
    rw [shifted, totalExponent_shift digits positive', canonical.targetExponent_eq positive']
    unfold decreaseExponent
    dsimp only
    rw [none, Nat.shiftLeft_zero, Int.natCast_zero, Int.sub_zero]
    exact roundWithAccuracy_exact sign digits positive' canonical
  · obtain ⟨digits, rfl⟩ : ∃ digits : Nat, exponent' = exponent - digits :=
      ⟨(exponent - exponent').toNat, by omega⟩
    have shifted := eq_shifted order equal.symm
    have amount : (exponent - (exponent - digits)).toNat = digits := by omega
    rw [amount] at shifted
    subst shifted
    rw [← totalExponent_shift digits positive, canonical.targetExponent_eq positive']
    unfold decreaseExponent
    dsimp only
    rw [amount, Nat.shiftLeft_eq, Nat.mul_comm]
    have kept := roundWithAccuracy_exact sign 0 positive' canonical
    rw [pow_zero, one_mul, Nat.cast_zero, sub_zero] at kept
    exact kept

/-- The product of two mantissas is long enough never to need more digits. -/
theorem exponent_le_of_product {mantissa mantissa' result : Nat} {exponent exponent' place : Int}
    (canonical : Canonical mantissa exponent) (canonical' : Canonical mantissa' exponent')
    (positive : 0 < mantissa) (positive' : 0 < mantissa') (canonicalResult : Canonical result place)
    (equal : ((mantissa * mantissa' : Nat) : Rat) * 2 ^ (exponent + exponent') = result * 2 ^ place) :
    exponent + exponent' ≤ place := by
  by_contra less
  rw [not_le] at less
  have shifted := eq_shifted less.le equal.symm
  have least := canonicalResult.least
  have doubled : 2 ^ 1 ≤ 2 ^ (exponent + exponent' - place).toNat :=
    Nat.pow_le_pow_right Nat.two_pos (by omega)
  have full : 2 ^ 52 ≤ mantissa * mantissa' := by
    rcases canonical.full with large | small
    · exact large.trans (Nat.le_mul_of_pos_right _ positive')
    · rcases canonical'.full with large | small'
      · exact large.trans (Nat.le_mul_of_pos_left _ positive)
      · omega
  have product := Nat.mul_le_mul doubled full
  have small := canonicalResult.small
  omega

variable {first second other : Float} {number number' : Rat}

/-- A product is exact if some number has its value. -/
theorem exactValue_mul (known : exactValue first = some number) (known' : exactValue second = some number')
    (isValue : exactValue other = some (number * number')) :
    exactValue (first * second) = some (number * number') := by
  rcases form_cases known with rfl | ⟨sign, mantissa, exponent, positive, form, canonical, rfl⟩
  · rw [zero_mul]
    exact exactValue_zero_mul known known'
  rcases form_cases known' with rfl | ⟨sign', mantissa', exponent', positive', form', canonical', rfl⟩
  · rw [mul_zero, mul_comm_eq]
    exact exactValue_zero_mul known' known
  have product : (sign.apply mantissa : Rat) * 2 ^ exponent * (sign'.apply mantissa' * 2 ^ exponent') =
      (sign * sign').apply (mantissa * mantissa' : Nat) * 2 ^ (exponent + exponent') := by
    rw [apply_mul, Int.cast_mul, zpow_add₀ (by norm_num : (2 : Rat) ≠ 0)]
    ring
  rw [product] at isValue ⊢
  apply exactValue_pack isValue
  obtain ⟨result, place, positiveResult, formResult, canonicalResult, equal⟩ :=
    form_of_value (Nat.mul_pos positive positive') isValue
  have order := exponent_le_of_product canonical canonical' positive positive' canonicalResult equal
  obtain ⟨digits, shifted⟩ : ∃ digits : Nat, exponent + exponent' = place - digits :=
    ⟨(place - (exponent + exponent')).toNat, by omega⟩
  have amount : (place - (place - (digits : Int))).toNat = digits := by omega
  have aligned := eq_shifted order equal
  rw [shifted, amount] at aligned
  left
  rw [form, form', formResult]
  change roundWithAccuracy Format.binary64 (sign * sign') (mantissa * mantissa') (exponent + exponent') _ = _
  rw [shifted, aligned]
  exact roundWithAccuracy_exact (sign * sign') digits positiveResult canonicalResult

/-- What is normalized to a value that a number has takes the form of the number. -/
theorem normalize_exact {mantissa exponent : Int}
    (isValue : exactValue other = some ((mantissa : Rat) * 2 ^ exponent)) :
    UnpackedFloat.normalize Format.binary64 mantissa exponent .positive = other.toModel.unpack ∨
      ((mantissa : Rat) * 2 ^ exponent = 0 ∧
        ∃ sign, UnpackedFloat.normalize Format.binary64 mantissa exponent .positive = .zero sign) := by
  rcases eq_or_ne mantissa 0 with rfl | nonzero
  · exact .inr ⟨by rw [Int.cast_zero, zero_mul], .positive, rfl⟩
  · obtain ⟨sign, signed⟩ : ∃ sign : Sign, sign.apply mantissa.natAbs = mantissa := by
      rcases Int.natAbs_eq mantissa with same | same
      · exact ⟨.positive, same.symm⟩
      · exact ⟨.negative, same.symm⟩
    have positive := Int.natAbs_pos.2 nonzero
    rw [← signed] at isValue
    obtain ⟨result, place, positiveResult, formResult, canonicalResult, equal⟩ :=
      form_of_value positive isValue
    left
    rw [formResult, ← signed, normalize_apply sign .positive positive]
    exact round_exact sign positive positiveResult canonicalResult equal

/-- A form with a smaller exponent has the same value. -/
theorem apply_aligned (sign : Sign) (mantissa : Nat) {exponent place : Int} (order : place ≤ exponent) :
    (sign.apply (mantissa <<< (exponent - place).toNat : Nat) : Rat) * 2 ^ place =
      sign.apply mantissa * 2 ^ exponent := by
  have unit : (2 : Rat) ^ (exponent - place).toNat * 2 ^ place = 2 ^ exponent := by
    rw [← zpow_natCast, ← zpow_add₀ (by norm_num : (2 : Rat) ≠ 0)]
    congr 1
    omega
  rw [Nat.shiftLeft_eq, ← unit]
  cases sign <;> simp only [Sign.apply] <;> push_cast <;> ring

/-- A sum is exact if some number has its value. -/
theorem exactValue_add (known : exactValue first = some number) (known' : exactValue second = some number')
    (isValue : exactValue other = some (number + number')) :
    exactValue (first + second) = some (number + number') := by
  rcases form_cases known with rfl | ⟨sign, mantissa, exponent, positive, form, -, rfl⟩
  · rw [zero_add]
    exact exactValue_zero_add known known'
  rcases form_cases known' with rfl | ⟨sign', mantissa', exponent', positive', form', -, rfl⟩
  · rw [add_zero]
    exact exactValue_add_zero known known'
  have sum : (sign.apply mantissa : Rat) * 2 ^ exponent + sign'.apply mantissa' * 2 ^ exponent' =
      ((sign.apply (mantissa <<< (exponent - min exponent exponent').toNat : Nat) +
        sign'.apply (mantissa' <<< (exponent' - min exponent exponent').toNat : Nat) : Int) : Rat) *
          2 ^ min exponent exponent' := by
    rw [Int.cast_add, add_mul, apply_aligned sign mantissa (min_le_left _ _),
      apply_aligned sign' mantissa' (min_le_right _ _)]
  rw [sum] at isValue ⊢
  apply exactValue_pack isValue
  rw [form, form']
  exact normalize_exact isValue

end Binary64

end TrigAlgebra
