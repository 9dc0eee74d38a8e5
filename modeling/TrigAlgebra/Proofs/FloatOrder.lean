/-
This file proves that finite rounded numbers are ordered as their exact values are, and that differences
and sizes have the exact values where a rounded number has them.
-/

import Mathlib
import TrigAlgebra.Proofs.ExactArithmetic

namespace TrigAlgebra

open Float.Model Float.Model.UnpackedFloat

namespace Binary64

section Signs

/-- A form with another sign, which depends on the one that it has. -/
def withSignOf (sign : Sign → Sign) : UnpackedFloat → UnpackedFloat
  | .notANumber => .notANumber
  | .infinity old => .infinity (sign old)
  | .zero old => .zero (sign old)
  | .finite old mantissa exponent positive => .finite (sign old) mantissa exponent positive

theorem neg_eq_withSignOf (form : UnpackedFloat) : form.neg = withSignOf (-·) form := by
  cases form <;> rfl

theorem abs_eq_withSignOf (form : UnpackedFloat) : form.abs = withSignOf (fun _ => .positive) form := by
  cases form <;> rfl

variable (sign : Sign → Sign)

/-- The sign is packed beside exponent and fraction and changes neither. -/
theorem unpack_packComponents (old : Sign) (exponent : BitVec 11) (fraction : BitVec 52) :
    UnpackedFloat.unpack .binary64 (packComponents .binary64 (sign old) exponent fraction) =
      withSignOf sign (UnpackedFloat.unpack .binary64 (packComponents .binary64 old exponent fraction)) := by
  simp only [UnpackedFloat.unpack, unpackMantissa_packComponents, unpackExponent_packComponents,
    unpackSign_packComponents, Sign.ofBitVec_toBitVec]
  split
  · split <;> rfl
  · split
    · split <;> rfl
    · rfl

/-- The bits hold the sign apart from everything else. -/
theorem unpack_pack_withSignOf (form : UnpackedFloat) :
    UnpackedFloat.unpack .binary64 (UnpackedFloat.pack .binary64 (withSignOf sign form)) =
      withSignOf sign (UnpackedFloat.unpack .binary64 (UnpackedFloat.pack .binary64 form)) := by
  cases form with
  | notANumber => rw [withSignOf, UnpackedFloat.pack, unpack_packedNaN, withSignOf]
  | infinity old => exact unpack_packComponents sign old _ _
  | zero old => exact unpack_packComponents sign old _ _
  | finite old mantissa exponent positive =>
      simp only [withSignOf, UnpackedFloat.pack]
      split
      · exact unpack_packComponents sign old _ _
      · split <;> exact unpack_packComponents sign old _ _

/-- A number that comes from bits is packed into the same bits. -/
theorem unpack_pack_unpack (value : Float) :
    UnpackedFloat.unpack .binary64 (UnpackedFloat.pack .binary64 value.toModel.unpack) =
      value.toModel.unpack :=
  congrArg (UnpackedFloat.unpack .binary64) (pack_unpack_of_valid value.toModel.valid)

/-- The negative of a number has the opposite sign and nothing else. -/
theorem unpack_neg (value : Float) : (-value).toModel.unpack = value.toModel.unpack.neg := by
  have packed := unpack_pack_withSignOf (-·) value.toModel.unpack
  rw [unpack_pack_unpack, ← neg_eq_withSignOf] at packed
  exact packed

/-- The absolute value has the positive sign and nothing else. -/
theorem unpack_abs (value : Float) : value.abs.toModel.unpack = value.toModel.unpack.abs := by
  have packed := unpack_pack_withSignOf (fun _ => .positive) value.toModel.unpack
  rw [unpack_pack_unpack, ← abs_eq_withSignOf] at packed
  exact packed

end Signs

section Order

variable {first second other : Float} {number number' : Rat}

/-- Canonical forms are ordered by their exponents first. -/
theorem canonical_lt {mantissa mantissa' : Nat} {exponent exponent' : Int}
    (canonical : Canonical mantissa exponent) (canonical' : Canonical mantissa' exponent')
    (less : exponent < exponent') : (mantissa : Rat) * 2 ^ exponent < mantissa' * 2 ^ exponent' := by
  have full : 2 ^ 52 ≤ mantissa' := canonical'.full.resolve_right (by have := canonical.least; omega)
  calc (mantissa : Rat) * 2 ^ exponent
      < 2 ^ 53 * 2 ^ exponent :=
        mul_lt_mul_of_pos_right (by exact_mod_cast canonical.small) (zpow_pos (by norm_num) exponent)
    _ = 2 ^ 52 * 2 ^ (exponent + 1) := by
        rw [zpow_add₀ (by norm_num), zpow_one]
        ring
    _ ≤ 2 ^ 52 * 2 ^ exponent' :=
        mul_le_mul_of_nonneg_left (zpow_le_zpow_right₀ (by norm_num) less) (by norm_num)
    _ ≤ mantissa' * 2 ^ exponent' :=
        mul_le_mul_of_nonneg_right (by exact_mod_cast full) (zpow_pos (by norm_num) exponent').le

/-- Canonical forms are compared by their exponents first. -/
theorem compare_canonical {mantissa mantissa' : Nat} {exponent exponent' : Int}
    (canonical : Canonical mantissa exponent) (canonical' : Canonical mantissa' exponent') :
    (compare exponent exponent').then (compare mantissa mantissa') =
      compare ((mantissa : Rat) * 2 ^ exponent) (mantissa' * 2 ^ exponent') := by
  rcases Int.lt_trichotomy exponent exponent' with less | rfl | greater
  · rw [compare_lt_iff_lt.2 less, compare_lt_iff_lt.2 (canonical_lt canonical canonical' less)]
    rfl
  · have unit : (0 : Rat) < 2 ^ exponent := zpow_pos (by norm_num) exponent
    rw [compare_eq_iff_eq.2 rfl, Ordering.then, ← cmp_eq_compare, ← cmp_eq_compare,
      cmp_mul_pos_right unit, Nat.strictMono_cast.cmp_map_eq]
  · rw [compare_gt_iff_gt.2 greater, compare_gt_iff_gt.2 (canonical_lt canonical' canonical greater)]
    rfl

/-- Negation turns an order around. -/
theorem compare_neg_neg (left right : Rat) : compare (-left) (-right) = (compare left right).swap := by
  rw [← cmp_eq_compare, ← cmp_eq_compare, cmp_swap]
  exact (StrictAnti.cmp_map_eq fun _ _ => neg_lt_neg) left right

section Forms

variable {sign sign' zeroSign : Sign} {mantissa mantissa' : Nat} {exponent exponent' : Int}
  (positive : 0 < mantissa) (positive' : 0 < mantissa')

theorem compare_zero_finite : (UnpackedFloat.zero zeroSign).compare (.finite sign mantissa exponent positive) =
    some (compare 0 ((sign.apply mantissa : Rat) * 2 ^ exponent)) := by
  have size := size_pos positive exponent
  cases sign with
  | negative =>
      rw [compare_gt_iff_gt.2 (by simpa [Sign.apply] using size)]
      rfl
  | positive =>
      rw [compare_lt_iff_lt.2 (by simpa [Sign.apply] using size)]
      rfl

theorem compare_finite_zero : (UnpackedFloat.finite sign mantissa exponent positive).compare (.zero zeroSign) =
    some (compare ((sign.apply mantissa : Rat) * 2 ^ exponent) 0) := by
  have size := size_pos positive exponent
  cases sign with
  | negative =>
      rw [compare_lt_iff_lt.2 (by simpa [Sign.apply] using size)]
      rfl
  | positive =>
      rw [compare_gt_iff_gt.2 (by simpa [Sign.apply] using size)]
      rfl

/-- Two finite forms are compared as the numbers that they stand for. -/
theorem compare_finite_finite (canonical : Canonical mantissa exponent) (canonical' : Canonical mantissa' exponent') :
    (UnpackedFloat.finite sign mantissa exponent positive).compare (.finite sign' mantissa' exponent' positive') =
      some (compare ((sign.apply mantissa : Rat) * 2 ^ exponent) (sign'.apply mantissa' * 2 ^ exponent')) := by
  have size := size_pos positive exponent
  have size' := size_pos positive' exponent'
  have ordered := compare_canonical canonical canonical'
  cases sign <;> cases sign' <;> simp only [Sign.apply, Int.cast_neg, Int.cast_natCast, neg_mul]
  · rw [compare_neg_neg, ← ordered]
    rfl
  · rw [compare_lt_iff_lt.2 (by linarith)]
    rfl
  · rw [compare_gt_iff_gt.2 (by linarith)]
    rfl
  · rw [← ordered]
    rfl

end Forms

/-- Finite numbers are compared by their exact values. -/
theorem compare_of_exactValue (known : exactValue first = some number)
    (known' : exactValue second = some number') :
    first.toModel.unpack.compare second.toModel.unpack = some (compare number number') := by
  rcases form_cases known with rfl | ⟨sign, mantissa, exponent, positive, form, canonical, rfl⟩
  · obtain ⟨zeroSign, zeroForm⟩ := unpack_zero known
    rcases form_cases known' with rfl | ⟨sign', mantissa', exponent', positive', form', -, rfl⟩
    · obtain ⟨zeroSign', zeroForm'⟩ := unpack_zero known'
      rw [zeroForm, zeroForm', compare_eq_iff_eq.2 rfl]
      rfl
    · rw [zeroForm, form', compare_zero_finite]
  · rcases form_cases known' with rfl | ⟨sign', mantissa', exponent', positive', form', canonical', rfl⟩
    · obtain ⟨zeroSign', zeroForm'⟩ := unpack_zero known'
      rw [form, zeroForm', compare_finite_zero]
    · rw [form, form', compare_finite_finite positive positive' canonical canonical']

/-- Numbers are compared in their unpacked forms. -/
theorem le_iff_unpack {value other : Float} :
    value ≤ other ↔ value.toModel.unpack.le other.toModel.unpack = true := by
  change decide (value.toModel.unpack.le other.toModel.unpack = true) = true ↔ _
  rw [decide_eq_true_eq]

/-- The order of numbers is that of their exact values. -/
theorem le_iff_of_exactValue (known : exactValue first = some number)
    (known' : exactValue second = some number') : first ≤ second ↔ number ≤ number' := by
  rw [le_iff_unpack, UnpackedFloat.le, compare_of_exactValue known known', Option.any_some, Ordering.isLE_iff_ne_gt]
  exact compare_le_iff_le

end Order

section Differences

variable {value first second other : Float} {number number' : Rat}

/-- A finite form is the exact value of its number. -/
theorem exactValue_of_form {sign : Sign} {mantissa : Nat} {exponent : Int} {positive : 0 < mantissa}
    (form : value.toModel.unpack = .finite sign mantissa exponent positive) :
    exactValue value = some ((sign.apply mantissa : Rat) * 2 ^ exponent) := by
  rw [unpack_eq] at form
  cases decoded : decode value with
  | finite negative digits place =>
      rw [decoded] at form
      rcases Nat.eq_zero_or_pos digits with rfl | nonzero
      · cases form
      · rw [unpacked_finite nonzero] at form
        cases form
        rw [exactValue_of_decode decoded, signedNat_eq]
  | infinite negative =>
      rw [decoded] at form
      cases form
  | undefined =>
      rw [decoded] at form
      cases form

theorem exactValue_of_zero {sign : Sign} (form : value.toModel.unpack = .zero sign) :
    exactValue value = some 0 := by
  have same : value = Float.ofModel (Float.Model.pack (.zero sign)) := by
    apply toModel_injective
    rw [← form, unpack_eq, pack_unpacked]
  rw [same, exactValue_zero]

/-- Negation is exact. -/
theorem exactValue_neg (known : exactValue value = some number) : exactValue (-value) = some (-number) := by
  rcases form_cases known with rfl | ⟨sign, mantissa, exponent, positive, form, -, rfl⟩
  · obtain ⟨sign, form⟩ := unpack_zero known
    rw [neg_zero]
    have form' : (-value).toModel.unpack = .zero (-sign) := by
      rw [unpack_neg, form]
      rfl
    exact exactValue_of_zero form'
  · have form' : (-value).toModel.unpack = .finite (-sign) mantissa exponent positive := by
      rw [unpack_neg, form]
      rfl
    rw [exactValue_of_form form']
    cases sign <;> simp only [Sign.apply] <;> push_cast <;> ring_nf

/-- The absolute value is exact. -/
theorem exactValue_abs (known : exactValue value = some number) : exactValue value.abs = some |number| := by
  rcases form_cases known with rfl | ⟨sign, mantissa, exponent, positive, form, -, rfl⟩
  · obtain ⟨sign, form⟩ := unpack_zero known
    rw [abs_zero]
    have form' : value.abs.toModel.unpack = .zero .positive := by
      rw [unpack_abs, form]
      rfl
    exact exactValue_of_zero form'
  · have size := size_pos positive exponent
    have form' : value.abs.toModel.unpack = .finite .positive mantissa exponent positive := by
      rw [unpack_abs, form]
      rfl
    rw [exactValue_of_form form']
    cases sign <;> simp only [Sign.apply, Int.cast_neg, Int.cast_natCast, neg_mul, abs_neg, abs_of_pos size]

/-- A difference is the sum with the negative. -/
theorem sub_eq_add (first second : UnpackedFloat) :
    UnpackedFloat.sub .binary64 first second = UnpackedFloat.add .binary64 first second.neg := by
  have applied (sign : Sign) (mantissa : Int) : (-sign).apply mantissa = -sign.apply mantissa := by
    cases sign
    · exact (Int.neg_neg mantissa).symm
    · rfl
  cases first <;> cases second <;> simp only [UnpackedFloat.sub, UnpackedFloat.add, UnpackedFloat.neg, applied]
  all_goals rfl

/-- A difference is exact if some number has its value. -/
theorem exactValue_sub (known : exactValue first = some number) (known' : exactValue second = some number')
    (isValue : exactValue other = some (number - number')) :
    exactValue (first - second) = some (number - number') := by
  have same : first - second = first + -second := by
    apply toModel_injective
    change Float.Model.pack (UnpackedFloat.sub .binary64 first.toModel.unpack second.toModel.unpack) =
      Float.Model.pack (UnpackedFloat.add .binary64 first.toModel.unpack (-second).toModel.unpack)
    rw [unpack_neg, sub_eq_add]
  rw [sub_eq_add_neg] at isValue
  rw [same, sub_eq_add_neg]
  exact exactValue_add known (exactValue_neg known') isValue

/-- An integer that is a rounded number. -/
def IsExact (value : Int) : Prop :=
  exactValue (ofInt value) = some (value : Rat)

/-- The size of a difference of integers is the exact one where nothing has to be rounded. -/
theorem exactValue_distance {left right : Int} (exact : IsExact left) (exact' : IsExact right)
    (fits : IsExact (left - right)) :
    exactValue (ofInt left - ofInt right).abs = some ((|left - right| : Int) : Rat) := by
  have difference : exactValue (ofInt left - ofInt right) = some ((left : Rat) - right) :=
    exactValue_sub exact exact' (by rw [fits, Int.cast_sub])
  rw [exactValue_abs difference, Int.cast_abs, Int.cast_sub]

end Differences

end Binary64

end TrigAlgebra
