/-
This file proves that quotients of integers of at most 64 binary digits have the sign that they should
have, also where the integers are rounded first.
-/

import Mathlib
import TrigAlgebra.Proofs.FloatOrder
import TrigAlgebra.Proofs.FloatSigns
import TrigAlgebra.Proofs.IntegerSizes

namespace TrigAlgebra

open Float.Model Float.Model.UnpackedFloat

namespace Binary64

section Ratios

variable {numerator denominator : Nat}

/-- A scaled quotient is the quotient over the power of two. -/
theorem scale_spec (numerator : Nat) (positive : 0 < denominator) (exponent : Int) :
    0 < (Decimal.scale 2 numerator denominator exponent).2 ∧
      ((Decimal.scale 2 numerator denominator exponent).1 : Rat) * (denominator * 2 ^ exponent) =
        numerator * (Decimal.scale 2 numerator denominator exponent).2 := by
  unfold Decimal.scale
  split
  · rename_i large
    have unit : (2 : Rat) ^ exponent = 2 ^ exponent.toNat := by
      rw [← zpow_natCast, Int.toNat_of_nonneg large]
    refine ⟨Nat.mul_pos positive (Nat.two_pow_pos _), ?_⟩
    change (numerator : Rat) * _ = numerator * ((denominator * 2 ^ exponent.toNat : Nat) : Rat)
    rw [unit, Nat.cast_mul, Nat.cast_pow, Nat.cast_ofNat]
  · rename_i small
    have unit : (2 : Rat) ^ (-exponent).toNat * 2 ^ exponent = 1 := by
      rw [← zpow_natCast, Int.toNat_of_nonneg (by omega), ← zpow_add₀ (by norm_num : (2 : Rat) ≠ 0),
        Int.add_left_neg, zpow_zero]
    refine ⟨positive, ?_⟩
    change ((numerator * 2 ^ (-exponent).toNat : Nat) : Rat) * _ = numerator * (denominator : Rat)
    rw [Nat.cast_mul, Nat.cast_pow, Nat.cast_ofNat]
    linear_combination (numerator : Rat) * denominator * unit

/-- The scaled quotient has as many digits as its value calls for. -/
theorem scale_lt_iff (positive : 0 < denominator) (exponent : Int) (digits : Nat) :
    (Decimal.scale 2 numerator denominator exponent).1 <
        2 ^ digits * (Decimal.scale 2 numerator denominator exponent).2 ↔
      (numerator : Rat) < denominator * 2 ^ (exponent + digits) := by
  obtain ⟨below, same⟩ := scale_spec numerator positive exponent
  have lower : (0 : Rat) < (Decimal.scale 2 numerator denominator exponent).2 := by exact_mod_cast below
  have unit : (0 : Rat) < denominator * 2 ^ exponent :=
    mul_pos (by exact_mod_cast positive) (zpow_pos (by norm_num) exponent)
  have whole : (denominator : Rat) * 2 ^ (exponent + digits) = denominator * 2 ^ exponent * 2 ^ digits := by
    rw [zpow_add₀ (by norm_num : (2 : Rat) ≠ 0), zpow_natCast, mul_assoc]
  have crossed : (2 : Rat) ^ digits * (Decimal.scale 2 numerator denominator exponent).2 *
      (denominator * 2 ^ exponent) = denominator * 2 ^ exponent * 2 ^ digits *
        (Decimal.scale 2 numerator denominator exponent).2 := by
    ring
  calc (Decimal.scale 2 numerator denominator exponent).1 <
        2 ^ digits * (Decimal.scale 2 numerator denominator exponent).2
      ↔ ((Decimal.scale 2 numerator denominator exponent).1 : Rat) <
          2 ^ digits * (Decimal.scale 2 numerator denominator exponent).2 := by exact_mod_cast Iff.rfl
    _ ↔ (numerator : Rat) < denominator * 2 ^ (exponent + digits) := by
      rw [← mul_lt_mul_iff_left₀ unit, same, crossed, mul_lt_mul_iff_left₀ lower, whole]

/-- A number is at least the power of two of its leading bit. -/
theorem two_pow_bitLength_le {number : Nat} (positive : 0 < number) :
    2 ^ (bitLength number - 1) ≤ number := by
  rw [bitLength_eq positive, Nat.add_sub_cancel]
  exact Nat.log2_self_le positive.ne'

/-- The quotient is less than the power of two that its lengths say. -/
theorem ratio_lt (positive : 0 < denominator) :
    (numerator : Rat) < denominator * 2 ^ ((bitLength numerator : Int) - bitLength denominator + 1) := by
  have length : 1 ≤ bitLength denominator := by
    rw [bitLength_eq positive]
    exact Nat.le_add_left 1 _
  have unit : (2 : Rat) ^ bitLength numerator = 2 ^ (bitLength denominator - 1) *
      2 ^ ((bitLength numerator : Int) - bitLength denominator + 1) := by
    rw [← zpow_natCast, ← zpow_natCast, ← zpow_add₀ (by norm_num : (2 : Rat) ≠ 0), Nat.cast_sub length]
    congr 1
    push_cast
    ring
  calc (numerator : Rat) < 2 ^ bitLength numerator := by exact_mod_cast lt_two_pow_bitLength numerator
    _ ≤ _ := by
      rw [unit]
      exact mul_le_mul_of_nonneg_right (by exact_mod_cast two_pow_bitLength_le positive)
        (zpow_pos (by norm_num) _).le

/-- The exponent for a quotient follows from the lengths, up to one, and leaves at most 53 digits. -/
theorem unitExponent_bounds (positive : 0 < numerator) (positive' : 0 < denominator)
    (normal : bitLength denominator ≤ bitLength numerator + 1000) :
    (bitLength numerator : Int) - bitLength denominator - 53 ≤ unitExponent numerator denominator ∧
      unitExponent numerator denominator ≤ (bitLength numerator : Int) - bitLength denominator - 52 ∧
        (Decimal.scale 2 numerator denominator (unitExponent numerator denominator)).1 <
          2 ^ 53 * (Decimal.scale 2 numerator denominator (unitExponent numerator denominator)).2 := by
  unfold unitExponent
  dsimp only
  rw [if_neg (beq_iff_eq.not.2 positive.ne'), Nat.shiftLeft_eq, Nat.mul_comm _ (2 ^ 53)]
  split
  · rw [max_eq_left (by omega), scale_lt_iff positive']
    refine ⟨by omega, by omega, ?_⟩
    convert ratio_lt positive' using 3
    push_cast
    ring
  · rename_i short
    rw [max_eq_left (by omega)]
    exact ⟨by omega, by omega, Nat.lt_of_not_le short⟩

/-- The nearest number to a quotient of positive integers of at most 64 digits has all of its 53 digits. -/
theorem decode_ofRatio (positive : 0 < numerator) (positive' : 0 < denominator)
    (small : numerator < 2 ^ 64) (small' : denominator < 2 ^ 64) :
    ∃ mantissa exponent, 2 ^ 52 ≤ mantissa ∧ mantissa < 2 ^ 53 ∧ -200 ≤ exponent ∧ exponent ≤ 200 ∧
      ∀ negative, decode (ofRatio negative numerator denominator) = .finite negative mantissa exponent := by
  have length : numerator.log2 < 64 := (Nat.log2_lt positive.ne').2 small
  have length' : denominator.log2 < 64 := (Nat.log2_lt positive'.ne').2 small'
  have digits := bitLength_eq positive
  have digits' := bitLength_eq positive'
  obtain ⟨least, most, below⟩ := unitExponent_bounds positive positive' (by omega)
  have rounded := divideNearest_le below
  unfold ofRatio ofRatioBy
  dsimp only
  generalize Decimal.divideNearest _ _ = quotient at rounded
  generalize unitExponent numerator denominator = exponent at least most
  have top : topExponent = 2047 := rfl
  have leading : leadingWeight = 2 ^ 52 := rfl
  have finite : (exponent + 1074).toNat * leadingWeight + quotient < topExponent * leadingWeight := by
    rw [top, leading]
    omega
  rw [Nat.min_eq_left finite.le]
  refine ⟨_, _, ?_, ?_, ?_, ?_, fun negative => (decode_ofBits finite).trans (if_neg ?_)⟩
  all_goals
    rw [leading]
    omega

end Ratios

section Quotients

variable {sign sign' : Sign} {value first second : Float}

/-- A number whose exponent is far from the limits. -/
inductive Moderate (sign : Sign) (value : Float) : Prop
  | mk {mantissa : Nat} {exponent : Int} {positive : 0 < mantissa}
      (form : value.toModel.unpack = .finite sign mantissa exponent positive)
      (full : 2 ^ 52 ≤ mantissa) (small : mantissa < 2 ^ 53) (least : -200 ≤ exponent) (most : exponent ≤ 200)

/-- A moderate number has its sign. -/
theorem Moderate.hasSign (moderate : Moderate sign value) : HasSign sign value := by
  obtain ⟨form, -, small, least, -⟩ := moderate
  rw [HasSign, form]
  exact .finite _ small (by omega)

/-- Ratios of words are moderate. -/
theorem moderate_ofRatio (negative : Bool) {numerator denominator : Nat} (positive : 0 < numerator)
    (positive' : 0 < denominator) (small : numerator < 2 ^ 64) (small' : denominator < 2 ^ 64) :
    Moderate (signOf negative) (ofRatio negative numerator denominator) := by
  obtain ⟨mantissa, exponent, full, fits, least, most, decoded⟩ :=
    decode_ofRatio positive positive' small small'
  have form : (ofRatio negative numerator denominator).toModel.unpack =
      .finite (signOf negative) mantissa exponent (by omega) := by
    rw [unpack_eq, decoded, unpacked_finite]
  exact ⟨form, full, fits, least, most⟩

/-- A quotient of moderate numbers keeps at least one digit, so that it is not rounded to zero. -/
theorem Moderate.hasSign_div (moderate : Moderate sign first) (moderate' : Moderate sign' second) :
    HasSign (sign / sign') (first / second) := by
  obtain ⟨form, full, small, least, most⟩ := moderate
  obtain ⟨form', full', small', least', most'⟩ := moderate'
  rename_i mantissa exponent positive mantissa' exponent' positive'
  have length : mantissa.log2 = 52 := by
    rw [Nat.log2_eq_iff positive.ne']
    exact ⟨full, small⟩
  have length' : mantissa'.log2 = 52 := by
    rw [Nat.log2_eq_iff positive'.ne']
    exact ⟨full', small'⟩
  have target : min (exponent - exponent') (Format.binary64.targetExponent
      (totalExponent mantissa exponent - totalExponent mantissa' exponent')) = exponent - exponent' - 53 := by
    change min (exponent - exponent') (max ((mantissa.log2 : Int) + 1 + exponent -
      ((mantissa'.log2 : Int) + 1 + exponent') - 53) (-1074)) = _
    omega
  have amount : (exponent - exponent' - (exponent - exponent' - 53)).toNat = 53 := by omega
  have quotient : 0 < mantissa <<< 53 / mantissa' := by
    rw [Nat.shiftLeft_eq]
    exact Nat.div_pos (by omega) positive'
  have directed : Directed (sign / sign')
      (UnpackedFloat.div .binary64 first.toModel.unpack second.toModel.unpack) := by
    rw [form, form']
    simp only [UnpackedFloat.div, divCore, target, amount]
    exact directed_roundWithAccuracy (sign / sign') _ quotient (by omega)
  exact directed.packed

/-- Numbers are the same if their forms are. -/
theorem eq_of_unpack (same : first.toModel.unpack = second.toModel.unpack) : first = second := by
  apply toModel_injective
  rw [← pack_unpacked first, ← pack_unpacked second, ← unpack_eq, ← unpack_eq, same]

/-- Rounding does not depend on the sign. -/
theorem neg_roundWithAccuracy (sign : Sign) (mantissa : Nat) (exponent : Int) (accuracy : Accuracy) :
    roundWithAccuracy .binary64 (-sign) mantissa exponent accuracy =
      (roundWithAccuracy .binary64 sign mantissa exponent accuracy).neg := by
  unfold roundWithAccuracy
  dsimp only
  split <;> rfl

/-- The quotient of a negative is the negative of the quotient. -/
theorem div_neg_form (first second : UnpackedFloat) :
    UnpackedFloat.div .binary64 first.neg second = (UnpackedFloat.div .binary64 first second).neg := by
  have signs (sign sign' : Sign) : -sign / sign' = -(sign / sign') := by
    cases sign <;> cases sign' <;> rfl
  cases first <;> cases second <;>
    simp only [UnpackedFloat.div, UnpackedFloat.neg, signs, neg_roundWithAccuracy]

/-- The same for packed numbers. -/
theorem neg_div_eq (first second : Float) : -first / second = -(first / second) := by
  apply eq_of_unpack
  change UnpackedFloat.unpack .binary64 (UnpackedFloat.pack .binary64
    (UnpackedFloat.div .binary64 (-first).toModel.unpack second.toModel.unpack)) = _
  rw [unpack_neg, unpack_neg, div_neg_form, neg_eq_withSignOf, unpack_pack_withSignOf, ← neg_eq_withSignOf]
  rfl

/-- Zero divided by a moderate number is a zero. -/
theorem unpack_zero_div (form : value.toModel.unpack = .zero sign) (moderate : Moderate sign' second) :
    (value / second).toModel.unpack = .zero (sign / sign') := by
  obtain ⟨form', -, -, -, -⟩ := moderate
  change UnpackedFloat.unpack .binary64 (UnpackedFloat.pack .binary64
    (UnpackedFloat.div .binary64 value.toModel.unpack second.toModel.unpack)) = _
  rw [form, form']
  exact unpack_packedZero

end Quotients

section Sides

variable {sign : Sign} {value other : Float} {integer : Int}

/-- A number stands on the same side of zero as an integer, or both are zero. -/
structure SameSide (value : Float) (integer : Int) : Prop where
  positive : 0.0 < value ↔ 0 < integer
  negative : value < 0.0 ↔ integer < 0
  zero : (value == 0.0) = true ↔ integer = 0

/-- Numbers are compared in their unpacked forms. -/
theorem lt_iff_unpack : value < other ↔ value.toModel.unpack.compare other.toModel.unpack = some .lt := by
  change decide (value.toModel.unpack.lt other.toModel.unpack = true) = true ↔ _
  rw [decide_eq_true_eq, UnpackedFloat.lt, beq_iff_eq]

/-- Numbers are equal if their forms compare so. -/
theorem beq_iff_compare :
    (value == other) = true ↔ value.toModel.unpack.compare other.toModel.unpack = some .eq := by
  rw [beq_iff_unpack, ← unpack_eq, ← unpack_eq, UnpackedFloat.beq, beq_iff_eq]

theorem unpack_zero_literal : (0.0 : Float).toModel.unpack = .zero .positive := by
  rw [unpack_eq]
  rfl

/-- A number equals zero if its form is a zero. -/
theorem beq_zero_iff_unpack : (value == 0.0) = true ↔ ∃ sign, value.toModel.unpack = .zero sign := by
  rw [beq_iff_compare, unpack_zero_literal]
  constructor
  · intro equal
    generalize value.toModel.unpack = form at equal
    cases form with
    | zero sign => exact ⟨sign, rfl⟩
    | finite sign mantissa exponent positive => cases sign <;> cases equal
    | infinity sign => cases sign <;> cases equal
    | notANumber => cases equal
  · rintro ⟨sign, form⟩
    rw [form]
    rfl

/-- A number is zero just when its exact value is. -/
theorem isZero_ofFloat (value : Float) : (BigFloat.ofFloat value).isZero = (value == 0.0) := by
  rw [Bool.eq_iff_iff, beq_zero_iff_unpack, unpack_eq, BigFloat.ofFloat]
  cases decode value with
  | finite negative mantissa exponent =>
      rw [BigFloat.isZero_signedNat]
      cases mantissa with
      | zero => exact iff_of_true rfl ⟨signOf negative, rfl⟩
      | succ mantissa =>
          refine iff_of_false (Nat.succ_ne_zero _) ?_
          rintro ⟨sign, absurd⟩
          cases absurd
  | infinite negative =>
      refine iff_of_false Bool.false_ne_true ?_
      rintro ⟨sign, absurd⟩
      cases absurd
  | undefined =>
      refine iff_of_false Bool.false_ne_true ?_
      rintro ⟨sign, absurd⟩
      cases absurd

theorem sameSide_zero (form : value.toModel.unpack = .zero sign) : SameSide value 0 := by
  constructor
  · rw [lt_iff_unpack, unpack_zero_literal, form]
    exact iff_of_false nofun (lt_irrefl 0)
  · rw [lt_iff_unpack, unpack_zero_literal, form]
    exact iff_of_false nofun (lt_irrefl 0)
  · rw [beq_iff_compare, unpack_zero_literal, form]
    exact iff_of_true rfl rfl

/-- A positive factor does not change the side. -/
theorem SameSide.of_pos_mul {factor factor' : Int} (same : SameSide value (factor * integer))
    (positive : 0 < factor) (positive' : 0 < factor') : SameSide value (factor' * integer) := by
  have below {number : Int} (above : 0 < number) : number * integer < 0 ↔ integer < 0 := by
    rw [← neg_pos, ← mul_neg, mul_pos_iff_of_pos_left above, neg_pos]
  constructor
  · rw [same.positive, mul_pos_iff_of_pos_left positive, mul_pos_iff_of_pos_left positive']
  · rw [same.negative, below positive, below positive']
  · rw [same.zero, Int.mul_eq_zero, Int.mul_eq_zero, or_iff_right positive.ne', or_iff_right positive'.ne']

theorem HasSign.compare_zero {negative : Bool} (signed : HasSign (signOf negative) value) :
    (UnpackedFloat.zero .positive).compare value.toModel.unpack = some (if negative then .gt else .lt) ∧
      value.toModel.unpack.compare (.zero .positive) = some (if negative then .lt else .gt) := by
  rw [HasSign] at signed
  generalize value.toModel.unpack = form at signed
  cases negative <;> cases signed <;> exact ⟨rfl, rfl⟩

/-- A number with the sign of an integer is on its side. -/
theorem HasSign.sameSide (nonzero : integer ≠ 0)
    (signed : HasSign (signOf (decide (integer < 0))) value) : SameSide value integer := by
  obtain ⟨after, before⟩ := signed.compare_zero
  rcases Int.lt_or_gt_of_ne nonzero with negative | positive
  · rw [decide_eq_true negative] at after before
    constructor <;> simp [lt_iff_unpack, beq_iff_compare, unpack_zero_literal, after, before] <;> omega
  · rw [decide_eq_false (Int.lt_asymm positive)] at after before
    constructor <;> simp [lt_iff_unpack, beq_iff_compare, unpack_zero_literal, after, before] <;> omega

/-- A number with a sign equals itself. -/
theorem HasSign.beq_self (signed : HasSign sign value) : (value == value) = true := by
  rw [beq_iff_unpack, ← unpack_eq, beq_iff_ne_notANumber_and_eq]
  rw [HasSign] at signed
  generalize value.toModel.unpack = form at signed
  cases signed <;> simp

theorem beq_of_unpack_zero {sign' : Sign} (form : value.toModel.unpack = .zero sign)
    (form' : other.toModel.unpack = .zero sign') : (value == other) = true :=
  beq_of_exactValue (exactValue_of_zero form) (exactValue_of_zero form')

end Sides

section Integers

variable {numerator denominator : Int}

theorem unpack_ofInt_zero : (ofInt 0).toModel.unpack = .zero .positive := by
  change (ofRatioBy Decimal.divideNearest false 0 1).toModel.unpack = _
  rw [ofRatioBy_zero rfl]
  exact unpack_packedZero

/-- Integers within a word are moderate numbers. -/
theorem moderate_ofInt (nonzero : numerator ≠ 0) (small : numerator.natAbs < 2 ^ 64) :
    Moderate (signOf (decide (numerator < 0))) (ofInt numerator) :=
  moderate_ofRatio _ (Int.natAbs_pos.2 nonzero) Nat.one_pos small (by decide)

/-- A rounded integer other than zero has a leading digit, or it is infinite. -/
theorem ofInt_beq_zero (value : Int) : (ofInt value == 0.0) = (value == 0) := by
  rcases eq_or_ne value 0 with rfl | nonzero
  · exact (sameSide_zero unpack_ofInt_zero).zero.2 rfl
  rw [beq_eq_false_iff_ne.2 nonzero, ← isZero_ofFloat, ofInt, ofRatio,
    ofRatioBy_one _ _ (Int.natAbs_pos.2 nonzero), BigFloat.ofFloat]
  rcases Nat.lt_or_ge ((value.natAbs.log2 + 1022) * leadingWeight +
    leadingDigits Decimal.divideNearest value.natAbs) (topExponent * leadingWeight) with finite | large
  · have full : ¬ (value.natAbs.log2 + 1022) * leadingWeight +
        leadingDigits Decimal.divideNearest value.natAbs < leadingWeight := by
      have one := Nat.le_mul_of_pos_left leadingWeight (by omega : 0 < value.natAbs.log2 + 1022)
      omega
    have leading : 0 < leadingWeight := by decide
    rw [Nat.min_eq_left finite.le, decode_ofBits finite, if_neg full, ← Bool.not_eq_true,
      BigFloat.isZero_signedNat]
    omega
  -- Beyond the greatest finite number the bits are those of an infinity.
  · rw [Nat.min_eq_right large]
    cases decide (value < 0) <;> rfl

/-- Negation commutes with rounding. -/
theorem ofInt_neg (nonzero : numerator ≠ 0) (small : numerator.natAbs < 2 ^ 64) :
    ofInt (-numerator) = -ofInt numerator := by
  obtain ⟨mantissa, exponent, full, -, -, -, decoded⟩ :=
    decode_ofRatio (Int.natAbs_pos.2 nonzero) Nat.one_pos small (by decide)
  have positive : 0 < mantissa := by omega
  apply eq_of_unpack
  rw [unpack_neg, ofInt, ofInt, Int.natAbs_neg, unpack_eq, unpack_eq, decoded, decoded, unpacked_finite positive,
    unpacked_finite positive, UnpackedFloat.neg]
  congr 1
  rcases Int.lt_or_gt_of_ne nonzero with negative | above
  · rw [decide_eq_true negative, decide_eq_false (by omega)]
    rfl
  · rw [decide_eq_true (by omega : -numerator < 0), decide_eq_false (by omega)]
    rfl

/-- A product of integers is negative when one factor is. -/
theorem negative_product (nonzero : numerator ≠ 0) (nonzero' : denominator ≠ 0) :
    (decide (numerator < 0) != decide (denominator < 0)) = decide (numerator * denominator < 0) := by
  rcases Int.lt_or_gt_of_ne nonzero with negative | positive <;>
    rcases Int.lt_or_gt_of_ne nonzero' with negative' | positive'
  · rw [decide_eq_true negative, decide_eq_true negative',
      decide_eq_false (Int.not_lt.2 (Int.mul_pos_of_neg_of_neg negative negative').le)]
    rfl
  · rw [decide_eq_true negative, decide_eq_false (Int.lt_asymm positive'),
      decide_eq_true (Int.mul_neg_of_neg_of_pos negative positive')]
    rfl
  · rw [decide_eq_false (Int.lt_asymm positive), decide_eq_true negative',
      decide_eq_true (Int.mul_neg_of_pos_of_neg positive negative')]
    rfl
  · rw [decide_eq_false (Int.lt_asymm positive), decide_eq_false (Int.lt_asymm positive'),
      decide_eq_false (Int.lt_asymm (Int.mul_pos positive positive'))]
    rfl

/-- A quotient of integers has the sign of their product. -/
theorem hasSign_quotient (nonzero : numerator ≠ 0) (nonzero' : denominator ≠ 0)
    (small : numerator.natAbs < 2 ^ 64) (small' : denominator.natAbs < 2 ^ 64) :
    HasSign (signOf (decide (numerator * denominator < 0))) (ofInt numerator / ofInt denominator) := by
  have signs (negative negative' : Bool) :
      signOf negative / signOf negative' = signOf (negative != negative') := by
    cases negative <;> cases negative' <;> rfl
  rw [← negative_product nonzero nonzero', ← signs]
  exact (moderate_ofInt nonzero small).hasSign_div (moderate_ofInt nonzero' small')

/-- The sides on which the quotients of rounded integers stand are those of the products. -/
theorem sameSide_quotient (nonzero : denominator ≠ 0) (small : numerator.natAbs < 2 ^ 64)
    (small' : denominator.natAbs < 2 ^ 64) :
    SameSide (ofInt numerator / ofInt denominator) (numerator * denominator) := by
  rcases eq_or_ne numerator 0 with rfl | nonzero'
  · rw [Int.zero_mul]
    exact sameSide_zero (unpack_zero_div unpack_ofInt_zero (moderate_ofInt nonzero small'))
  · exact (hasSign_quotient nonzero' nonzero small small').sameSide (Int.mul_ne_zero nonzero' nonzero)

/-- Negating a quotient of rounded integers, or the numerator before or after it is rounded, leads to
numbers that are equal. -/
theorem negated_quotient {value : Float} (negated : value = ofInt (-numerator) ∨ value = -ofInt numerator)
    (nonzero : denominator ≠ 0) (small : numerator.natAbs < 2 ^ 64) (small' : denominator.natAbs < 2 ^ 64) :
    SameSide (value / ofInt denominator) (-(numerator * denominator)) ∧
      (value / ofInt denominator == -(ofInt numerator / ofInt denominator)) = true := by
  have moderate := moderate_ofInt nonzero small'
  rcases eq_or_ne numerator 0 with rfl | nonzero'
  · obtain ⟨sign, form⟩ : ∃ sign, value.toModel.unpack = .zero sign := by
      rcases negated with rfl | rfl
      · exact ⟨_, unpack_ofInt_zero⟩
      · exact ⟨_, by rw [unpack_neg, unpack_ofInt_zero]; rfl⟩
    have quotient := unpack_zero_div form moderate
    obtain ⟨sign', other⟩ : ∃ sign', (-(ofInt 0 / ofInt denominator)).toModel.unpack = .zero sign' :=
      ⟨_, by rw [unpack_neg, unpack_zero_div unpack_ofInt_zero moderate]; rfl⟩
    rw [Int.zero_mul, Int.neg_zero]
    exact ⟨sameSide_zero quotient, beq_of_unpack_zero quotient other⟩
  · have same : value = ofInt (-numerator) := negated.elim id fun isNegative =>
      isNegative.trans (ofInt_neg nonzero' small).symm
    have signed := hasSign_quotient nonzero' nonzero small small'
    rw [same, ← Int.neg_mul]
    refine ⟨sameSide_quotient nonzero (by rwa [Int.natAbs_neg]) small', ?_⟩
    rw [ofInt_neg nonzero' small, neg_div_eq]
    exact signed.neg.beq_self

theorem unpack_ofRatio_zero (negative : Bool) {denominator : Nat} (positive : 0 < denominator) :
    (ofRatio negative 0 denominator).toModel.unpack = .zero (signOf negative) := by
  have exponent : unitExponent 0 denominator = -1074 := rfl
  have upper : (Decimal.scale 2 0 denominator (-1074)).1 = 0 := Decimal.scale_two_fst_eq_zero.2 rfl
  have lower : 0 < (Decimal.scale 2 0 denominator (-1074)).2 := (scale_spec 0 positive _).1
  have quotient := divides_nearest 0 _ lower
  rw [Nat.zero_mul] at quotient
  unfold ofRatio ofRatioBy
  dsimp only
  rw [exponent, upper, quotient, unpack_eq]
  change (decode (Float.ofBits (UInt64.ofNat (0 + _)))).unpacked = _
  rw [decode_ofBits (by decide : 0 < topExponent * leadingWeight)]
  rfl

/-- Moderate numbers are finite. -/
theorem Moderate.isFinite {sign : Sign} {value : Float} (moderate : Moderate sign value) :
    value.isFinite = true := by
  obtain ⟨form, -, -, -, -⟩ := moderate
  exact isFinite_iff.2 ⟨_, exactValue_of_form form⟩

/-- A quotient that is rounded only once is finite and stands on the side of the product. -/
theorem sameSide_ofRatio (nonzero : denominator ≠ 0) (small : numerator.natAbs < 2 ^ 64)
    (small' : denominator.natAbs < 2 ^ 64) :
    (ofRatio (decide (numerator < 0) != decide (denominator < 0)) numerator.natAbs
        denominator.natAbs).isFinite = true ∧
      SameSide (ofRatio (decide (numerator < 0) != decide (denominator < 0)) numerator.natAbs
        denominator.natAbs) (numerator * denominator) := by
  have positive' := Int.natAbs_pos.2 nonzero
  rcases eq_or_ne numerator 0 with rfl | nonzero'
  · have form := unpack_ofRatio_zero (decide ((0 : Int) < 0) != decide (denominator < 0)) positive'
    rw [Int.zero_mul]
    exact ⟨isFinite_iff.2 ⟨0, exactValue_of_zero form⟩, sameSide_zero form⟩
  · have moderate := moderate_ofRatio (decide (numerator < 0) != decide (denominator < 0))
      (Int.natAbs_pos.2 nonzero') positive' small small'
    refine ⟨moderate.isFinite, ?_⟩
    have signed := moderate.hasSign
    rw [negative_product nonzero' nonzero] at signed ⊢
    exact signed.sameSide (Int.mul_ne_zero nonzero' nonzero)

end Integers

end Binary64

end TrigAlgebra
