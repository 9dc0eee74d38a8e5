/-
This file proves which integers are rounded numbers: those of at most 53 binary digits exactly, and
those of fewer than 1024 digits as finite ones.
-/

import Mathlib
import TrigAlgebra.Proofs.FloatValues

namespace TrigAlgebra

namespace Binary64

/-- The bits of a finite number, its sign apart. -/
theorem decode_ofBits {negative : Bool} {magnitude : Nat} (small : magnitude < topExponent * leadingWeight) :
    decode (Float.ofBits (UInt64.ofNat (magnitude + if negative then signWeight else 0))) =
      if magnitude < leadingWeight then .finite negative magnitude (-1074)
      else .finite negative (magnitude % leadingWeight + leadingWeight)
        (((magnitude / leadingWeight : Nat) : Int) - 1075) := by
  have top : topExponent = 2047 := rfl
  have leading : leadingWeight = 2 ^ 52 := rfl
  have weight : signWeight = 2 ^ 63 := rfl
  have signed : (if negative then signWeight else 0) = 2 ^ 63 * negative.toNat := by
    cases negative <;> rfl
  have bit := negative.toNat_le
  rw [top, leading] at small
  rw [signed]
  have biased : (magnitude + 2 ^ 63 * negative.toNat) / leadingWeight % (topExponent + 1) =
      magnitude / leadingWeight := by
    rw [top, leading]
    omega
  have below : magnitude / leadingWeight < topExponent := by
    rw [top, leading]
    omega
  have fraction : (magnitude + 2 ^ 63 * negative.toNat) % leadingWeight = magnitude % leadingWeight := by
    rw [leading]
    omega
  have sign : ((magnitude + 2 ^ 63 * negative.toNat) / signWeight == 1) = negative := by
    have highest : (magnitude + 2 ^ 63 * negative.toNat) / signWeight = negative.toNat := by
      rw [weight]
      omega
    rw [highest]
    cases negative <;> rfl
  have total : magnitude + 2 ^ 63 * negative.toNat < 2 ^ 64 := by omega
  rw [decode_eq, toNat_toBits_ofBits total (.inl (by rw [biased]; exact below.ne)), decodeBits, sign,
    biased, fraction]
  rw [if_neg (beq_iff_eq.not.2 below.ne)]
  by_cases least : magnitude < leadingWeight
  · rw [if_pos least, if_pos (beq_iff_eq.2 (Nat.div_eq_of_lt least)), Nat.mod_eq_of_lt least]
  · have nonzero : magnitude / leadingWeight ≠ 0 := by
      rw [leading] at least ⊢
      omega
    rw [if_neg least, if_neg (beq_iff_eq.not.2 nonzero)]

/-- Over the power of two that is `digits` below its leading one, a number has one digit more. -/
theorem scale_log2 {number : Nat} (positive : 0 < number) (digits : Nat) :
    2 ^ digits * (Decimal.scale 2 number 1 (number.log2 - digits)).2 ≤
        (Decimal.scale 2 number 1 (number.log2 - digits)).1 ∧
      (Decimal.scale 2 number 1 (number.log2 - digits)).1 <
        2 ^ (digits + 1) * (Decimal.scale 2 number 1 (number.log2 - digits)).2 := by
  have least : 2 ^ number.log2 ≤ number := Nat.log2_self_le positive.ne'
  have below : number < 2 ^ (number.log2 + 1) := Nat.lt_log2_self
  unfold Decimal.scale
  split
  · have whole : number.log2 = digits + ((number.log2 : Int) - digits).toNat := by omega
    change 2 ^ digits * (1 * 2 ^ ((number.log2 : Int) - digits).toNat) ≤ number ∧
      number < 2 ^ (digits + 1) * (1 * 2 ^ ((number.log2 : Int) - digits).toNat)
    rw [Nat.one_mul, ← Nat.pow_add, ← Nat.pow_add, Nat.add_right_comm, ← whole]
    exact ⟨least, below⟩
  · have whole : digits = number.log2 + (-((number.log2 : Int) - digits)).toNat := by omega
    change 2 ^ digits * 1 ≤ number * 2 ^ (-((number.log2 : Int) - digits)).toNat ∧
      number * 2 ^ (-((number.log2 : Int) - digits)).toNat < 2 ^ (digits + 1) * 1
    generalize (-((number.log2 : Int) - digits)).toNat = missing at whole
    rw [whole, Nat.mul_one, Nat.mul_one, Nat.add_right_comm, Nat.pow_add, Nat.pow_add _ _ missing]
    exact ⟨Nat.mul_le_mul_right _ least, Nat.mul_lt_mul_of_pos_right below (Nat.two_pow_pos missing)⟩

/-- The number of binary digits is one more than the logarithm. -/
theorem bitLength_eq {number : Nat} (positive : 0 < number) : bitLength number = number.log2 + 1 := by
  rw [bitLength, if_neg (beq_iff_eq.not.2 positive.ne')]

/-- An integer is rounded to the 53 binary digits from its leading one. -/
theorem unitExponent_one {number : Nat} (positive : 0 < number) :
    unitExponent number 1 = (number.log2 : Int) - 52 := by
  have guess : (bitLength number : Int) - bitLength 1 - 53 = (number.log2 : Int) - (53 : Nat) := by
    rw [bitLength_eq positive, bitLength_eq Nat.one_pos]
    have one : Nat.log2 1 = 0 := rfl
    omega
  have fits := (scale_log2 positive 53).1
  unfold unitExponent
  rw [guess]
  dsimp only
  rw [if_neg (beq_iff_eq.not.2 positive.ne'), Nat.shiftLeft_eq, Nat.mul_comm _ (2 ^ 53), if_pos fits]
  omega

/-- The digits of a positive integer, with the rule by which the rest is rounded. -/
def leadingDigits (divide : Nat → Nat → Nat) (number : Nat) : Nat :=
  divide (Decimal.scale 2 number 1 (number.log2 - (52 : Nat))).1
    (Decimal.scale 2 number 1 (number.log2 - (52 : Nat))).2

/-- The bits of an integer: its logarithm as the exponent, its leading digits, and its sign. -/
theorem ofRatioBy_one (divide : Nat → Nat → Nat) (negative : Bool) {number : Nat} (positive : 0 < number) :
    ofRatioBy divide negative number 1 = Float.ofBits (UInt64.ofNat
      (min ((number.log2 + 1022) * leadingWeight + leadingDigits divide number)
          (topExponent * leadingWeight) + if negative then signWeight else 0)) := by
  have place : ((number.log2 : Int) - 52 + 1074).toNat = number.log2 + 1022 := by omega
  unfold ofRatioBy
  rw [unitExponent_one positive]
  dsimp only
  rw [place]
  rfl

theorem ofRatioBy_zero {divide : Nat → Nat → Nat} (zero : divide 0 1 = 0) :
    ofRatioBy divide false 0 1 = Float.ofModel (Float.Model.pack (.zero .positive)) := by
  have parts : Decimal.scale 2 0 1 (-1074) = (0, 1) :=
    Prod.ext (Decimal.scale_two_fst_eq_zero.2 rfl) rfl
  have exponent : unitExponent 0 1 = -1074 := rfl
  unfold ofRatioBy
  rw [exponent]
  dsimp only
  rw [parts]
  dsimp only
  rw [zero]
  rfl

/-- A decoded finite number is finite. -/
theorem isFinite_of_decode {value : Float} {negative : Bool} {mantissa : Nat} {exponent : Int}
    (decoded : decode value = .finite negative mantissa exponent) : value.isFinite = true :=
  isFinite_iff.2 ⟨_, exactValue_of_decode decoded⟩

/-- Bits below those of infinity make a finite number. -/
theorem isFinite_ofBits {negative : Bool} {magnitude : Nat}
    (small : magnitude < topExponent * leadingWeight) :
    (Float.ofBits (UInt64.ofNat (magnitude + if negative then signWeight else 0))).isFinite = true := by
  by_cases least : magnitude < leadingWeight
  · exact isFinite_of_decode ((decode_ofBits small).trans (if_pos least))
  · exact isFinite_of_decode ((decode_ofBits small).trans (if_neg least))

/-- Rounding a quotient does not pass an integer above it. -/
theorem divideNearest_le {upper lower bound : Nat} (below : upper < bound * lower) :
    Decimal.divideNearest upper lower ≤ bound := by
  have quotient : upper / lower < bound := Nat.div_lt_of_lt_mul (by rwa [Nat.mul_comm])
  unfold Decimal.divideNearest
  dsimp only
  split <;> omega

/-- An integer of fewer than 1024 digits has a finite rounded value. -/
theorem isFinite_ofInt {value : Int} {digits : Nat} (small : value.natAbs < 2 ^ digits)
    (few : digits < 1024) : (ofInt value).isFinite = true := by
  rw [ofInt, ofRatio]
  rcases Nat.eq_zero_or_pos value.natAbs with zero | positive
  · rw [Int.natAbs_eq_zero] at zero
    subst zero
    change (ofRatioBy Decimal.divideNearest false 0 1).isFinite = true
    rw [ofRatioBy_zero rfl]
    exact isFinite_iff.2 ⟨_, exactValue_zero .positive⟩
  · have length : value.natAbs.log2 < digits := (Nat.log2_lt positive.ne').2 small
    have quotient : leadingDigits Decimal.divideNearest value.natAbs ≤ 2 ^ 53 :=
      divideNearest_le (scale_log2 positive 52).2
    have finite : min ((value.natAbs.log2 + 1022) * leadingWeight +
        leadingDigits Decimal.divideNearest value.natAbs) (topExponent * leadingWeight) <
          topExponent * leadingWeight := by
      have top : topExponent = 2047 := rfl
      have leading : leadingWeight = 2 ^ 52 := rfl
      rw [top, leading]
      omega
    rw [ofRatioBy_one _ _ positive]
    exact isFinite_ofBits finite

/-- A short integer is scaled up without a remainder. -/
theorem scale_small {number : Nat} (short : number.log2 ≤ 52) :
    Decimal.scale 2 number 1 (number.log2 - (52 : Nat)) = (number * 2 ^ (52 - number.log2), 1) := by
  unfold Decimal.scale
  split
  · have full : number.log2 = 52 := by omega
    rw [full, Nat.sub_self, Nat.pow_zero, Nat.mul_one]
    rfl
  · have missing : (-((number.log2 : Int) - (52 : Nat))).toNat = 52 - number.log2 := by omega
    rw [missing]
    rfl

/-- A rule of division that leaves a whole quotient as it is. -/
def Divides (divide : Nat → Nat → Nat) : Prop :=
  ∀ quotient divisor, 0 < divisor → divide (quotient * divisor) divisor = quotient

/-- Dividing without the remainder is exact where there is none. -/
theorem divides_floor : Divides (· / ·) :=
  fun quotient _ positive => Nat.mul_div_cancel quotient positive

/-- Dividing to the nearest is exact where there is no remainder. -/
theorem divides_nearest : Divides Decimal.divideNearest := by
  intro quotient divisor positive
  unfold Decimal.divideNearest
  dsimp only
  rw [Nat.mul_mod_left, Nat.mul_div_cancel quotient positive, if_neg]
  simp [positive.ne]

/-- The digits of an integer of at most 53 digits are all kept. -/
theorem decode_ofRatioBy_small {divide : Nat → Nat → Nat} (divides : Divides divide) {negative : Bool}
    {number : Nat} (positive : 0 < number) (small : number < 2 ^ 53) :
    decode (ofRatioBy divide negative number 1) =
      .finite negative (number * 2 ^ (52 - number.log2)) (number.log2 - 52) := by
  have length : number.log2 < 53 := (Nat.log2_lt positive.ne').2 small
  have short : number.log2 ≤ 52 := Nat.le_of_lt_succ length
  have parts := scale_small short
  have bounds := scale_log2 positive 52
  have digits : leadingDigits divide number = number * 2 ^ (52 - number.log2) := by
    have whole := divides (number * 2 ^ (52 - number.log2)) 1 Nat.one_pos
    rw [Nat.mul_one] at whole
    rw [leadingDigits, parts]
    exact whole
  rw [parts] at bounds
  rw [ofRatioBy_one _ _ positive, digits]
  generalize number * 2 ^ (52 - number.log2) = mantissa at bounds
  have top : topExponent = 2047 := rfl
  have leading : leadingWeight = 2 ^ 52 := rfl
  have below : (number.log2 + 1022) * leadingWeight + mantissa < topExponent * leadingWeight := by
    rw [top, leading]
    omega
  rw [Nat.min_eq_left below.le, decode_ofBits below, if_neg (by rw [leading]; omega)]
  have fraction : ((number.log2 + 1022) * leadingWeight + mantissa) % leadingWeight + leadingWeight =
      mantissa := by
    rw [leading]
    omega
  have place : ((number.log2 + 1022) * leadingWeight + mantissa) / leadingWeight =
      number.log2 + 1023 := by
    rw [leading]
    omega
  have exponent : ((number.log2 + 1023 : Nat) : Int) - 1075 = number.log2 - 52 := by omega
  rw [fraction, place, exponent]

theorem signedNat_natAbs_mul (value : Int) (factor : Nat) :
    BigFloat.signedNat (decide (value < 0)) (value.natAbs * factor) = value * factor := by
  unfold BigFloat.signedNat
  split
  · rename_i negative
    rw [Int.natCast_mul, Int.ofNat_natAbs_of_nonpos (of_decide_eq_true negative).le, Int.neg_mul, Int.neg_neg]
  · rename_i notNegative
    rw [Int.natCast_mul, Int.natAbs_of_nonneg (by simpa only [decide_eq_true_eq, not_lt] using notNegative)]

/-- An integer of at most 53 digits, or the least one of 54 digits, is not rounded. -/
theorem exactValue_ofRatioBy {divide : Nat → Nat → Nat} (divides : Divides divide) {value : Int}
    (small : value.natAbs ≤ 2 ^ 53) :
    exactValue (ofRatioBy divide (value < 0) value.natAbs 1) = some (value : Rat) := by
  rcases Nat.eq_zero_or_pos value.natAbs with zero | positive
  · have none : divide 0 1 = 0 := divides 0 1 Nat.one_pos
    rw [Int.natAbs_eq_zero] at zero
    subst zero
    change exactValue (ofRatioBy divide false 0 1) = _
    rw [ofRatioBy_zero none, exactValue_zero, Int.cast_zero]
  · rcases Nat.lt_or_eq_of_le small with below | largest
    · have length : value.natAbs.log2 < 53 := (Nat.log2_lt positive.ne').2 below
      have unit : (2 : Rat) ^ (52 - value.natAbs.log2) * 2 ^ ((value.natAbs.log2 : Int) - 52) = 1 := by
        rw [← zpow_natCast, ← zpow_add₀ (by norm_num : (2 : Rat) ≠ 0), Nat.cast_sub (by omega)]
        norm_num
      rw [exactValue_of_decode (decode_ofRatioBy_small divides positive below), signedNat_natAbs_mul]
      push_cast
      rw [mul_assoc, unit, mul_one]
    · have parts : Decimal.scale 2 (2 ^ 53) 1 ((2 ^ 53).log2 - (52 : Nat)) = (2 ^ 52 * 2, 2) := by
        decide +kernel
      have digits : leadingDigits divide (2 ^ 53) = 2 ^ 52 := by
        rw [leadingDigits, parts]
        exact divides (2 ^ 52) 2 Nat.two_pos
      have decoded (negative : Bool) :
          decode (ofRatioBy divide negative (2 ^ 53) 1) = .finite negative (2 ^ 52) 1 := by
        rw [ofRatioBy_one _ _ (Nat.two_pow_pos 53), digits]
        cases negative <;> rfl
      have doubled : BigFloat.signedNat (decide (value < 0)) (2 ^ 52) * 2 = value := by
        unfold BigFloat.signedNat
        split <;> rename_i sign <;> rw [decide_eq_true_eq] at sign <;> omega
      rw [largest, exactValue_of_decode (decoded _), zpow_one]
      exact_mod_cast congrArg some (congrArg (Int.cast (R := Rat)) doubled)

/-- Small integers lose nothing when they are cut off. -/
theorem exactValue_towardZero {value : Int} (small : value.natAbs ≤ 2 ^ 53) :
    exactValue (towardZero value) = some (value : Rat) :=
  exactValue_ofRatioBy divides_floor small

theorem exactValue_one : exactValue 1.0 = some ((1 : Int) : Rat) :=
  exactValue_towardZero (by decide : (1 : Int).natAbs ≤ 2 ^ 53)

/-- Small integers are rounded to themselves. -/
theorem exactValue_ofInt {value : Int} (small : value.natAbs ≤ 2 ^ 53) :
    exactValue (ofInt value) = some (value : Rat) :=
  exactValue_ofRatioBy divides_nearest small

/-- The quotient in which a number is looked at has the value of the number. -/
theorem ratio_spec (mantissa : Nat) (exponent : Int) :
    0 < (ratio mantissa exponent).2 ∧
      (mantissa : Rat) * 2 ^ exponent * (ratio mantissa exponent).2 = (ratio mantissa exponent).1 := by
  unfold ratio Decimal.scale
  split
  · rename_i small
    refine ⟨Nat.mul_pos Nat.one_pos (Nat.two_pow_pos _), ?_⟩
    have unit : (2 : Rat) ^ exponent * 2 ^ (-exponent).toNat = 1 := by
      rw [← zpow_natCast, Int.toNat_of_nonneg small, ← zpow_add₀ (by norm_num : (2 : Rat) ≠ 0),
        Int.add_right_neg, zpow_zero]
    change (mantissa : Rat) * 2 ^ exponent * ((1 * 2 ^ (-exponent).toNat : Nat) : Rat) = mantissa
    rw [Nat.one_mul, Nat.cast_pow, Nat.cast_ofNat, mul_assoc, unit, mul_one]
  · rename_i large
    refine ⟨Nat.one_pos, ?_⟩
    change (mantissa : Rat) * 2 ^ exponent * ((1 : Nat) : Rat) =
      ((mantissa * 2 ^ (- -exponent).toNat : Nat) : Rat)
    rw [Int.neg_neg, Nat.cast_one, mul_one, Nat.cast_mul, Nat.cast_pow, Nat.cast_ofNat, ← zpow_natCast,
      Int.toNat_of_nonneg (by omega)]

/-- A number is found to be an integer just when its exact value is this integer. -/
theorem integer?_eq_some {value : Float} {whole : Int} :
    integer? value = some whole ↔ exactValue value = some (whole : Rat) := by
  unfold integer?
  split
  · rename_i negative mantissa exponent decoded
    obtain ⟨positive, quotient⟩ := ratio_spec mantissa exponent
    rw [exactValue_of_decode decoded, Option.some_inj]
    split
    rename_i upper lower parts
    rw [parts] at positive quotient
    have nonzero : (lower : Rat) ≠ 0 := by exact_mod_cast positive.ne'
    have scaled : (BigFloat.signedNat negative mantissa : Rat) * 2 ^ exponent * lower =
        BigFloat.signedNat negative upper := by
      unfold BigFloat.signedNat
      split <;> push_cast
      · rw [neg_mul, neg_mul, quotient]
      · exact quotient
    have whole_iff : (BigFloat.signedNat negative mantissa : Rat) * 2 ^ exponent = whole ↔
        BigFloat.signedNat negative upper = whole * lower := by
      rw [← mul_left_inj' nonzero, scaled]
      exact_mod_cast Iff.rfl
    rw [whole_iff]
    split
    · rename_i divides
      obtain ⟨factor, rfl⟩ := Nat.dvd_of_mod_eq_zero (beq_iff_eq.1 divides)
      have signed : BigFloat.signedNat negative (lower * factor) =
          BigFloat.signedNat negative factor * lower := by
        unfold BigFloat.signedNat
        split <;> push_cast <;> ring
      rw [Nat.mul_div_cancel_left factor positive, Option.some_inj, signed,
        Int.mul_eq_mul_right_iff (by omega)]
      rfl
    · rename_i rest
      refine iff_of_false nofun fun equal => rest (beq_iff_eq.2 (Nat.mod_eq_zero_of_dvd ?_))
      have size : (BigFloat.signedNat negative upper).natAbs = upper := by
        unfold BigFloat.signedNat
        split <;> omega
      exact ⟨whole.natAbs, by rw [← size, equal, Int.natAbs_mul, Int.natAbs_natCast, Nat.mul_comm]⟩
  · rename_i other
    refine iff_of_false nofun fun known => ?_
    obtain ⟨negative, mantissa, exponent, decoded, -⟩ := decode_of_exactValue known
    exact other _ _ _ decoded

end Binary64

end TrigAlgebra
