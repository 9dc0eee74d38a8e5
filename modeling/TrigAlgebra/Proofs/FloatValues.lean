/-
This file relates the bits of a rounded number to its exact value, and proves that a factor of one, a
summand of zero and small integers are not rounded.
-/

import Mathlib
import TrigAlgebra.Proofs.ExactValues

namespace TrigAlgebra

open Float.Model Float.Model.UnpackedFloat

namespace Binary64

/-- What the bits of a number say, as `decode` reads them. -/
def decodeBits (bits : Nat) : Decoded :=
  let negative := bits / signWeight == 1
  let biased : Nat := bits / leadingWeight % (topExponent + 1)
  let fraction : Nat := bits % leadingWeight
  if biased == topExponent then
    if fraction == 0 then .infinite negative else .undefined
  else if biased == 0 then .finite negative fraction (-1074)
  else .finite negative (fraction + leadingWeight) ((biased : Int) - 1075)

theorem decode_eq (value : Float) : decode value = decodeBits value.toBits.toNat := rfl

def signOf (negative : Bool) : Sign := if negative then .negative else .positive

/-- The number in the form in which the operations take it. -/
def Decoded.unpacked : Decoded → UnpackedFloat
  | .finite negative 0 _ => .zero (signOf negative)
  | .finite negative (mantissa + 1) exponent =>
      .finite (signOf negative) (mantissa + 1) exponent (Nat.succ_pos mantissa)
  | .infinite negative => .infinity (signOf negative)
  | .undefined => .notANumber

/-- A decoded number with a mantissa is a finite form. -/
theorem unpacked_finite {negative : Bool} {mantissa : Nat} {exponent : Int} (positive : 0 < mantissa) :
    (Decoded.finite negative mantissa exponent).unpacked =
      .finite (signOf negative) mantissa exponent positive := by
  cases mantissa with
  | zero => exact (Nat.lt_irrefl 0 positive).elim
  | succ mantissa => rfl

/-- The mantissa is in the lowest bits. -/
theorem toNat_unpackMantissa (bits : BitVec 64) :
    (@unpackMantissa .binary64 bits).toNat = bits.toNat % leadingWeight := by
  rw [unpackMantissa_def, BitVec.extractLsb'_toNat, Nat.shiftRight_zero]
  rfl

/-- The exponent is above the mantissa. -/
theorem toNat_unpackExponent (bits : BitVec 64) :
    (@unpackExponent .binary64 bits).toNat =
      bits.toNat / leadingWeight % (topExponent + 1) := by
  rw [unpackExponent_def, BitVec.extractLsb'_toNat, Nat.shiftRight_eq_div_pow]
  rfl

/-- The sign is the highest bit. -/
theorem toNat_unpackSign (bits : BitVec 64) :
    (@unpackSign .binary64 bits).toNat = bits.toNat / signWeight := by
  rw [unpackSign_def, BitVec.extractLsb'_toNat, Nat.shiftRight_eq_div_pow, Nat.mod_eq_of_lt]
  · rfl
  · have small := bits.isLt
    change bits.toNat / 2 ^ 63 < 2
    omega

theorem signOf_eq (bits : BitVec 64) :
    Sign.ofBitVec (@unpackSign .binary64 bits) = signOf (bits.toNat / signWeight == 1) := by
  have value := toNat_unpackSign bits
  rw [← value]
  generalize @unpackSign .binary64 bits = sign
  rcases BitVec.eq_zero_or_eq_one sign with rfl | rfl <;> rfl

/-- The largest exponent marks infinities and undefined numbers. -/
theorem unpackExponent_eq_top (bits : BitVec 64) :
    @unpackExponent .binary64 bits = -1#_ ↔
      bits.toNat / leadingWeight % (topExponent + 1) = topExponent := by
  rw [← toNat_unpackExponent, ← BitVec.toNat_inj]
  rfl

/-- The smallest exponent marks zeros and subnormal numbers. -/
theorem unpackExponent_eq_zero (bits : BitVec 64) :
    @unpackExponent .binary64 bits = 0#_ ↔
      bits.toNat / leadingWeight % (topExponent + 1) = 0 := by
  rw [← toNat_unpackExponent, ← BitVec.toNat_inj]
  rfl

theorem unpackMantissa_eq_zero (bits : BitVec 64) :
    @unpackMantissa .binary64 bits = 0#_ ↔ bits.toNat % leadingWeight = 0 := by
  rw [← toNat_unpackMantissa, ← BitVec.toNat_inj]
  rfl

/-- Both ways of taking bits apart agree. -/
theorem unpack_bits (bits : BitVec 64) :
    UnpackedFloat.unpack Format.binary64 bits = (decodeBits bits.toNat).unpacked := by
  have mantissa := toNat_unpackMantissa bits
  have exponent := toNat_unpackExponent bits
  unfold UnpackedFloat.unpack decodeBits
  dsimp only
  rw [signOf_eq]
  -- The stored exponent tells numbers that are not finite and numbers below the least full one apart.
  by_cases top : bits.toNat / leadingWeight % (topExponent + 1) = topExponent
  · rw [if_pos ((unpackExponent_eq_top bits).2 top), if_pos (beq_iff_eq.2 top)]
    by_cases zero : bits.toNat % leadingWeight = 0
    · rw [if_pos ((unpackMantissa_eq_zero bits).2 zero), if_pos (beq_iff_eq.2 zero)]
      rfl
    · rw [if_neg (mt (unpackMantissa_eq_zero bits).1 zero), if_neg (mt beq_iff_eq.1 zero)]
      rfl
  · rw [if_neg (mt (unpackExponent_eq_top bits).1 top), if_neg (mt beq_iff_eq.1 top)]
    by_cases least : bits.toNat / leadingWeight % (topExponent + 1) = 0
    · rw [if_pos ((unpackExponent_eq_zero bits).2 least), if_pos (beq_iff_eq.2 least)]
      by_cases zero : bits.toNat % leadingWeight = 0
      · rw [dif_pos ((unpackMantissa_eq_zero bits).2 zero), zero]
        rfl
      · rw [dif_neg (mt (unpackMantissa_eq_zero bits).1 zero)]
        rw [unpacked_finite (Nat.pos_of_ne_zero zero), UnpackedFloat.finite.injEq]
        refine ⟨rfl, mantissa, ?_⟩
        rw [exponent, least]
        rfl
    · rw [if_neg (mt (unpackExponent_eq_zero bits).1 least), if_neg (mt beq_iff_eq.1 least)]
      rw [unpacked_finite (Nat.add_pos_right _ (by decide)), UnpackedFloat.finite.injEq]
      refine ⟨rfl, ?_, ?_⟩
      · have joined := Nat.two_pow_add_eq_or_of_lt
          (@unpackMantissa .binary64 bits).isLt 1
        rw [Nat.mul_one] at joined
        rw [BitVec.toNat_append, Nat.add_comm (bits.toNat % leadingWeight), ← mantissa]
        exact joined.symm
      · rw [exponent]
        rfl

/-- Both ways of taking a number apart agree. -/
theorem unpack_eq (value : Float) : value.toModel.unpack = (decode value).unpacked :=
  unpack_bits value.toModel.toBits.toBitVec

/-- Bits that do not stand for an undefined number are kept. -/
theorem toNat_toBits_ofBits {bits : Nat} (small : bits < 2 ^ 64)
    (defined : bits / leadingWeight % (topExponent + 1) ≠ topExponent ∨ bits % leadingWeight = 0) :
    (Float.ofBits (UInt64.ofNat bits)).toBits.toNat = bits := by
  have whole : (UInt64.ofNat bits).toBitVec.toNat = bits := by
    rw [UInt64.toNat_toBitVec, UInt64.toNat_ofNat', Nat.mod_eq_of_lt small]
  have kept : ¬ @isNaNBits .binary64 (UInt64.ofNat bits).toBitVec = true := by
    rw [isNaNBits, decide_eq_true_eq, unpackExponent_eq_top, ne_eq, unpackMantissa_eq_zero, whole]
    tauto
  have packed := @pack_unpack .binary64 (UInt64.ofNat bits).toBitVec
  rw [if_neg kept] at packed
  change (UInt64.ofBitVec (UnpackedFloat.pack Format.binary64 _)).toBitVec.toNat = bits
  rw [packed]
  exact whole

/-- The exact value of a finite number. -/
def exactValue (value : Float) : Option Rat := (BigFloat.ofFloat value).exactValue

/-- A finite number is its mantissa times a power of two. -/
theorem exactValue_of_decode {value : Float} {negative : Bool} {mantissa : Nat} {exponent : Int}
    (decoded : decode value = .finite negative mantissa exponent) :
    exactValue value = some ((BigFloat.signedNat negative mantissa : Rat) * 2 ^ exponent) := by
  rw [exactValue, BigFloat.ofFloat, decoded, BigFloat.exactValue]

/-- Only finite numbers have an exact value. -/
theorem decode_of_exactValue {value : Float} {number : Rat} (known : exactValue value = some number) :
    ∃ negative mantissa exponent, decode value = .finite negative mantissa exponent ∧
      number = BigFloat.signedNat negative mantissa * 2 ^ exponent := by
  unfold exactValue BigFloat.ofFloat at known
  split at known
  · rename_i negative mantissa exponent decoded
    exact ⟨negative, mantissa, exponent, decoded, (Option.some.inj known).symm⟩
  · cases known
  · cases known

/-- A number is finite if it has an exact value. -/
theorem isFinite_iff {value : Float} : value.isFinite = true ↔ ∃ number, exactValue value = some number := by
  have unpacked : value.isFinite = (decode value).unpacked.isFinite := by
    rw [← unpack_eq]
    rfl
  rw [unpacked]
  cases decoded : decode value with
  | finite negative mantissa exponent =>
      refine iff_of_true ?_ ⟨_, exactValue_of_decode decoded⟩
      cases mantissa <;> rfl
  | infinite negative =>
      refine iff_of_false Bool.false_ne_true fun ⟨number, known⟩ => ?_
      rw [exactValue, BigFloat.ofFloat, decoded] at known
      cases known
  | undefined =>
      refine iff_of_false Bool.false_ne_true fun ⟨number, known⟩ => ?_
      rw [exactValue, BigFloat.ofFloat, decoded] at known
      cases known

/-- A finite number has 53 binary digits, or fewer at the least exponent. -/
structure Canonical (mantissa : Nat) (exponent : Int) : Prop where
  small : mantissa < 2 ^ 53
  least : -1074 ≤ exponent
  full : 2 ^ 52 ≤ mantissa ∨ exponent = -1074

/-- Decoded numbers are canonical. -/
theorem canonical_of_decode {value : Float} {negative : Bool} {mantissa : Nat} {exponent : Int}
    (decoded : decode value = .finite negative mantissa exponent) : Canonical mantissa exponent := by
  rw [decode_eq, decodeBits] at decoded
  have fraction : value.toBits.toNat % leadingWeight < 2 ^ 52 := Nat.mod_lt _ (by decide)
  have weight : leadingWeight = 2 ^ 52 := rfl
  split at decoded
  · split at decoded <;> cases decoded
  · split at decoded
    · cases decoded
      exact ⟨by omega, Int.le_refl _, .inr rfl⟩
    · rename_i nonzero
      rw [beq_iff_eq] at nonzero
      cases decoded
      exact ⟨by omega, by omega, .inl (by omega)⟩

/-- Two canonical forms of one positive value are the same. -/
theorem Canonical.unique {mantissa mantissa' : Nat} {exponent exponent' : Int}
    (canonical : Canonical mantissa exponent) (canonical' : Canonical mantissa' exponent')
    (equal : (mantissa : Rat) * 2 ^ exponent = mantissa' * 2 ^ exponent') :
    mantissa = mantissa' ∧ exponent = exponent' := by
  -- At the larger exponent the mantissa is full, so doubling it leaves the 53 digits.
  have ordered {mantissa mantissa' : Nat} {exponent exponent' : Int}
      (canonical : Canonical mantissa exponent) (canonical' : Canonical mantissa' exponent')
      (equal : (mantissa : Rat) * 2 ^ exponent = mantissa' * 2 ^ exponent') :
      ¬ exponent < exponent' := by
    intro less
    have aligned : (mantissa : Int) = mantissa' * (1 <<< (exponent' - exponent).toNat : Nat) :=
      (BigFloat.eq_shifted_iff (Int.le_of_lt less)).1 (by exact_mod_cast equal)
    have large := canonical'.full.resolve_right (by have := canonical.least; omega)
    have doubled : 2 ^ 1 ≤ 1 <<< (exponent' - exponent).toNat := by
      rw [Nat.one_shiftLeft]
      exact Nat.pow_le_pow_right (by decide) (by omega)
    have product : 2 ^ 52 * 2 ^ 1 ≤ mantissa' * (1 <<< (exponent' - exponent).toNat) :=
      Nat.mul_le_mul large doubled
    have whole : mantissa = mantissa' * (1 <<< (exponent' - exponent).toNat) := by exact_mod_cast aligned
    have small := canonical.small
    omega
  have same : exponent = exponent' := by
    have first := ordered canonical canonical' equal
    have second := ordered canonical' canonical equal.symm
    omega
  subst same
  have unit : (2 : Rat) ^ exponent ≠ 0 := (zpow_pos (by norm_num) exponent).ne'
  exact ⟨by exact_mod_cast mul_right_cancel₀ unit equal, rfl⟩

/-- A number is zero if its mantissa is. -/
theorem exactValue_eq_zero {value : Float} {negative : Bool} {mantissa : Nat} {exponent : Int}
    (decoded : decode value = .finite negative mantissa exponent) :
    exactValue value = some 0 ↔ mantissa = 0 := by
  have unit : (2 : Rat) ^ exponent ≠ 0 := (zpow_pos (by norm_num) exponent).ne'
  rw [exactValue_of_decode decoded, Option.some_inj, mul_eq_zero, or_iff_left unit, Int.cast_eq_zero,
    BigFloat.signedNat]
  split <;> omega

/-- Numbers are compared in their unpacked forms. -/
theorem beq_iff_unpack {first second : Float} :
    (first == second) = true ↔ (decode first).unpacked.beq (decode second).unpacked = true := by
  rw [← unpack_eq, ← unpack_eq]
  rfl

/-- Finite numbers of one value are equal. -/
theorem beq_of_exactValue {first second : Float} {number : Rat}
    (known : exactValue first = some number) (known' : exactValue second = some number) :
    (first == second) = true := by
  obtain ⟨negative, mantissa, exponent, decoded, value⟩ := decode_of_exactValue known
  obtain ⟨negative', mantissa', exponent', decoded', value'⟩ := decode_of_exactValue known'
  rw [beq_iff_unpack, decoded, decoded']
  by_cases zero : mantissa = 0
  · have zeroValue : number = 0 := by
      rw [(exactValue_eq_zero decoded).2 zero] at known
      exact (Option.some.inj known).symm
    have zero' : mantissa' = 0 := (exactValue_eq_zero decoded').1 (zeroValue ▸ known')
    rw [zero, zero']
    rfl
  · have positive : (0 : Rat) < mantissa * 2 ^ exponent :=
      mul_pos (by exact_mod_cast Nat.pos_of_ne_zero zero) (zpow_pos (by norm_num) exponent)
    have notNegative : (0 : Rat) ≤ mantissa' * 2 ^ exponent' :=
      mul_nonneg (Nat.cast_nonneg _) (zpow_nonneg (by norm_num) exponent')
    have signs : negative = negative' ∧ (mantissa : Rat) * 2 ^ exponent = mantissa' * 2 ^ exponent' := by
      rw [value] at value'
      cases negative <;> cases negative' <;>
        simp only [BigFloat.signedNat, Bool.false_eq_true, if_false, if_true, Int.cast_neg,
          Int.cast_natCast, neg_mul] at value'
      · exact ⟨rfl, value'⟩
      · linarith
      · linarith
      · exact ⟨rfl, neg_injective value'⟩
    obtain ⟨rfl, equal⟩ := signs
    obtain ⟨rfl, rfl⟩ :=
      (canonical_of_decode decoded).unique (canonical_of_decode decoded') equal
    rw [beq_iff_ne_notANumber_and_eq, unpacked_finite (Nat.pos_of_ne_zero zero)]
    refine ⟨?_, ?_, .inl rfl⟩
    · intro absurd
      cases absurd
    · intro absurd
      cases absurd

/-- Shifting out digits that are zero loses nothing. -/
theorem shiftRight_exact (digits mantissa : Nat) :
    (ExtendedMantissa.mk (2 ^ digits * mantissa) false false) >>> digits = ⟨mantissa, false, false⟩ := by
  induction digits generalizing mantissa with
  | zero =>
      rw [pow_zero, one_mul]
      rfl
  | succ digits hypothesis =>
      have earlier := hypothesis (2 * mantissa)
      rw [← mul_assoc, ← pow_succ] at earlier
      change (ExtendedMantissa.mk (2 ^ (digits + 1) * mantissa) false false >>> digits).shiftRightOne = _
      rw [earlier, ExtendedMantissa.shiftRightOne]
      dsimp only
      rw [Nat.mul_div_cancel_left mantissa Nat.two_pos, Nat.mul_mod_right]
      rfl

/-- Shifting a mantissa up and its exponent down keeps the number where it is. -/
theorem totalExponent_shift (digits : Nat) {mantissa : Nat} (positive : 0 < mantissa) (exponent : Int) :
    totalExponent (2 ^ digits * mantissa) (exponent - digits) = totalExponent mantissa exponent := by
  have length : (2 ^ digits * mantissa).log2 = mantissa.log2 + digits := by
    induction digits with
    | zero => rw [pow_zero, one_mul, Nat.add_zero]
    | succ digits hypothesis =>
        have nonzero : 2 ^ digits * mantissa ≠ 0 := (Nat.mul_pos (Nat.two_pow_pos digits) positive).ne'
        rw [pow_succ', mul_assoc, Nat.log2_two_mul nonzero, hypothesis]
        rfl
  unfold totalExponent
  rw [length]
  push_cast
  ring

/-- A canonical number has the exponent it is to be rounded to. -/
theorem Canonical.targetExponent_eq {mantissa : Nat} {exponent : Int}
    (canonical : Canonical mantissa exponent) (positive : 0 < mantissa) :
    Format.binary64.targetExponent (totalExponent mantissa exponent) = exponent := by
  obtain ⟨small, least, full⟩ := canonical
  have length : mantissa.log2 < 53 := (Nat.log2_lt positive.ne').2 small
  have normal : 2 ^ 52 ≤ mantissa → 52 ≤ mantissa.log2 := (Nat.le_log2 positive.ne').2
  change max ((mantissa.log2 : Int) + 1 + exponent - 53) (-1074) = exponent
  omega

/-- A canonical number that was shifted up is shifted back without loss. -/
theorem shiftToTargetExponent_exact (digits : Nat) {mantissa : Nat} {exponent : Int}
    (positive : 0 < mantissa) (canonical : Canonical mantissa exponent) :
    shiftToTargetExponent Format.binary64 (2 ^ digits * mantissa) (exponent - digits) .exact =
      (⟨mantissa, false, false⟩, exponent) := by
  unfold shiftToTargetExponent shiftToExponent
  rw [totalExponent_shift digits positive, canonical.targetExponent_eq positive]
  have amount : (exponent - (exponent - digits)).toNat = digits := by omega
  dsimp only
  rw [amount]
  refine Prod.ext (shiftRight_exact digits mantissa) ?_
  change exponent - digits + digits = exponent
  omega

/-- A canonical number with more binary digits, all zero, is rounded to itself. -/
theorem roundWithAccuracy_exact (sign : Sign) {mantissa : Nat} {exponent : Int} (digits : Nat)
    (positive : 0 < mantissa) (canonical : Canonical mantissa exponent) :
    roundWithAccuracy Format.binary64 sign (2 ^ digits * mantissa) (exponent - digits) .exact =
      .finite sign mantissa exponent positive := by
  have again := shiftToTargetExponent_exact 0 positive canonical
  rw [pow_zero, one_mul, Nat.cast_zero, sub_zero] at again
  have rounded : (ExtendedMantissa.mk mantissa false false).roundedMantissa = mantissa := rfl
  simp only [roundWithAccuracy, shiftToTargetExponent_exact digits positive canonical, rounded, again]
  exact dif_neg positive.ne'

/-- A sum with a sign is rounded as its size. -/
theorem normalize_apply (sign zeroSign : Sign) {mantissa : Nat} (positive : 0 < mantissa) (exponent : Int) :
    UnpackedFloat.normalize .binary64 (sign.apply mantissa) exponent zeroSign =
      UnpackedFloat.round .binary64 sign mantissa exponent := by
  unfold UnpackedFloat.normalize
  cases sign with
  | negative =>
      rw [Sign.apply, Int.compare_eq_lt.2 (by omega)]
      dsimp only
      rw [neg_neg, Int.toNat_natCast]
  | positive =>
      rw [Sign.apply, Int.compare_eq_gt.2 (by omega)]
      dsimp only
      rw [Int.toNat_natCast]

/-- A decoded number is packed into itself. -/
theorem pack_unpacked (value : Float) : Float.Model.pack (decode value).unpacked = value.toModel := by
  rw [← unpack_eq]
  have packed := pack_unpack_of_valid value.toModel.valid
  cases value with
  | ofModel model =>
      cases model with
      | mk bits valid =>
          unfold Float.Model.pack Float.Model.unpack
          congr 1
          exact UInt64.toBitVec_inj.1 packed

/-- The rounded one. -/
theorem unpacked_one : (decode 1.0).unpacked = .finite .positive (2 ^ 52) (-52) (by decide) := by
  have bits : (1.0 : Float).toBits.toNat = 0x3ff0000000000000 := rfl
  rw [decode_eq, bits]
  rfl

/-- Numbers are known by their bits. -/
theorem toModel_injective {first second : Float} (same : first.toModel = second.toModel) :
    first = second := by
  cases first
  cases second
  exact congrArg Float.ofModel same

/-- A factor of one is not rounded. -/
theorem one_mul_eq (value : Float) : 1.0 * value = value := by
  apply toModel_injective
  change Float.Model.pack (UnpackedFloat.mul Format.binary64 (1.0 : Float).toModel.unpack
    value.toModel.unpack) = value.toModel
  rw [unpack_eq, unpack_eq, unpacked_one, ← pack_unpacked value]
  congr 1
  cases decoded : decode value with
  | finite negative mantissa exponent =>
      cases mantissa with
      | zero => cases negative <;> rfl
      | succ mantissa =>
          have rounded := roundWithAccuracy_exact (signOf negative) 52 (Nat.succ_pos mantissa)
            (canonical_of_decode decoded)
          rw [sub_eq_neg_add] at rounded
          rw [unpacked_finite (Nat.succ_pos mantissa), UnpackedFloat.mul]
          cases negative <;> exact rounded
  | infinite negative => cases negative <;> rfl
  | undefined => rfl

/-- Multiplication of rounded numbers is commutative, also for undefined ones. -/
theorem mul_comm_eq (first second : Float) : first * second = second * first := by
  apply toModel_injective
  change Float.Model.pack (UnpackedFloat.mul Format.binary64 first.toModel.unpack
    second.toModel.unpack) = Float.Model.pack (UnpackedFloat.mul Format.binary64
      second.toModel.unpack first.toModel.unpack)
  congr 1
  have signs (first second : Sign) : first * second = second * first := by
    cases first <;> cases second <;> rfl
  cases first.toModel.unpack <;> cases second.toModel.unpack <;>
    simp only [UnpackedFloat.mul, signs, Nat.mul_comm, Int.add_comm]

/-- Multiplying by one changes no rounded number. -/
theorem mul_one_eq (value : Float) : value * 1.0 = value := by
  rw [mul_comm_eq, one_mul_eq]

/-- Both zeros have the value zero. -/
theorem exactValue_zero (sign : Sign) :
    exactValue (Float.ofModel (Float.Model.pack (.zero sign))) = some 0 := by
  have decoded : ∃ negative,
      decode (Float.ofModel (Float.Model.pack (.zero sign))) = .finite negative 0 (-1074) := by
    cases sign
    · exact ⟨true, rfl⟩
    · exact ⟨false, rfl⟩
  obtain ⟨negative, decoded⟩ := decoded
  exact (exactValue_eq_zero decoded).2 rfl

/-- A finite number is zero or keeps its form when zero is added. -/
theorem unpack_cases {value : Float} {number : Rat} (known : exactValue value = some number) :
    (number = 0 ∧ ∃ sign, value.toModel.unpack = .zero sign) ∨
      (number ≠ 0 ∧ ∃ sign mantissa exponent positive,
        value.toModel.unpack = .finite sign mantissa exponent positive) := by
  obtain ⟨negative, mantissa, exponent, decoded, -⟩ := decode_of_exactValue known
  have zero : number = 0 ↔ mantissa = 0 := by
    rw [← exactValue_eq_zero decoded, known, Option.some_inj]
  rw [unpack_eq, decoded]
  cases mantissa with
  | zero => exact .inl ⟨zero.2 rfl, signOf negative, rfl⟩
  | succ mantissa =>
      exact .inr ⟨mt zero.1 (Nat.succ_ne_zero mantissa), signOf negative, _, _,
        Nat.succ_pos mantissa, rfl⟩

/-- A result that is the form of a number, or a zero for a value of zero, has this value. -/
theorem exactValue_pack {value : Float} {number : Rat} {result : UnpackedFloat}
    (known : exactValue value = some number)
    (form : result = value.toModel.unpack ∨ (number = 0 ∧ ∃ sign, result = .zero sign)) :
    exactValue (Float.ofModel (Float.Model.pack result)) = some number := by
  rcases form with rfl | ⟨rfl, sign, rfl⟩
  · rw [unpack_eq, pack_unpacked]
    exact known
  · exact exactValue_zero sign

/-- Only the two zeros have the value zero. -/
theorem unpack_zero {zero : Float} (isZero : exactValue zero = some 0) :
    ∃ sign, zero.toModel.unpack = .zero sign :=
  ((unpack_cases isZero).resolve_right fun finite => finite.1 rfl).2

section Zero

variable {value zero : Float} {number : Rat}

/-- A number equals zero if its value is zero. -/
theorem beq_zero_iff (known : exactValue value = some number) : (value == 0.0) = true ↔ number = 0 := by
  have zeroValue : exactValue 0.0 = some 0 := exactValue_zero .positive
  refine ⟨fun equal => ?_, fun zero => beq_of_exactValue known (zero ▸ zeroValue)⟩
  rcases unpack_cases known with ⟨zero, -⟩ | ⟨-, sign, mantissa, exponent, positive, form⟩
  · exact zero
  · have zeroForm : (decode 0.0).unpacked = .zero .positive := rfl
    rw [beq_iff_unpack, ← unpack_eq, form, zeroForm, beq_iff_ne_notANumber_and_eq] at equal
    rcases equal.2.2 with same | ⟨same, -⟩ | ⟨same, -⟩ <;> cases same

/-- An operation that keeps every form but the sign of a zero keeps the value. -/
theorem exactValue_of_kept {operation : UnpackedFloat → UnpackedFloat} (known : exactValue value = some number)
    (zeros : ∀ sign, ∃ sign', operation (.zero sign) = .zero sign')
    (others : ∀ sign mantissa exponent positive,
      operation (.finite sign mantissa exponent positive) = .finite sign mantissa exponent positive) :
    exactValue (Float.ofModel (Float.Model.pack (operation value.toModel.unpack))) = some number := by
  apply exactValue_pack known
  rcases unpack_cases known with ⟨rfl, sign, form⟩ | ⟨-, sign, mantissa, exponent, positive, form⟩
  · rw [form]
    exact .inr ⟨rfl, zeros sign⟩
  · rw [form]
    exact .inl (others sign mantissa exponent positive)

/-- Adding zero keeps the value. -/
theorem exactValue_add_zero (known : exactValue value = some number)
    (isZero : exactValue zero = some 0) : exactValue (value + zero) = some number := by
  obtain ⟨sign', zeroForm⟩ := unpack_zero isZero
  change exactValue (Float.ofModel (Float.Model.pack
    (UnpackedFloat.add Format.binary64 value.toModel.unpack zero.toModel.unpack))) = _
  rw [zeroForm]
  refine @exactValue_of_kept value number (UnpackedFloat.add .binary64 · (.zero sign')) known
    (fun sign => ?_) fun _ _ _ _ => rfl
  cases sign <;> cases sign' <;> exact ⟨_, rfl⟩

/-- Adding to zero keeps the value. -/
theorem exactValue_zero_add (isZero : exactValue zero = some 0)
    (known : exactValue value = some number) : exactValue (zero + value) = some number := by
  obtain ⟨sign', zeroForm⟩ := unpack_zero isZero
  change exactValue (Float.ofModel (Float.Model.pack
    (UnpackedFloat.add Format.binary64 zero.toModel.unpack value.toModel.unpack))) = _
  rw [zeroForm]
  refine @exactValue_of_kept value number (UnpackedFloat.add .binary64 (.zero sign')) known
    (fun sign => ?_) fun _ _ _ _ => rfl
  cases sign <;> cases sign' <;> exact ⟨_, rfl⟩

/-- Subtracting zero keeps the value. -/
theorem exactValue_sub_zero (known : exactValue value = some number)
    (isZero : exactValue zero = some 0) : exactValue (value - zero) = some number := by
  obtain ⟨sign', zeroForm⟩ := unpack_zero isZero
  change exactValue (Float.ofModel (Float.Model.pack
    (UnpackedFloat.sub Format.binary64 value.toModel.unpack zero.toModel.unpack))) = _
  rw [zeroForm]
  refine @exactValue_of_kept value number (UnpackedFloat.sub .binary64 · (.zero sign')) known
    (fun sign => ?_) fun _ _ _ _ => rfl
  cases sign <;> cases sign' <;> exact ⟨_, rfl⟩

/-- Zero times a finite number is zero. -/
theorem exactValue_zero_mul (isZero : exactValue zero = some 0)
    (known : exactValue value = some number) : exactValue (zero * value) = some 0 := by
  obtain ⟨sign', zeroForm⟩ := unpack_zero isZero
  change exactValue (Float.ofModel (Float.Model.pack
    (UnpackedFloat.mul Format.binary64 zero.toModel.unpack value.toModel.unpack))) = _
  apply exactValue_pack isZero
  rw [zeroForm]
  rcases unpack_cases known with ⟨-, sign, form⟩ | ⟨-, sign, mantissa, exponent, positive, form⟩ <;>
    exact .inr ⟨rfl, sign' * sign, by rw [form]; rfl⟩

end Zero

end Binary64

end TrigAlgebra
