/-
This file gives the numbers of symbolic expressions their exact values, and proves that multiplying
by an exact one and adding a number that is zero keep these values.
-/

import Mathlib
import TrigAlgebra.Proofs.IntegerSizes
import TrigAlgebra.Proofs.NumberValues
import TrigAlgebra.Symbolic.Conversion

namespace TrigAlgebra

namespace Number

/-- A number of which a rounded copy has the same value. -/
def Plain : Number → Prop
  | .integer whole => whole.natAbs ≤ 2 ^ 53
  | .real value => value.isFinite = true
  | .complex re im => re.isFinite = true ∧ im.isFinite = true
  | _ => False

end Number

namespace Symbolic.Scalar

open Binary64

/-- The real and the imaginary part of the value of a number; an exact number is a small integer. -/
inductive Denotes : Scalar → Rat × Rat → Prop
  | exact {whole : Int} (small : whole.natAbs ≤ 2 ^ 53) : Denotes (.ofInt whole) (whole, 0)
  | real {value : Float} {re : Rat} (known : exactValue value = some re) : Denotes (.real value) (re, 0)
  | complex {value value' : Float} {re im : Rat} (known : exactValue value = some re)
      (known' : exactValue value' = some im) : Denotes (.complex value value') (re, im)

variable {scalar first second : Scalar} {value value' : Rat × Rat}

theorem denotes_zero : Denotes .zero 0 :=
  .exact (by decide)

theorem denotes_one : Denotes .one (1, 0) := by
  have small : (1 : Int).natAbs ≤ 2 ^ 53 := by decide
  have one := Denotes.exact small
  rwa [Int.cast_one] at one

/-- Every plain number becomes a scalar that denotes something. -/
theorem denotes_toScalar {number : Number} (plain : number.Plain) :
    ∃ value, number.toScalar.Denotes value := by
  cases number with
  | integer whole => exact ⟨_, .exact plain⟩
  | real value =>
      obtain ⟨re, known⟩ := isFinite_iff.1 plain
      exact ⟨_, .real known⟩
  | complex re im =>
      obtain ⟨_, known⟩ := isFinite_iff.1 plain.1
      obtain ⟨_, known'⟩ := isFinite_iff.1 plain.2
      exact ⟨_, .complex known known'⟩
  | bigReal value => exact plain.elim
  | bigComplex value => exact plain.elim

/-- Small integers are converted without rounding. -/
theorem exactValue_floatOfRat {whole : Int} (small : whole.natAbs ≤ 2 ^ 53) :
    exactValue (floatOfRat whole) = some (whole : Rat) := by
  rw [floatOfRat, if_pos (Rat.den_intCast whole), Rat.num_intCast, exactValue_towardZero small]

theorem exactValue_floatOfRat_zero : exactValue (floatOfRat 0) = some 0 :=
  exactValue_floatOfRat (by decide)

/-- The parts that a scalar is converted to have the denoted values. -/
theorem Denotes.toParts (known : scalar.Denotes value) :
    exactValue scalar.toParts.1 = some value.1 ∧ exactValue scalar.toParts.2 = some value.2 := by
  cases known with
  | exact small => exact ⟨exactValue_floatOfRat small, exactValue_floatOfRat_zero⟩
  | real known => exact ⟨known, exactValue_zero .positive⟩
  | complex known known' => exact ⟨known, known'⟩

/-- The values of the two rounded parts. -/
def parts (scalar : Scalar) : Option Rat × Option Rat :=
  (exactValue scalar.toParts.1, exactValue scalar.toParts.2)

/-- The parts that scalars are compared by are the denoted values. -/
theorem Denotes.parts_eq (known : scalar.Denotes value) :
    scalar.parts = (some value.1, some value.2) :=
  Prod.ext known.toParts.1 known.toParts.2

theorem parts_injective (known : first.Denotes value) (known' : second.Denotes value')
    (same : first.parts = second.parts) : value = value' := by
  rw [known.parts_eq, known'.parts_eq] at same
  exact Prod.ext (Option.some.inj (Prod.ext_iff.1 same).1) (Option.some.inj (Prod.ext_iff.1 same).2)

/-- A scalar denotes at most one number. -/
theorem Denotes.unique (known : scalar.Denotes value) (known' : scalar.Denotes value') : value = value' :=
  parts_injective known known' rfl

/-- A scalar is zero if it denotes zero. -/
theorem Denotes.isZero_iff (known : scalar.Denotes value) : scalar.isZero = true ↔ value = 0 := by
  rw [Prod.ext_iff]
  cases known with
  | @exact whole small =>
      change ((whole : Rat) == 0 && true) = true ↔ (whole : Rat) = 0 ∧ (0 : Rat) = 0
      rw [Bool.and_true, beq_iff_eq, and_iff_left rfl]
  | real known => exact (beq_zero_iff known).trans (and_iff_left rfl).symm
  | complex known known' =>
      change (_ == 0.0 && _ == 0.0) = true ↔ _
      rw [Bool.and_eq_true, beq_zero_iff known, beq_zero_iff known']
      rfl

theorem ofInt_add (first second : Int) : (ofInt first).add (ofInt second) = ofInt (first + second) := by
  change exact ((first : Rat) + second) (0 + 0) = exact ((first + second : Int) : Rat) 0
  rw [Int.cast_add, Rat.add_zero]

theorem ofInt_mul (first second : Int) : (ofInt first).mul (ofInt second) = ofInt (first * second) := by
  change exact ((first : Rat) * second - 0 * 0) ((first : Rat) * 0 + 0 * (second : Rat)) =
    exact ((first * second : Int) : Rat) 0
  rw [Int.cast_mul, Rat.mul_zero, Rat.mul_zero, Rat.zero_mul, Rat.add_zero, sub_zero]

theorem one_mul_one : one.mul one = one := ofInt_mul 1 1

/-- Different integers are different scalars. -/
theorem ofInt_injective {first second : Int} (same : ofInt first = ofInt second) : first = second :=
  Rat.intCast_injective (Scalar.exact.inj same).1

theorem isZero_ofInt {value : Int} : (ofInt value).isZero = true ↔ value = 0 := by
  change ((value : Rat) == 0 && (0 : Rat) == 0) = true ↔ value = 0
  rw [Bool.and_eq_true, beq_iff_eq, Int.cast_eq_zero, and_iff_left (beq_self_eq_true _)]

/-- Two numbers that are not both exact are added as their rounded parts. -/
theorem add_cases (known : first.Denotes value) (known' : second.Denotes value') :
    (∃ whole whole' : Int, (value = (↑whole, 0) ∧ whole.natAbs ≤ 2 ^ 53) ∧
        (value' = (↑whole', 0) ∧ whole'.natAbs ≤ 2 ^ 53) ∧
          first.add second = ofInt (whole + whole')) ∨
      (value.2 = 0 ∧ value'.2 = 0 ∧
        first.add second = .real (first.toParts.1 + second.toParts.1)) ∨
      first.add second =
        .complex (first.toParts.1 + second.toParts.1) (first.toParts.2 + second.toParts.2) := by
  cases known with
  | exact small =>
      cases known' with
      | exact small' => exact .inl ⟨_, _, ⟨rfl, small⟩, ⟨rfl, small'⟩, ofInt_add _ _⟩
      | real knownRe' => exact .inr (.inl ⟨rfl, rfl, rfl⟩)
      | complex knownRe' knownIm' => exact .inr (.inr rfl)
  | real knownRe =>
      cases known' with
      | exact small' => exact .inr (.inl ⟨rfl, rfl, rfl⟩)
      | real knownRe' => exact .inr (.inl ⟨rfl, rfl, rfl⟩)
      | complex knownRe' knownIm' => exact .inr (.inr rfl)
  | complex knownRe knownIm => cases known' <;> exact .inr (.inr rfl)

theorem whole_of_zero {whole : Int} (zero : (0 : Rat × Rat) = (↑whole, 0)) : whole = 0 := by
  have first : (0 : Rat) = whole := congrArg Prod.fst zero
  exact_mod_cast first.symm

/-- Adding zero changes the form of a scalar at most. -/
theorem Denotes.add_zero (known : first.Denotes value) (zero : second.Denotes 0) :
    (first.add second).Denotes value := by
  obtain ⟨re, im⟩ := known.toParts
  obtain ⟨re', im'⟩ := zero.toParts
  rcases add_cases known zero with ⟨whole, whole', ⟨rfl, small⟩, ⟨none, -⟩, sum⟩ | ⟨real, -, sum⟩ | sum
  · rw [sum, whole_of_zero none, Int.add_zero]
    exact .exact small
  · rw [sum, ← Prod.mk.eta (p := value), real]
    exact .real (exactValue_add_zero re re')
  · rw [sum]
    exact .complex (exactValue_add_zero re re') (exactValue_add_zero im im')

theorem Denotes.zero_add (zero : first.Denotes 0) (known : second.Denotes value) :
    (first.add second).Denotes value := by
  obtain ⟨re, im⟩ := zero.toParts
  obtain ⟨re', im'⟩ := known.toParts
  rcases add_cases zero known with ⟨whole, whole', ⟨none, -⟩, ⟨rfl, small⟩, sum⟩ | ⟨-, real, sum⟩ | sum
  · rw [sum, whole_of_zero none, Int.zero_add]
    exact .exact small
  · rw [sum, ← Prod.mk.eta (p := value), real]
    exact .real (exactValue_zero_add re re')
  · rw [sum]
    exact .complex (exactValue_zero_add re re') (exactValue_zero_add im im')

/-- A factor of an exact one keeps the value, if not the kind of a part that is zero. -/
theorem Denotes.one_mul (known : scalar.Denotes value) : (one.mul scalar).Denotes value := by
  cases known with
  | @exact whole small =>
      rw [one, ofInt_mul, Int.one_mul]
      exact .exact small
  | @real number re knownRe =>
      change (Scalar.real (1.0 * number)).Denotes _
      rw [one_mul_eq]
      exact .real knownRe
  | @complex number number' re im knownRe knownIm =>
      change (Scalar.complex (1.0 * number - floatOfRat 0 * number')
        (1.0 * number' + floatOfRat 0 * number)).Denotes _
      rw [one_mul_eq, one_mul_eq]
      exact .complex
        (exactValue_sub_zero knownRe (exactValue_zero_mul exactValue_floatOfRat_zero knownIm))
        (exactValue_add_zero knownIm (exactValue_zero_mul exactValue_floatOfRat_zero knownRe))

/-- Multiplying by one changes the form of a scalar at most. -/
theorem Denotes.mul_one (known : scalar.Denotes value) : (scalar.mul one).Denotes value := by
  cases known with
  | @exact whole small =>
      rw [one, ofInt_mul, Int.mul_one]
      exact .exact small
  | @real number re knownRe =>
      change (Scalar.real (number * 1.0)).Denotes _
      rw [mul_one_eq]
      exact .real knownRe
  | @complex number number' re im knownRe knownIm =>
      change (Scalar.complex (number * 1.0 - number' * floatOfRat 0)
        (number * floatOfRat 0 + number' * 1.0)).Denotes _
      rw [mul_one_eq, mul_one_eq, mul_comm_eq number', mul_comm_eq number]
      exact .complex
        (exactValue_sub_zero knownRe (exactValue_zero_mul exactValue_floatOfRat_zero knownIm))
        (exactValue_zero_add (exactValue_zero_mul exactValue_floatOfRat_zero knownRe) knownIm)

/-- Zero times anything is the exact zero. -/
theorem Denotes.mul_zero (known : scalar.Denotes value) : scalar.mul zero = zero := by
  cases known with
  | @exact whole small => rw [zero, ofInt_mul, Int.mul_zero]
  | real knownRe => rfl
  | complex knownRe knownIm => rfl

end Symbolic.Scalar

namespace Number

open Binary64

variable {number first second : Number} {value : Rat × Rat}

/-- The parts in which numbers of different kinds are compared have the same values. -/
theorem toBigComplex_value (plain : number.Plain) (known : number.toScalar.Denotes value) :
    number.toBigComplex.re.exactValue = some value.1 ∧
      number.toBigComplex.im.exactValue = some value.2 := by
  have zero : (BigFloat.ofInt 0).exactValue = some 0 := BigFloat.exactValue_ofInt 0
  cases number with
  | integer whole =>
      obtain rfl := known.unique (.exact plain)
      exact ⟨BigFloat.exactValue_ofInt whole, zero⟩
  | real value =>
      obtain ⟨re, finite⟩ := isFinite_iff.1 plain
      obtain rfl := known.unique (.real finite)
      exact ⟨finite, zero⟩
  | complex re im =>
      obtain ⟨_, finite⟩ := isFinite_iff.1 plain.1
      obtain ⟨_, finite'⟩ := isFinite_iff.1 plain.2
      obtain rfl := known.unique (.complex finite finite')
      exact ⟨finite, finite'⟩
  | bigReal value => exact plain.elim
  | bigComplex value => exact plain.elim

/-- A number is zero if its scalar denotes zero. -/
theorem isZero_iff_value (plain : number.Plain) (known : number.toScalar.Denotes value) :
    Coefficient.isZero number = true ↔ value = 0 := by
  obtain ⟨re, im⟩ := toBigComplex_value plain known
  have zero : (BigFloat.ofInt 0).exactValue = some 0 := BigFloat.exactValue_ofInt 0
  rw [isZero_eq, BigComplex.isZero, Bool.and_eq_true, ← BigFloat.same_ofInt_zero,
    ← BigFloat.same_ofInt_zero, BigFloat.same_iff re zero, BigFloat.same_iff im zero, Prod.ext_iff]
  rfl

/-- Numbers of one value are equal, whatever their kinds. -/
theorem same_of_value (plain : first.Plain) (plain' : second.Plain)
    (known : first.toScalar.Denotes value) (known' : second.toScalar.Denotes value) :
    Coefficient.same first second = true := by
  obtain ⟨re, im⟩ := toBigComplex_value plain known
  obtain ⟨re', im'⟩ := toBigComplex_value plain' known'
  exact same_of_sameValue (.inl ⟨_, re, re'⟩) (.inl ⟨_, im, im'⟩)

/-- A finite real number is plain and denotes itself. -/
theorem plain_real {number : Float} {re : Rat} (known : exactValue number = some re) :
    (Number.real number).Plain ∧ (Number.real number).toScalar.Denotes (re, 0) :=
  ⟨isFinite_iff.2 ⟨re, known⟩, .real known⟩

/-- The rounded one changes no real number. -/
theorem one_mul_real (number : Float) : Number.mul (.real 1.0) (.real number) = .ok (.real number) := by
  change Except.ok (Number.real (1.0 * number)) = _
  rw [one_mul_eq]

/-- A small integer is read as the rounded number of its value. -/
theorem read_ofInt {whole : Int} (small : whole.natAbs ≤ 2 ^ 53) :
    ∃ number rounded, (Symbolic.Scalar.ofInt whole).toNumber? = some number ∧
      (if (Symbolic.Scalar.ofInt whole).isOne then pure (.real 1.0) else Number.mul (.real 1.0) number) =
        (.ok (.real rounded) : Except Fault Number) ∧
      exactValue rounded = some (whole : Rat) := by
  have isNumber : (Symbolic.Scalar.ofInt whole).toNumber? =
      some (.real (Symbolic.Scalar.floatOfRat whole)) := by
    rw [Symbolic.Scalar.ofInt, Symbolic.Scalar.toNumber?, if_pos rfl]
  by_cases one : (Symbolic.Scalar.ofInt whole).isOne = true
  · obtain rfl : whole = 1 := Symbolic.Scalar.ofInt_injective (beq_iff_eq.1 one)
    exact ⟨_, 1.0, isNumber, if_pos one, exactValue_one⟩
  · refine ⟨_, Symbolic.Scalar.floatOfRat whole, isNumber, ?_, Symbolic.Scalar.exactValue_floatOfRat small⟩
    rw [if_neg one, one_mul_real]

/-- A symbolic number is read as a rounded one of the same value. -/
theorem read_scalar {scalar : Symbolic.Scalar} (known : scalar.Denotes value) :
    ∃ number coefficient, scalar.toNumber? = some number ∧
      (if scalar.isOne then pure (.real 1.0) else Number.mul (.real 1.0) number) =
        (.ok coefficient : Except Fault Number) ∧
      coefficient.Plain ∧ coefficient.toScalar.Denotes value := by
  cases known with
  | @exact whole small =>
      obtain ⟨number, rounded, isNumber, isRounded, known⟩ := read_ofInt small
      exact ⟨number, .real rounded, isNumber, isRounded, plain_real known⟩
  | @real number re knownRe => exact ⟨_, _, rfl, one_mul_real number, plain_real knownRe⟩
  | @complex number number' re im knownRe knownIm =>
      have zero : exactValue 0.0 = some 0 := exactValue_zero .positive
      have re' := exactValue_sub_zero (one_mul_eq number ▸ knownRe) (exactValue_zero_mul zero knownIm)
      have im' := exactValue_add_zero (one_mul_eq number' ▸ knownIm) (exactValue_zero_mul zero knownRe)
      exact ⟨.complex number number', _, rfl, rfl, ⟨isFinite_iff.2 ⟨re, re'⟩, isFinite_iff.2 ⟨im, im'⟩⟩,
        .complex re' im'⟩

end Number

end TrigAlgebra
