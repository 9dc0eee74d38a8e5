/-
This file says which numbers are zero: a number that equals an integer is zero just when the
integer is.
-/

import TrigAlgebra.Number.Coefficient
import TrigAlgebra.Proofs.Results

namespace TrigAlgebra

/-- The integer equal to a coefficient is zero just when the coefficient is. -/
class WholeCoefficient (K : Type) [Coefficient K] : Prop where
  isZero_iff_eq_zero : ∀ {value : K} {integer : Int},
    Coefficient.integer? value = .ok (some integer) →
      (Coefficient.isZero value = true ↔ integer = 0)

namespace Decimal

theorem scale_two_fst_eq_zero {numerator denominator : Nat} {exponent : Int} :
    (scale 2 numerator denominator exponent).1 = 0 ↔ numerator = 0 := by
  unfold scale
  split
  · rfl
  · have positive : 0 < 2 ^ (-exponent).toNat := Nat.two_pow_pos _
    change numerator * 2 ^ (-exponent).toNat = 0 ↔ numerator = 0
    rw [Nat.mul_eq_zero, or_iff_left (Nat.ne_of_gt positive)]

end Decimal

namespace BigFloat

/-- A big number equals zero if it is zero. -/
theorem same_ofInt_zero (value : BigFloat) : value.same (ofInt 0) = value.isZero := by
  cases value with
  | finite mantissa exponent =>
      by_cases zero : mantissa = 0
      · subst zero
        rfl
      · have compared : compare? (.finite mantissa exponent) (ofInt 0) = some (compare mantissa 0) := by
          simp [compare?, ofInt, addWithin, zero]
        rw [same, compared, isZero, beq_eq_false_iff_ne.2 zero, beq_eq_false_iff_ne]
        exact fun equal => zero (Std.LawfulEqCmp.compare_eq_iff_eq.1 (Option.some.inj equal))
  | infinite negative => cases negative <;> rfl
  | undefined => rfl

/-- A whole number is zero if its integer is. -/
theorem integer?_eq_zero {value : BigFloat} {integer : Int} (whole : value.integer? = some integer) :
    value.isZero = true ↔ integer = 0 := by
  cases value with
  | finite mantissa exponent =>
      unfold integer? at whole
      rw [isZero, beq_iff_eq]
      dsimp only at whole
      split at whole
      · cases whole
        have positive : 0 < 1 <<< exponent.toNat := by
          rw [Nat.one_shiftLeft]
          exact Nat.two_pow_pos _
        rw [Int.mul_eq_zero, or_iff_left (by omega)]
      · split at whole
        · rename_i divides
          cases whole
          rw [beq_iff_eq] at divides
          have exact := Int.mul_ediv_cancel' (Int.dvd_of_emod_eq_zero divides)
          constructor
          · rintro rfl
            exact Int.zero_ediv _
          · intro quotient
            rw [← exact, quotient, Int.mul_zero]
        · cases whole
  | infinite negative => cases whole
  | undefined => cases whole

/-- The sign and the exponent do not make zero of anything. -/
theorem isZero_signedNat (negative : Bool) (mantissa : Nat) (exponent : Int) :
    (finite (signedNat negative mantissa) exponent).isZero = true ↔ mantissa = 0 := by
  rw [isZero, beq_iff_eq, signedNat]
  split <;> omega

end BigFloat

namespace Binary64

/-- A rounded whole number is zero if its integer is. -/
theorem integer?_eq_zero {value : Float} {integer : Int} (whole : integer? value = some integer) :
    (BigFloat.ofFloat value).isZero = true ↔ integer = 0 := by
  unfold integer? at whole
  unfold BigFloat.ofFloat
  split at whole
  · rename_i negative mantissa exponent decoded
    rw [decoded, BigFloat.isZero_signedNat]
    have none : (ratio mantissa exponent).1 = 0 ↔ mantissa = 0 := Decimal.scale_two_fst_eq_zero
    split at whole
    rename_i upper lower parts
    rw [parts] at none
    change upper = 0 ↔ mantissa = 0 at none
    split at whole
    · rename_i divides
      have exact := Nat.dvd_of_mod_eq_zero (beq_iff_eq.1 divides)
      have quotient : upper / lower = 0 ↔ mantissa = 0 :=
        ⟨fun zero => none.1 (Nat.eq_zero_of_dvd_of_div_eq_zero exact zero),
          fun zero => by rw [none.2 zero, Nat.zero_div]⟩
      rw [← quotient]
      cases whole
      cases negative <;> simp only [Bool.false_eq_true, if_false, if_true] <;> omega
    · cases whole
  · cases whole

end Binary64

namespace Number

/-- A number is zero when its parts are. -/
theorem isZero_eq (number : Number) :
    Coefficient.isZero number = number.toBigComplex.isZero := by
  have parts : Coefficient.isZero number =
      (number.toBigComplex.re.same (.ofInt 0) && number.toBigComplex.im.same (.ofInt 0)) := by
    cases number with
    | integer whole =>
        change (whole == 0) = ((BigFloat.ofInt whole).same (.ofInt 0) && true)
        rw [BigFloat.same_ofInt_zero, Bool.and_true]
        rfl
    | _ => rfl
  rw [parts, BigFloat.same_ofInt_zero, BigFloat.same_ofInt_zero]
  rfl

instance : WholeCoefficient Number where
  isZero_iff_eq_zero := by
    intro number multiple returned
    rw [isZero_eq]
    cases number with
    | integer whole =>
        obtain ⟨-, -, same⟩ := map_eq_ok.1 returned
        rw [← Option.some.inj same]
        change (whole == 0 && true) = true ↔ whole = 0
        rw [Bool.and_true, beq_iff_eq]
    | real value =>
        rw [← Binary64.integer?_eq_zero (Except.ok.inj returned)]
        change ((BigFloat.ofFloat value).isZero && true) = true ↔ _
        rw [Bool.and_true]
    | bigReal value =>
        rw [← BigFloat.integer?_eq_zero (Except.ok.inj returned)]
        change (value.isZero && true) = true ↔ _
        rw [Bool.and_true]
    | complex re im => cases returned
    | bigComplex value => cases returned

end Number

end TrigAlgebra
