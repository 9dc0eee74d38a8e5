/-
This file gives finite numbers of any precision their exact rational values, and proves that the
comparison of two numbers compares these values.
-/

import Mathlib.Algebra.Order.Field.Power
import Mathlib.Data.Rat.Cast.Order
import Mathlib.Tactic.Linarith
import Mathlib.Tactic.Positivity
import TrigAlgebra.Proofs.WholeNumbers

namespace TrigAlgebra

open Binary64

namespace Binary64

theorem lt_two_pow_bitLength (value : Nat) : value < 2 ^ bitLength value := by
  unfold bitLength
  split
  · rename_i zero
    rw [beq_iff_eq.1 zero]
    exact Nat.one_pos
  · exact Nat.lt_log2_self

end Binary64

namespace BigFloat

/-- The exact value of a finite number. -/
def exactValue : BigFloat → Option Rat
  | .finite mantissa exponent => some (mantissa * 2 ^ exponent)
  | _ => none

theorem exactValue_ofInt (value : Int) : (ofInt value).exactValue = some (value : Rat) := by
  rw [ofInt, exactValue, zpow_zero, mul_one]

theorem exactValue_eq_some {value : BigFloat} {number : Rat} (known : value.exactValue = some number) :
    ∃ mantissa exponent, value = .finite mantissa exponent ∧ number = mantissa * 2 ^ exponent := by
  cases value with
  | finite mantissa exponent => exact ⟨mantissa, exponent, rfl, (Option.some.inj known).symm⟩
  | infinite negative => cases known
  | undefined => cases known

/-- A number below a unit in size differs from every other multiple of the unit than zero. -/
theorem shifted_ne {mantissa mantissa' exponent exponent' : Int} (nonzero : mantissa ≠ 0)
    (below : bitLength mantissa'.natAbs + exponent' ≤ exponent) :
    (mantissa : Rat) * 2 ^ exponent ≠ mantissa' * 2 ^ exponent' := by
  intro equal
  have size : |(mantissa' : Rat) * 2 ^ exponent'| < 2 ^ exponent := by
    have digits : |(mantissa' : Rat)| < 2 ^ (bitLength mantissa'.natAbs : Int) := by
      rw [← Int.cast_abs, Int.abs_eq_natAbs, zpow_natCast]
      exact_mod_cast lt_two_pow_bitLength mantissa'.natAbs
    calc |(mantissa' : Rat) * 2 ^ exponent'|
        = |(mantissa' : Rat)| * 2 ^ exponent' := by
          rw [abs_mul, abs_of_pos (zpow_pos (by norm_num : (0 : Rat) < 2) exponent')]
      _ < 2 ^ (bitLength mantissa'.natAbs : Int) * 2 ^ exponent' :=
          mul_lt_mul_of_pos_right digits (zpow_pos (by norm_num) exponent')
      _ = 2 ^ ((bitLength mantissa'.natAbs : Int) + exponent') :=
          (zpow_add₀ (by norm_num) _ _).symm
      _ ≤ 2 ^ exponent := zpow_le_zpow_right₀ (by norm_num) below
  have unit : (1 : Rat) ≤ |(mantissa : Rat)| := by
    rw [← Int.cast_abs]
    exact_mod_cast Int.one_le_abs nonzero
  rw [← equal, abs_mul, abs_of_pos (zpow_pos (by norm_num : (0 : Rat) < 2) exponent)] at size
  have positive : (0 : Rat) < 2 ^ exponent := zpow_pos (by norm_num) exponent
  nlinarith

/-- Over the smaller exponent a value is an integer multiple of the unit. -/
theorem eq_shifted_iff {mantissa mantissa' exponent exponent' : Int} (order : exponent ≤ exponent') :
    (mantissa : Rat) * 2 ^ exponent = mantissa' * 2 ^ exponent' ↔
      mantissa = mantissa' * (1 <<< (exponent' - exponent).toNat : Nat) := by
  have positive : (0 : Rat) < 2 ^ exponent := zpow_pos (by norm_num) exponent
  have parts : (2 : Rat) ^ exponent' = 2 ^ (exponent' - exponent).toNat * 2 ^ exponent := by
    rw [← zpow_natCast, Int.toNat_of_nonneg (by omega), ← zpow_add₀ (by norm_num)]
    congr 1
    omega
  rw [parts, ← mul_assoc, mul_left_inj' positive.ne', Nat.one_shiftLeft]
  exact_mod_cast Iff.rfl

/-- The sum of the aligned mantissas of a number and the negative of another is zero just when the
numbers have the same value. -/
theorem align_eq_zero_iff {mantissa exponent mantissa' exponent' : Int} :
    (align mantissa exponent (-mantissa') exponent').1 +
        (align mantissa exponent (-mantissa') exponent').2.1 = 0 ↔
      (mantissa : Rat) * 2 ^ exponent = mantissa' * 2 ^ exponent' := by
  unfold align
  split
  · rename_i order
    dsimp only
    rw [eq_shifted_iff order, Int.neg_mul]
    omega
  · rename_i order
    dsimp only
    rw [eq_comm (a := (mantissa : Rat) * 2 ^ exponent), eq_shifted_iff (by omega)]
    omega

theorem alignWithin_eq_zero_iff {precision : Nat} {mantissa exponent mantissa' exponent' : Int}
    (nonzero : mantissa ≠ 0) (nonzero' : mantissa' ≠ 0) :
    (alignWithin precision mantissa exponent (-mantissa') exponent').1 +
        (alignWithin precision mantissa exponent (-mantissa') exponent').2.1 = 0 ↔
      (mantissa : Rat) * 2 ^ exponent = mantissa' * 2 ^ exponent' := by
  have even : (2 : Int) ∣ (1 <<< (precision + 4) : Nat) := by
    rw [Nat.one_shiftLeft]
    exact_mod_cast dvd_pow_self 2 (by omega)
  unfold alignWithin
  dsimp only
  split
  · rename_i below
    rw [Int.natAbs_neg] at below
    refine iff_of_false (fun zero => ?_) (shifted_ne nonzero (by omega))
    have odd : (2 : Int) ∣ (-mantissa').sign :=
      (Int.dvd_add_right (Dvd.dvd.mul_left even mantissa)).1 (zero ▸ Int.dvd_zero 2)
    rcases Int.lt_or_gt_of_ne nonzero' with negative | positive
    · rw [Int.sign_eq_one_of_pos (by omega)] at odd
      omega
    · rw [Int.sign_eq_neg_one_of_neg (by omega)] at odd
      omega
  · split
    · rename_i below
      refine iff_of_false (fun zero => ?_) (shifted_ne nonzero' (by omega)).symm
      have odd : (2 : Int) ∣ mantissa.sign :=
        (Int.dvd_add_left (Dvd.dvd.mul_left even (-mantissa'))).1 (zero ▸ Int.dvd_zero 2)
      rcases Int.lt_or_gt_of_ne nonzero with negative | positive
      · rw [Int.sign_eq_neg_one_of_neg negative] at odd
        omega
      · rw [Int.sign_eq_one_of_pos positive] at odd
        omega
    · exact align_eq_zero_iff

/-- Two finite numbers are equal when their exact values are. -/
theorem same_iff {first second : BigFloat} {number number' : Rat}
    (known : first.exactValue = some number) (known' : second.exactValue = some number') :
    first.same second = true ↔ number = number' := by
  obtain ⟨mantissa, exponent, rfl, rfl⟩ := exactValue_eq_some known
  obtain ⟨mantissa', exponent', rfl, rfl⟩ := exactValue_eq_some known'
  have positive (power : Int) : (2 : Rat) ^ power ≠ 0 := (zpow_pos (by norm_num) power).ne'
  have compared (difference : Int) :
      (some (compare difference 0) == some Ordering.eq) = true ↔ difference = 0 := by
    rw [beq_iff_eq, Option.some_inj, Std.LawfulEqCmp.compare_eq_iff_eq]
  unfold same compare? addWithin
  dsimp only
  by_cases zero : mantissa = 0
  · rw [if_pos (beq_iff_eq.2 zero)]
    dsimp only
    rw [compared, zero, Int.cast_zero, zero_mul, zero_eq_mul, or_iff_left (positive exponent'),
      Int.cast_eq_zero, Int.neg_eq_zero]
  · rw [if_neg (beq_iff_eq.not.2 zero)]
    by_cases zero' : mantissa' = 0
    · rw [if_pos (beq_iff_eq.2 (Int.neg_eq_zero.2 zero'))]
      dsimp only
      rw [compared, zero', Int.cast_zero, zero_mul, mul_eq_zero, or_iff_left (positive exponent),
        Int.cast_eq_zero]
    · rw [if_neg (beq_iff_eq.not.2 (mt Int.neg_eq_zero.1 zero'))]
      dsimp only
      rw [compared, alignWithin_eq_zero_iff zero zero']

end BigFloat

end TrigAlgebra
