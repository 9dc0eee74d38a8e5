/-
This file proves that the decimal digits of a number are read back as its value and that there are as
many of them as its size calls for, and says what a fault that shows integers comes to.
-/

import Mathlib.Algebra.Order.Ring.Nat
import Mathlib.Tactic.Ring
import TrigAlgebra.Proofs.Results
import TrigAlgebra.Text.Numeral

namespace TrigAlgebra

namespace Text

theorem isDigit_decimalDigit {value : Nat} (small : value < 10) : (decimalDigit value).isDigit = true := by
  have every : ∀ value < 10, (decimalDigit value).isDigit = true := by decide
  exact every value small

theorem digitValue_decimalDigit {value : Nat} (small : value < 10) :
    digitValue (decimalDigit value) = value := by
  have every : ∀ value < 10, digitValue (decimalDigit value) = value := by decide
  exact every value small

/-- Zero has a digit too. -/
theorem decimalDigits_ne_nil (value : Nat) : decimalDigits value ≠ [] := by
  rw [decimalDigits]
  split
  · exact List.cons_ne_nil _ _
  · exact List.append_ne_nil_of_right_ne_nil _ (List.cons_ne_nil _ _)

/-- Nothing but digits is written. -/
theorem isDigit_of_mem_decimalDigits (value : Nat) :
    ∀ character ∈ decimalDigits value, character.isDigit = true := by
  induction value using decimalDigits.induct with
  | case1 value small =>
      rw [decimalDigits, if_pos small, List.forall_mem_singleton]
      exact isDigit_decimalDigit small
  | case2 value large hypothesis =>
      rw [decimalDigits, if_neg large, List.forall_mem_append, List.forall_mem_singleton]
      exact ⟨hypothesis, isDigit_decimalDigit (Nat.mod_lt value (by decide))⟩

/-- One more digit at the end counts as it is, and all others ten times. -/
theorem numeralValue_append (digits : List Char) (digit : Char) :
    numeralValue (digits ++ [digit]) = 10 * numeralValue digits + digitValue digit := by
  rw [numeralValue, List.foldl_append]
  rfl

/-- Digits are read back as the number they were written for. -/
theorem numeralValue_decimalDigits (value : Nat) : numeralValue (decimalDigits value) = value := by
  induction value using decimalDigits.induct with
  | case1 value small =>
      rw [decimalDigits, if_pos small]
      change 10 * 0 + digitValue (decimalDigit value) = value
      rw [digitValue_decimalDigit small, Nat.mul_zero, Nat.zero_add]
  | case2 value large hypothesis =>
      rw [decimalDigits, if_neg large, numeralValue_append, hypothesis,
        digitValue_decimalDigit (Nat.mod_lt value (by decide)), Nat.div_add_mod]

/-- Larger numbers do not have fewer digits. -/
theorem length_decimalDigits_le {first second : Nat} (order : first ≤ second) :
    (decimalDigits first).length ≤ (decimalDigits second).length := by
  induction second using decimalDigits.induct generalizing first with
  | case1 second small =>
      rw [decimalDigits, if_pos (by omega), decimalDigits, if_pos small]
      rfl
  | case2 second large hypothesis =>
      rw [decimalDigits.eq_def second, if_neg large, List.length_append]
      by_cases small : first < 10
      · rw [decimalDigits, if_pos small]
        exact Nat.le_add_left _ _
      · rw [decimalDigits, if_neg small, List.length_append]
        exact Nat.add_le_add_right (hypothesis (Nat.div_le_div_right order)) 1

/-- A number has at most so many digits if it is below that power of ten. -/
theorem length_decimalDigits_le_iff {value count : Nat} (positive : 0 < count) :
    (decimalDigits value).length ≤ count ↔ value < 10 ^ count := by
  induction value using decimalDigits.induct generalizing count with
  | case1 value small =>
      rw [decimalDigits, if_pos small]
      exact iff_of_true positive (small.trans_le (Nat.le_self_pow positive.ne' 10))
  | case2 value large hypothesis =>
      obtain ⟨count, rfl⟩ := Nat.exists_eq_add_of_lt positive
      rw [decimalDigits, if_neg large, List.length_append, List.length_singleton, Nat.zero_add,
        Nat.add_le_add_iff_right, Nat.pow_succ]
      rcases Nat.eq_zero_or_pos count with rfl | more
      · have any := List.length_pos_iff.2 (decimalDigits_ne_nil (value / 10))
        omega
      · rw [hypothesis more, Nat.div_lt_iff_lt_mul (by decide)]

/-- Integers that are not negative have no sign. -/
theorem writeInteger_of_nonneg {value : Int} (notNegative : 0 ≤ value) :
    writeInteger value = String.ofList (decimalDigits value.toNat) := by
  rw [writeInteger, if_neg (Int.not_lt.2 notNegative)]
  congr 2
  omega

/-- Short numerals are written. -/
theorem writeLimited_of_lt {value : Nat} (short : value < 10 ^ numeralLimit) :
    writeLimited value = .ok (String.ofList (decimalDigits value)) := by
  have digits := (length_decimalDigits_le_iff (by decide)).2 short
  rw [writeLimited, Int.natAbs_natCast, if_neg (Nat.not_lt.2 digits),
    writeInteger_of_nonneg (Int.natCast_nonneg value), Int.toNat_natCast]

/-- Numerals of too many digits are not written. -/
theorem writeLimited_of_le {value : Nat} (long : 10 ^ numeralLimit ≤ value) :
    writeLimited value = .error .numeralUnwritten := by
  have digits := (length_decimalDigits_le_iff (by decide)).not.2 (Nat.not_lt.2 long)
  rw [writeLimited, Int.natAbs_natCast, if_pos (Nat.not_le.1 digits)]

/-- The sign does not count among the digits. -/
theorem fits_iff {value : Int} : Fits value ↔ value.natAbs < 10 ^ numeralLimit :=
  length_decimalDigits_le_iff (by decide)

/-- What can be written is written as without a limit. -/
theorem writeLimited_of_fits {value : Int} (fits : Fits value) :
    writeLimited value = .ok (writeInteger value) :=
  if_neg (Nat.not_lt.2 fits)

/-- Writing fails for nothing but the number of digits. -/
theorem writeLimited_eq_error {value : Int} {fault : Fault} :
    writeLimited value = .error fault ↔ ¬ Fits value ∧ fault = .numeralUnwritten := by
  unfold writeLimited Fits
  split
  · rw [Except.error.injEq, and_iff_right (Nat.not_le.2 ‹_›), eq_comm]
  · exact iff_of_false (fun absurd => nomatch absurd) fun facts => facts.1 (Nat.not_lt.1 ‹_›)

end Text

namespace Fault

open Text

/-- A fault arises itself when every integer that it shows can be written; one that cannot be written
is enough to hide it. -/
theorem showing_eq (fault : Fault) (values : List Int) :
    fault.showing values = if ∀ value ∈ values, Fits value then fault else .numeralUnwritten := by
  unfold showing
  split
  · rename_i shown written
    have fits : ∀ value ∈ values, Fits value := by
      intro value member
      by_contra long
      obtain ⟨text, returned⟩ := mapM_returns_iff.1 ⟨shown, written⟩ value member
      cases (writeLimited_eq_error.2 ⟨long, rfl⟩).symm.trans returned
    rw [if_pos fits]
  · rename_i unwritten failed
    obtain ⟨value, member, failed'⟩ := mapM_eq_error failed
    obtain ⟨long, rfl⟩ := writeLimited_eq_error.1 failed'
    rw [if_neg fun fits => long (fits value member)]

/-- A fault that shows one integer. -/
theorem showing_singleton (fault : Fault) (value : Int) :
    fault.showing [value] = if Fits value then fault else .numeralUnwritten := by
  simp only [showing_eq, List.forall_mem_singleton]

/-- A fault that shows two integers. -/
theorem showing_pair (fault : Fault) (first second : Int) :
    fault.showing [first, second] =
      if Fits first ∧ Fits second then fault else .numeralUnwritten := by
  simp [showing_eq]

end Fault

end TrigAlgebra
