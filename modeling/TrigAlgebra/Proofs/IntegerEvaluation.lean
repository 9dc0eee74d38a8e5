/-
This file evaluates stored integers at an integer: the value is the exact one with the last 64 bits
kept, and so the exact one just when it fits the form in which the coefficients are stored.
-/

import Mathlib.Algebra.BigOperators.Group.Finset.Basic
import TrigAlgebra.Proofs.StoredIntegers

namespace TrigAlgebra

namespace Horner

variable {R : Type} [CommRing R] {point : R}

/-- The last coefficient stands before the highest power. -/
theorem value_concat (coefficients : List R) (last : R) :
    value point (coefficients ++ [last]) = value point coefficients + last * point ^ coefficients.length := by
  induction coefficients with
  | nil => simp [value]
  | cons head rest hypothesis =>
      change value point (rest ++ [last]) * point + head = value point rest * point + head + _
      rw [hypothesis, List.length_cons]
      ring

/-- A sum over the powers up to the degree. -/
theorem value_range (coefficients : Nat → R) (count : Nat) :
    value point ((List.range count).map coefficients) =
      ∑ power ∈ Finset.range count, coefficients power * point ^ power := by
  induction count with
  | zero => rfl
  | succ count hypothesis =>
      rw [List.range_succ, List.map_append, List.map_singleton, value_concat, hypothesis,
        Finset.sum_range_succ, List.length_map, List.length_range]

/-- The walk from the leading coefficient down. -/
theorem value_of_reverse {coefficients lower : List R} {leading : R}
    (walked : coefficients.reverse = leading :: lower) : value point coefficients =
      lower.foldl (fun result coefficient => result * point + coefficient) leading := by
  rw [value, ← List.foldl_reverse, walked, List.foldl_cons, zero_mul, zero_add]

end Horner

namespace DenseVector

variable {storage : Storage} {values : List Int} {point : Int}

/-- Wrapping after every product and every sum gives the wrapped value. -/
theorem evaluateWords_eq {leading : Int} (fits : storage.holds leading = true) (lower : List Int) :
    evaluateWords storage.wrap point leading lower =
      storage.wrap (lower.foldl (fun result entry => result * point + entry) leading) := by
  have steps (result : Int) : evaluateWords storage.wrap point (storage.wrap result) lower =
      storage.wrap (lower.foldl (fun result entry => result * point + entry) result) := by
    induction lower generalizing result with
    | nil => rfl
    | cons head rest hypothesis =>
        rw [List.foldl_cons, ← hypothesis, ← storage.wrap_step]
        rfl
  have whole := steps leading
  rwa [Storage.wrap_of_holds fits] at whole

/-- Integers are multiplied and added without rounding. -/
theorem foldlM_step_integer (point leading : Int) (lower : List Int) :
    (lower.map Number.integer).foldlM (Horner.step (.integer point)) (.integer leading) =
      .ok (.integer (lower.foldl (fun result entry => result * point + entry) leading)) := by
  induction lower generalizing leading with
  | nil => rfl
  | cons head rest hypothesis =>
      rw [List.map_cons, List.foldlM_cons, List.foldl_cons, ← hypothesis]
      rfl

/-- Words and points that fit their form, or a single word: the value is wrapped once. -/
theorem evaluateIntegers_of_holds {require : Int → Except Fault Unit} (nonempty : values ≠ [])
    (fits : ∀ value ∈ values, storage.holds value = true)
    (allowed : values.length = 1 ∨ require point = .ok ()) :
    evaluateIntegers storage.wrap require values (.integer point) =
      some (.ok (.integer (storage.wrap (Horner.value point values)))) := by
  obtain ⟨leading, lower, walked⟩ := List.exists_cons_of_ne_nil (mt List.reverse_eq_nil_iff.1 nonempty)
  have fitsLeading := fits leading (List.mem_reverse.1 (walked ▸ List.mem_cons_self))
  rw [Horner.value_of_reverse walked, ← evaluateWords_eq fitsLeading]
  cases lower with
  | nil =>
      simp only [evaluateIntegers, walked]
      rfl
  | cons next others =>
      have several : values.length ≠ 1 := by
        rw [← List.length_reverse, walked]
        simp
      simp only [evaluateIntegers, walked, allowed.resolve_left several]
      rfl

/-- A point outside the words is refused. -/
theorem evaluateIntegers_refused {wrap : Int → Int} {require : Int → Except Fault Unit} {fault : Fault}
    (several : 1 < values.length) (refused : require point = .error fault) :
    evaluateIntegers wrap require values (.integer point) = some (.error fault) := by
  rw [← List.length_reverse] at several
  obtain ⟨leading, next, others, walked⟩ : ∃ leading next others,
      values.reverse = leading :: next :: others := by
    cases walked : values.reverse with
    | nil => simp [walked] at several
    | cons leading lower =>
        cases lower with
        | nil => simp [walked] at several
        | cons next others => exact ⟨leading, next, others, rfl⟩
  simp only [evaluateIntegers, walked, refused]
  rfl

/-- Signed words are evaluated at signed words. -/
theorem requireSigned_eq_ok : requireSigned point = .ok () ↔ Word.isSigned point = true := by
  unfold requireSigned
  split <;> simp_all

/-- Unsigned words are evaluated at unsigned words. -/
theorem requireUnsigned_eq_ok : requireUnsigned point = .ok () ↔ Word.isUnsigned point = true := by
  unfold requireUnsigned
  split
  · simp_all
  · split <;> simp_all

/-- The value wraps once, however often the program wraps. -/
theorem evaluate_ofIntegers_of_holds (nonempty : values ≠ [])
    (fits : ∀ value ∈ values, storage.holds value = true)
    (allowed : values.length = 1 ∨ storage.holds point = true) :
    (ofIntegers storage values).evaluate (.integer point) =
      some (.ok (.integer (storage.wrap (Horner.value point values)))) := by
  cases storage with
  | signed => exact evaluateIntegers_of_holds nonempty fits (allowed.imp_right requireSigned_eq_ok.2)
  | unsigned => exact evaluateIntegers_of_holds nonempty fits (allowed.imp_right requireUnsigned_eq_ok.2)
  | unbounded =>
      obtain ⟨leading, lower, walked⟩ := List.exists_cons_of_ne_nil (mt List.reverse_eq_nil_iff.1 nonempty)
      have exact := foldlM_step_integer point leading lower
      simp only [ofIntegers, evaluate, Horner.fromLeading, ← List.map_reverse, walked, List.map_cons, exact,
        Horner.value_of_reverse walked]
      rfl

/-- A point that is no word is refused, unless there is only one coefficient. -/
theorem evaluate_ofIntegers_refused (several : 1 < values.length) (large : storage.holds point = false) :
    ∃ fault, (ofIntegers storage values).evaluate (.integer point) = some (.error fault) := by
  cases storage with
  | signed =>
      cases required : requireSigned point with
      | ok _ => exact (Bool.false_ne_true (large ▸ requireSigned_eq_ok.1 required)).elim
      | error fault => exact ⟨fault, evaluateIntegers_refused several required⟩
  | unsigned =>
      cases required : requireUnsigned point with
      | ok _ => exact (Bool.false_ne_true (large ▸ requireUnsigned_eq_ok.1 required)).elim
      | error fault => exact ⟨fault, evaluateIntegers_refused several required⟩
  | unbounded => cases large

end DenseVector

namespace Polynomial

/-- The exact value of a polynomial in one variable at an integer. -/
def exactValueAt (polynomial : Polynomial Number) (point : Int) : Int :=
  ∑ power ∈ Finset.range (polynomial.degree + 1), polynomial.integerOf power * point ^ power

/-- At an integer, a polynomial whose integer coefficients are not rounded has a value just when the
point can be stored as the coefficients are, or the polynomial is constant. The value agrees with the
exact one in the last 64 bits, and is the exact one just when this can be stored like the
coefficients. -/
theorem evaluateAt_integers (polynomial : Polynomial Number) (reachable : polynomial.Reachable)
    (named : noVariable ∉ polynomial.vars) (univariate : polynomial.univariate = true)
    (filled : polynomial.Filled) (point : Int) {vector : DenseVector} {storage : Storage}
    (stored : polynomial.coefficients = .ok vector) (kept : vector.storage? = some storage) :
    ((∃ result, polynomial.evaluateAt (.integer point) = .ok result) ↔
      polynomial.degree = 0 ∨ storage.holds point = true) ∧
    ∀ result, polynomial.evaluateAt (.integer point) = .ok result →
      ∃ value, result = .integer value ∧ storage.holds value = true ∧
        value ≡ polynomial.exactValueAt point [ZMOD 2 ^ 64] ∧
        (value = polynomial.exactValueAt point ↔ storage.holds (polynomial.exactValueAt point) = true) := by
  obtain ⟨single, oneVariable⟩ := exists_oneVariable reachable named univariate
  have slots := denseSlots_of_filled oneVariable.distinct oneVariable.powers filled
  have listed := coefficients_of_univariate univariate
  rw [slots] at listed
  obtain rfl := Except.ok.inj (stored.symm.trans listed)
  obtain ⟨form, fits⟩ := DenseVector.ofNumbers_integers kept
  have evaluated : polynomial.evaluateAt (.integer point) =
      (((DenseVector.ofIntegers storage polynomial.integers).evaluate (.integer point)).getD
        (.ok (.real 0.0))) := by
    rw [evaluateAt, listed, form]
    rfl
  have count : polynomial.integers.length = polynomial.degree + 1 := by
    rw [integers, List.length_map, List.length_range]
  have exact : Horner.value point polynomial.integers = polynomial.exactValueAt point :=
    Horner.value_range _ _
  by_cases allowed : polynomial.degree = 0 ∨ storage.holds point = true
  · rw [DenseVector.evaluate_ofIntegers_of_holds polynomial.integers_ne_nil fits
      (allowed.imp_left fun constant => by rw [count, constant]), exact, Option.getD_some] at evaluated
    refine ⟨iff_of_true ⟨_, evaluated⟩ allowed, fun result returned => ?_⟩
    rw [evaluated] at returned
    refine ⟨_, (Except.ok.inj returned).symm, storage.holds_wrap _, storage.wrap_modEq _, ?_⟩
    rw [Storage.wrap_eq_self_iff]
  · rw [not_or, Bool.not_eq_true] at allowed
    obtain ⟨fault, refused⟩ := DenseVector.evaluate_ofIntegers_refused
      (by omega : 1 < polynomial.integers.length) allowed.2
    rw [refused, Option.getD_some] at evaluated
    rw [evaluated]
    simp [allowed]

/-- The product of its leading coefficient with the point 4 has no bit among the last 64. -/
def steepLine : Polynomial Number :=
  ⟨[.constant (.integer 1), ⟨.integer (2 ^ 62), .power 2 1⟩], true⟩

theorem evaluateAt_integers_steepLine :
    steepLine.evaluateAt (.integer 4) = .ok (.integer 1) ∧ steepLine.exactValueAt 4 = 2 ^ 64 + 1 := by
  have merged : ofMonomials steepLine.monomials = .ok steepLine := rfl
  have vars : steepLine.vars = [2] := by decide +kernel
  have named : noVariable ∉ steepLine.vars := by
    rw [vars]
    decide
  have degree : steepLine.degree = 1 := rfl
  have filled : steepLine.Filled := by
    constructor
    · intro item member
      simp only [steepLine, List.mem_cons, List.not_mem_nil, or_false] at member
      obtain rfl | rfl := member
      · exact ⟨1, rfl⟩
      · exact ⟨2 ^ 62, rfl⟩
    · intro power bound
      rw [degree] at bound
      obtain rfl | rfl : power = 0 ∨ power = 1 := by omega
      · exact ⟨_, List.mem_cons_self, rfl⟩
      · exact ⟨_, List.mem_cons_of_mem _ List.mem_cons_self, rfl⟩
  have stored : steepLine.coefficients = .ok (.signedWords [1, 2 ^ 62]) := by
    rw [coefficients_of_univariate rfl]
    rfl
  obtain ⟨returns, values⟩ :=
    evaluateAt_integers steepLine (.ofMonomials merged) named rfl filled 4 stored rfl
  obtain ⟨result, returned⟩ := returns.2 (.inr rfl)
  obtain ⟨value, rfl, fits, near, -⟩ := values result returned
  have exact : steepLine.exactValueAt 4 = 2 ^ 64 + 1 := by decide +kernel
  refine ⟨?_, exact⟩
  rw [returned]
  rw [exact] at near
  have bounds := Word.isSigned_iff.1 fits
  rw [Int.ModEq] at near
  have isOne : value = 1 := by omega
  rw [isOne]

end Polynomial

end TrigAlgebra
