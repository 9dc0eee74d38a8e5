/-
This file proves that the operations for one variable refuse exactly the polynomials that are not
flagged for them: no arithmetic of numbers fails in that way.
-/

import TrigAlgebra.DenseVector.Basic
import TrigAlgebra.Polynomial.Calculus
import TrigAlgebra.Proofs.ArithmeticFaults
import TrigAlgebra.Proofs.Numerals
import TrigAlgebra.Roots.Finding

namespace TrigAlgebra

/-- The computation fails for having met a polynomial in several variables. -/
def Refused {A : Type} (result : Except Fault A) : Prop :=
  ∃ operation, result = .error (.notUnivariate operation)

section

variable {A B : Type}

@[simp] theorem not_refused_ok {value : A} : ¬ Refused (.ok value) :=
  fun ⟨_, absurd⟩ => nomatch absurd

@[simp] theorem not_refused_pure {value : A} : ¬ Refused (pure value) :=
  not_refused_ok

@[simp] theorem refused_error {fault : Fault} :
    Refused (.error fault : Except Fault A) ↔ ∃ operation, fault = .notUnivariate operation := by
  unfold Refused
  simp only [Except.error.injEq]

@[simp] theorem refused_map {result : Except Fault A} {change : A → B} :
    Refused (result.map change) ↔ Refused result := by
  unfold Refused
  simp only [map_eq_error]

/-- A sequence is refused only if one of its parts is. -/
theorem not_refused_bind {result : Except Fault A} {next : A → Except Fault B}
    (first : ¬ Refused result) (later : ∀ value, ¬ Refused (next value)) :
    ¬ Refused (result >>= next) := by
  rintro ⟨operation, failed⟩
  rcases bind_eq_error.1 failed with absurd | ⟨value, -, absurd⟩
  · exact first ⟨operation, absurd⟩
  · exact later value ⟨operation, absurd⟩

/-- Arithmetic fails for other reasons. -/
theorem Arithmetical.not_refused {result : Except Fault A} (arithmetical : Arithmetical result) :
    ¬ Refused result :=
  fun ⟨_, failed⟩ => arithmetical _ failed

/-- No list of computations is refused if none of them is. -/
theorem not_refused_mapM {step : A → Except Fault B} {list : List A}
    (steps : ∀ part, ¬ Refused (step part)) : ¬ Refused (list.mapM step) := by
  rintro ⟨operation, failed⟩
  obtain ⟨part, -, absurd⟩ := mapM_eq_error failed
  exact steps part ⟨operation, absurd⟩

end

namespace DenseVector

/-- The root of a linear polynomial is a quotient of numbers. -/
theorem not_refused_linearRoot (vector : DenseVector) : ¬ Refused vector.linearRoot := by
  unfold linearRoot
  split
  case h_5 constant linear =>
    refine not_refused_bind (Number.arithmetical_div _ _).not_refused fun quotient => ?_
    exact not_refused_bind (Number.arithmetical_toComplex quotient).not_refused fun _ => not_refused_pure
  all_goals exact not_refused_ok

/-- The roots of a matrix can be missing, but not for the number of variables. -/
theorem not_refused_companionRoots (vector : DenseVector) : ¬ Refused vector.companionRoots := by
  have converted (numbers : List Number) : ¬ Refused (numbers.mapM Number.toComplex) :=
    (arithmetical_mapM fun number _ => number.arithmetical_toComplex).not_refused
  refine not_refused_bind (converted _) fun coefficients => ?_
  refine not_refused_bind ?_ fun rows => ?_
  · refine not_refused_bind ?_ fun rows => not_refused_mapM fun row => converted row
    apply refused_map.not.2
    unfold Companion.lastColumn
    split
    · exact not_refused_ok
    · exact not_refused_mapM fun coefficient => (Number.arithmetical_div _ _).not_refused
  · unfold eigenvalues
    split
    · split <;> exact not_refused_ok
    · simp

end DenseVector

namespace SimultaneousRoots

/-- A complex power only fails where it is too large or divides by zero. -/
theorem not_refused_complexPower (base : Float × Float) (exponent : Nat) :
    ¬ Refused (Number.complexPower base exponent) := by
  refine not_refused_bind (Number.arithmetical_floatOfInt _).not_refused fun rounded => ?_
  dsimp only
  split <;> split <;> simp

/-- The search for precise roots only ends without roots, or because there is no polynomial. -/
theorem not_refused_find (places : Int) (coefficients : List BigComplex) :
    ¬ Refused (find places coefficients) := by
  unfold find
  dsimp only
  split
  · simp
  · split <;> simp
  · refine not_refused_bind ?_ fun coefficients => not_refused_bind ?_ fun starts => ?_
    · unfold monic
      split
      · simp
      · split
        · exact not_refused_ok
        · split <;> exact not_refused_ok
    · exact not_refused_mapM fun exponent =>
        not_refused_bind (not_refused_complexPower _ _) fun _ => not_refused_pure
    · split <;> simp

end SimultaneousRoots

/-- Only the polynomial is asked for its flag, never the vector of its coefficients. -/
theorem DenseVector.not_refused_roots (precise : Bool) (vector : DenseVector) :
    ¬ Refused (vector.roots precise).outcome := by
  unfold DenseVector.roots
  dsimp only
  split
  · exact not_refused_ok
  · split
    · exact DenseVector.not_refused_linearRoot _
    · split
      · rw [Traced.outcome_bind]
        change ¬ Refused (preciseRoots none _)
        exact not_refused_bind (SimultaneousRoots.not_refused_find _ _) fun _ => not_refused_ok
      · rw [Traced.outcome_bind]
        exact DenseVector.not_refused_companionRoots _

namespace Polynomial

variable {polynomial : Polynomial Number}

/-- An operation that starts by asking for one variable is refused by the flag alone. -/
theorem refused_requireUnivariate {A : Type} {operation : String} {next : Unit → Except Fault A}
    (later : ¬ Refused (next ())) :
    Refused (polynomial.requireUnivariate operation >>= next) ↔ polynomial.univariate = false := by
  unfold requireUnivariate
  cases polynomial.univariate with
  | true => exact iff_of_false later Bool.noConfusion
  | false => exact iff_of_true ⟨operation, rfl⟩ rfl

/-- Merging only adds coefficients. -/
theorem not_refused_merge (monomials : List (Monomial Number)) : ¬ Refused (merge monomials) := by
  have absorbed (sum : List (Monomial Number)) (item : Monomial Number) : ¬ Refused (absorb sum item) := by
    induction sum with
    | nil => exact not_refused_ok
    | cons head rest hypothesis =>
        unfold absorb
        split
        · exact refused_map.not.2 (Number.arithmetical_add _ _).not_refused
        · exact refused_map.not.2 hypothesis
  have folded (sum : List (Monomial Number)) : ¬ Refused (monomials.foldlM absorb sum) := by
    induction monomials generalizing sum with
    | nil => exact not_refused_pure
    | cons head rest hypothesis => exact not_refused_bind (absorbed sum head) hypothesis
  exact folded []

theorem not_refused_ofMonomials (monomials : List (Monomial Number)) :
    ¬ Refused (ofMonomials monomials) :=
  refused_map.not.2 (not_refused_merge monomials)

/-- The coefficients are asked of polynomials with the flag only. -/
theorem refused_coefficients : Refused polynomial.coefficients ↔ polynomial.univariate = false := by
  unfold coefficients dense
  rw [refused_map, refused_map, ← bind_pure (polynomial.requireUnivariate _)]
  exact refused_requireUnivariate not_refused_pure

/-- A falling product only multiplies. -/
theorem not_refused_fallingProduct (coefficient : Number) (power order : Nat) :
    ¬ Refused (Monomial.fallingProduct coefficient power order) := by
  induction order generalizing coefficient power with
  | zero => exact not_refused_ok
  | succ order hypothesis =>
      exact not_refused_bind (Number.arithmetical_mul _ _).not_refused fun product => hypothesis product _

/-- The flag decides also where the order is below zero. -/
theorem refused_derivative {order : Int} :
    Refused (polynomial.derivative order) ↔ polynomial.univariate = false := by
  apply refused_requireUnivariate
  split
  · rw [refused_error, Fault.showing_singleton]
    rintro ⟨operation, same⟩
    split at same <;> cases same
  · split
    · exact not_refused_ok
    · refine not_refused_bind (not_refused_mapM fun item => ?_) fun _ => not_refused_ofMonomials _
      unfold Monomial.derivative?
      split
      · exact not_refused_ok
      · split
        · exact not_refused_ok
        · exact refused_map.not.2 (not_refused_fallingProduct _ _ _)

/-- The flag is asked before the coefficients are divided. -/
theorem refused_integral {constant : Number} :
    Refused (polynomial.integral constant) ↔ polynomial.univariate = false := by
  apply refused_requireUnivariate
  refine not_refused_bind (not_refused_mapM fun item => ?_) fun _ => not_refused_ofMonomials _
  unfold integralOf
  split
  · split
    · simp
    · exact not_refused_ok
  · exact refused_map.not.2 (Number.arithmetical_div _ _).not_refused

/-- Both ways to find roots begin with the coefficients. -/
theorem refused_roots {precise : Bool} :
    Refused (polynomial.roots precise).outcome ↔ polynomial.univariate = false := by
  have outcome : (polynomial.roots precise).outcome = (polynomial.requireUnivariate "roots").bind
      fun _ => polynomial.coefficients.bind fun vector => (vector.roots precise).outcome := by
    unfold roots
    simp only [Traced.outcome_bind]
    rfl
  rw [outcome]
  cases flag : polynomial.univariate with
  | false => exact iff_of_true ⟨"roots", by rw [requireUnivariate, flag]; rfl⟩ rfl
  | true =>
      refine iff_of_false ?_ Bool.noConfusion
      have known : ¬ Refused polynomial.coefficients := by
        rw [refused_coefficients, flag]
        exact Bool.noConfusion
      have admitted : polynomial.requireUnivariate "roots" = .ok () := by
        rw [requireUnivariate, flag]
        rfl
      rw [admitted]
      change ¬ Refused (polynomial.coefficients >>= fun vector => (vector.roots precise).outcome)
      exact not_refused_bind known fun vector => vector.not_refused_roots precise

end Polynomial

end TrigAlgebra
