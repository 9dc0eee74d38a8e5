/-
This file proves that a number next to a polynomial acts like the constant polynomial of it: the
shorter paths for numbers neither merge the monomials nor compute the flag anew, and need not.
-/

import TrigAlgebra.Proofs.SessionReachable

namespace TrigAlgebra

namespace Polynomial

variable {K : Type} [Coefficient K] {polynomial : Polynomial K}

omit [Coefficient K] in
/-- Where the new monomials leave the polynomial settled, the old flag is the one to compute. -/
theorem exchange_of_settled {written : Except Fault (List (Monomial K))}
    (settled : ∀ new, written = .ok new → (⟨new, polynomial.univariate⟩ : Polynomial K).Settled) :
    (polynomial.exchange written).result = written.map fun new => ⟨new, isUnivariate new⟩ := by
  cases written with
  | error fault => rfl
  | ok new =>
      have flag : polynomial.univariate = isUnivariate new := (settled new rfl).flag
      change Except.ok (⟨new, polynomial.univariate⟩ : Polynomial K) = .ok ⟨new, isUnivariate new⟩
      rw [flag]

/-- Merging looks for a constant in the same place as the addition of a number. -/
theorem absorb_constant (scalar : K) (monomials : List (Monomial K)) :
    absorb monomials (.constant scalar) = addConstant scalar monomials := by
  induction monomials with
  | nil => rfl
  | cons head rest hypothesis =>
      have isConstant : head.isConstant = true ↔ head.powers = .one := PowerProduct.isOne_iff
      unfold absorb addConstant
      simp only [isConstant, hypothesis]
      rfl

/-- Monomials with distinct powers are merged already, so that only the constant is left to add. -/
theorem merge_append_constant {monomials : List (Monomial K)}
    (distinct : (powersOf monomials).Nodup) (scalar : K) :
    merge (monomials ++ [.constant scalar]) = addConstant scalar monomials := by
  have merged : monomials.foldlM absorb [] = .ok monomials := merge_of_nodup distinct
  rw [merge, List.foldlM_append, merged, ← absorb_constant]
  change absorb monomials (.constant scalar) >>= pure = _
  rw [bind_pure]

/-- A constant factor scales, since it has no variable to join. -/
theorem products_constant (monomials : List (Monomial K)) (scalar : K) :
    products monomials [.constant scalar] = monomials.mapM fun item => item.scaled scalar := by
  have pairs : (monomials.flatMap fun left => [Monomial.constant scalar].map fun right => (left, right)) =
      monomials.map fun left => (left, Monomial.constant scalar) := (List.map_eq_flatMap).symm
  rw [products, pairs, List.mapM_map]
  rfl

theorem addScalar_eq_add (settled : polynomial.Settled) (scalar : K) :
    polynomial.addScalar scalar = polynomial.add (.constant scalar) := by
  have kept (new : List (Monomial K)) (returned : addConstant scalar polynomial.monomials = .ok new) :
      (⟨new, polynomial.univariate⟩ : Polynomial K).Settled :=
    settled_addScalar settled (exchange_eq_ok.2 ⟨new, returned, rfl⟩)
  calc polynomial.addScalar scalar
      = (addConstant scalar polynomial.monomials).map fun new => ⟨new, isUnivariate new⟩ :=
        exchange_of_settled kept
    _ = ofMonomials (polynomial.monomials ++ [.constant scalar]) := by
        rw [ofMonomials, merge_append_constant settled.distinct]
    _ = polynomial.add (.constant scalar) := (result_mergeFrom _ _).symm

theorem subScalar_eq_sub (settled : polynomial.Settled) (scalar : K) :
    polynomial.subScalar scalar = polynomial.sub (.constant scalar) :=
  addScalar_eq_add settled (Coefficient.neg scalar)

theorem scale_eq_mul (settled : polynomial.Settled) (scalar : K) :
    polynomial.scale scalar = polynomial.mul (.constant scalar) := by
  obtain ⟨written, isWritten⟩ : ∃ written : Except Fault (List (Monomial K)),
      (polynomial.monomials.mapM fun item => item.scaled scalar) = written := ⟨_, rfl⟩
  have kept (new : List (Monomial K)) (returned : written = .ok new) :
      (⟨new, polynomial.univariate⟩ : Polynomial K).Settled :=
    settled_scale settled (exchange_eq_ok.2 ⟨new, isWritten.trans returned, rfl⟩)
  calc polynomial.scale scalar
      = written.map fun new => ⟨new, isUnivariate new⟩ := by
        rw [← exchange_of_settled kept, ← isWritten]
        rfl
    _ = written >>= ofMonomials := by
        cases written with
        | error fault => rfl
        | ok new => exact (ofMonomials_of_nodup (kept new rfl).distinct).symm
    _ = polynomial.mul (.constant scalar) := by
        rw [← isWritten, ← products_constant, mul_eq_bind]
        rfl

end Polynomial

namespace Session

/-- The operators of arithmetic are the operations in place on a copy. -/
theorem operate_operand {operator : Operator} (arithmetic : isArithmetic operator = true)
    {polynomial : Numeric} {view : View} {operand : Operand} (isOperand : view.operand? = some operand) :
    operate operator false (.polynomial polynomial) view =
      (operand.edit operator polynomial).result.map Product.polynomial := by
  have copied : operate operator false (.polynomial polynomial) view =
      ((operand.edit operator polynomial).map Content.polynomial).result.map Product.content := by
    rcases operand?_eq_some.1 isOperand with ⟨value, rfl, rfl⟩ | ⟨content, rfl, rfl⟩ <;>
      cases operator <;> first | rfl | cases arithmetic
  rw [copied, Edit.result_map]
  cases (operand.edit operator polynomial).result <;> rfl

theorem result_edit_number {operator : Operator} (arithmetic : isArithmetic operator = true)
    {polynomial : Numeric} (settled : polynomial.Settled) (scalar : Number) :
    ((Operand.number scalar).edit operator polynomial).result =
      ((Operand.polynomial (.constant scalar)).edit operator polynomial).result := by
  cases operator with
  | add => exact Polynomial.addScalar_eq_add settled scalar
  | subtract => exact Polynomial.subScalar_eq_sub settled scalar
  | multiply => exact Polynomial.scale_eq_mul settled scalar
  | _ => cases arithmetic

/-- As long as every step of a run returns, a polynomial that the run reaches gives the same sum,
difference and product with a number as with the constant polynomial of the number, monomial by
monomial and with the same flag, or fails with both in the same way. -/
theorem run_numbers_as_constants (steps : List Step)
    (returned : ∀ outcome ∈ run {} steps, ∃ value, outcome.answer = .ok value) :
    ∀ outcome ∈ run {} steps, ∀ content ∈ outcome.session.objects,
      ∀ operator, isArithmetic operator = true → ∀ scalar,
        operate operator false (.polynomial content.underlying) (.number scalar) =
          operate operator false (.polynomial content.underlying) (.polynomial (.constant scalar)) := by
  intro outcome member content isContent operator arithmetic scalar
  have reachable := reachable_run reachable_empty returned outcome member content isContent
  rw [operate_operand arithmetic rfl, operate_operand arithmetic rfl,
    result_edit_number arithmetic reachable.settled]

/-- A constant before the last monomial, and a variable that is the integer for none. -/
def shiftedSum : List Step :=
  [⟨.ofVariable 2 (some (.literal (.number (.integer 3)))), some "sum"⟩,
    ⟨.update .add (.register "sum") (.literal (.number (.integer 5))), none⟩,
    ⟨.ofVariable noVariable none, some "unnamed"⟩,
    ⟨.update .add (.register "sum") (.register "unnamed"), none⟩,
    ⟨.rename (.register "sum") 2 4, none⟩,
    ⟨.operate .power (.register "sum") (.literal (.number (.integer 2))), some "square"⟩]

theorem run_numbers_as_constants_shiftedSum :
    ((run {} shiftedSum).map fun outcome => outcome.session.objects.length) = [1, 1, 2, 2, 2, 3] ∧
    (∀ outcome ∈ run {} shiftedSum, ∃ value, outcome.answer = .ok value) ∧
      ∀ outcome ∈ run {} shiftedSum, ∀ content ∈ outcome.session.objects,
        ∀ operator, isArithmetic operator = true → ∀ scalar,
          operate operator false (.polynomial content.underlying) (.number scalar) =
            operate operator false (.polynomial content.underlying) (.polynomial (.constant scalar)) := by
  have returned : ∀ outcome ∈ run {} shiftedSum, ∃ value, outcome.answer = .ok value := by
    decide +kernel
  exact ⟨by decide +kernel, returned, run_numbers_as_constants shiftedSum returned⟩

end Session

end TrigAlgebra
