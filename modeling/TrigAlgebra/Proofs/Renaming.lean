/-
This file proves that a renamed variable takes the value of its new name, and that a renaming to a
variable that does not occur can be undone.
-/

import Mathlib.Algebra.MvPolynomial.Rename
import TrigAlgebra.Proofs.Reachable
import TrigAlgebra.Proofs.StagedEvaluation

namespace TrigAlgebra

open MvPolynomial

/-- The variable that another one becomes. -/
def renamed (old new var : Int) : Int := if var = old then new else var

theorem renamed_of_ne {old new var : Int} (different : var ≠ old) : renamed old new var = var :=
  if_neg different

/-- A variable that differs from the new one is found again. -/
theorem renamed_renamed {old new var : Int} (different : var ≠ new) :
    renamed new old (renamed old new var) = var := by
  by_cases same : var = old
  · rw [renamed, renamed, if_pos same, if_pos rfl, same]
  · rw [renamed_of_ne same, renamed_of_ne different]

namespace PowerProduct

variable {old new : Int}

theorem exponentsOf_rename (factors : List Factor) :
    exponentsOf (factors.map (Factor.rename old new)) =
      (exponentsOf factors).mapDomain (renamed old new) := by
  induction factors with
  | nil => exact Finsupp.mapDomain_zero.symm
  | cons head rest hypothesis =>
      rw [List.map_cons, exponentsOf_cons, hypothesis, exponentsOf_cons, Finsupp.mapDomain_add,
        Finsupp.mapDomain_single]
      rfl

/-- Powers of variables that become the same add up. -/
theorem exponents_rename (product : PowerProduct) :
    (product.rename old new).exponents = product.exponents.mapDomain (renamed old new) := by
  rw [rename, exponents_ofFactors, exponentsOf_rename]
  rfl

theorem rename_rename {product : PowerProduct} (fresh : ¬ product.Has new) :
    (product.rename old new).rename new old = product := by
  apply exponents_injective
  rw [exponents_rename, exponents_rename, ← Finsupp.mapDomain_comp]
  have identity : ∀ var ∈ product.exponents.support,
      (renamed new old ∘ renamed old new) var = id var := by
    intro var member
    have has : product.Has var := has_iff_exponents.2 (Finsupp.mem_support_iff.1 member)
    exact renamed_renamed fun same => fresh (same ▸ has)
  rw [Finsupp.mapDomain_congr identity, Finsupp.mapDomain_id]

end PowerProduct

namespace Assignment

variable {values : Assignment Int} {old new value : Int}

/-- The old name gets the value of the new one. -/
theorem set_eq_of_known (known : values new = some value) (var : Int) :
    values.set old value var = values (renamed old new var) := by
  unfold set renamed
  by_cases same : var = old
  · rw [if_pos same, if_pos same, known]
  · rw [if_neg same, if_neg same]

theorem substitution_rename (known : values new = some value) (form : MvPolynomial Int Int) :
    values.substitution (rename (renamed old new) form) =
      (values.set old value).substitution form := by
  have images (var : Int) : values.image (renamed old new var) = (values.set old value).image var := by
    unfold image
    rw [set_eq_of_known known]
    by_cases same : var = old
    · rw [renamed, if_pos same, known]
      rfl
    · rw [renamed_of_ne same]
  unfold substitution
  rw [bind₁_rename]
  exact congrArg (bind₁ · form) (funext images)

theorem rename_of_isNone {factor : Factor}
    (unknown : (values.set old value factor.var).isNone = true) : factor.rename old new = factor := by
  have different : factor.var ≠ old := by
    intro same
    rw [set, if_pos same] at unknown
    cases unknown
  rw [Factor.rename, if_neg different]

/-- A factor that stays has no value under its new name either, so it was not renamed. -/
theorem filter_map_rename (known : values new = some value) (factors : List Factor) :
    (factors.map (Factor.rename old new)).filter (fun factor => (values factor.var).isNone) =
      factors.filter fun factor => (values.set old value factor.var).isNone := by
  have kept (factor : Factor) :
      (values (factor.rename old new).var).isNone = (values.set old value factor.var).isNone := by
    rw [set_eq_of_known known]
    rfl
  rw [List.filter_map]
  simp only [Function.comp_def, kept]
  refine (List.map_congr_left fun factor member => ?_).trans (List.map_id _)
  exact rename_of_isNone (List.mem_filter.1 member).2

theorem remaining_rename (known : values new = some value) (product : PowerProduct) :
    values.remaining (product.rename old new) = (values.set old value).remaining product := by
  have exponents (factors : List Factor) : (exponentsOf factors).filter
      (fun var => (values var).isNone = true) =
        exponentsOf (factors.filter fun factor => (values factor.var).isNone) :=
    (exponentsOf_filter (fun var => (values var).isNone) factors).symm
  apply PowerProduct.exponents_injective
  calc (values.remaining (product.rename old new)).exponents
      = (product.rename old new).exponents.filter fun var => (values var).isNone = true :=
        (exponents _).symm
    _ = (exponentsOf (product.factors.map (Factor.rename old new))).filter
          fun var => (values var).isNone = true := by
        rw [PowerProduct.rename, PowerProduct.exponents_ofFactors]
    _ = exponentsOf (product.factors.filter
          fun factor => (values.set old value factor.var).isNone) := by
        rw [exponents, filter_map_rename known]

end Assignment

namespace Polynomial

variable {old new : Int}

theorem powersOf_rename {K : Type} (monomials : List (Monomial K)) :
    powersOf (monomials.map (Monomial.rename old new)) =
      (powersOf monomials).map (PowerProduct.rename old new) := by
  unfold powersOf
  rw [List.map_map, List.map_map]
  rfl

/-- Renaming returns the renamed polynomial, with its products in the order of first occurrence. -/
theorem exists_rename (old new : Int) {polynomial : Polynomial Number} (integral : polynomial.Integral) :
    ∃ result, polynomial.rename old new = .ok result ∧ result.Integral ∧
      result.formal = MvPolynomial.rename (renamed old new) polynomial.formal ∧
      powersOf result.monomials =
        ((powersOf polynomial.monomials).map (PowerProduct.rename old new)).foldl appendNew [] := by
  have covered : Reading.integers.Covers (polynomial.monomials.map (Monomial.rename old new)) := by
    intro item member
    obtain ⟨original, isOriginal, rfl⟩ := List.mem_map.1 member
    exact integral.integers original isOriginal
  have form : Reading.integers.formal (polynomial.monomials.map (Monomial.rename old new)) =
      MvPolynomial.rename (renamed old new) polynomial.formal := by
    rw [formal, Reading.formal, Reading.formal, map_list_sum, List.map_map, List.map_map]
    congr 1
    refine List.map_congr_left fun item _ => ?_
    rw [Function.comp_apply, Function.comp_apply, Reading.term, Reading.term, rename_monomial,
      ← PowerProduct.exponents_rename]
    rfl
  obtain ⟨result, returned, integers, resultForm⟩ := Reading.returns_mergeFrom polynomial covered
  obtain ⟨merged, -⟩ := mergeFrom_eq_ok.1 returned
  refine ⟨result, returned, ⟨integers, nodup_merge merged⟩, resultForm.trans form, ?_⟩
  rw [powersOf_merge merged, powersOf_rename]

/-- Evaluating after a renaming writes what evaluating with the value of the new name writes. -/
theorem evaluatePartial_rename (old : Int) {polynomial : Polynomial Number}
    {values : Assignment Int} {value : Int} (integral : polynomial.Integral) (known : values new = some value) :
    (do (← polynomial.rename old new).evaluatePartial values.integers) =
      polynomial.evaluatePartial (values.set old value).integers := by
  obtain ⟨halfway, firstCase, halfwayIntegral, halfwayForm, halfwayPowers⟩ :=
    exists_rename old new integral
  obtain ⟨staged, secondCase, stagedIntegral, stagedForm, stagedPowers, stagedFlag⟩ :=
    exists_evaluatePartial values halfwayIntegral
  obtain ⟨result, returned, resultIntegral, form, powers, flag⟩ :=
    exists_evaluatePartial (values.set old value) integral
  have order : powersOf staged.monomials = powersOf result.monomials := by
    rw [stagedPowers, halfwayPowers, foldl_appendNew_map, List.map_map, powers]
    congr 2
    exact funext fun product => Assignment.remaining_rename known product
  have forms : staged.formal = result.formal := by
    rw [stagedForm, halfwayForm, Assignment.substitution_rename known, form]
  have monomials := eq_of_formal_eq stagedIntegral resultIntegral order forms
  have same := eq_of_monomials_eq monomials stagedFlag flag
  rw [returned, ← same]
  exact bind_eq_ok.2 ⟨halfway, firstCase, secondCase⟩

variable {K : Type} {polynomial : Polynomial K}

theorem rename_rename_monomials (old : Int) (fresh : new ∉ polynomial.vars) :
    (polynomial.monomials.map (Monomial.rename old new)).map (Monomial.rename new old) =
      polynomial.monomials := by
  rw [List.map_map]
  refine (List.map_congr_left fun item member => ?_).trans (List.map_id _)
  have absent : ¬ item.powers.Has new := fun has =>
    fresh (mem_vars.2 (occurs_powersOf.2 ⟨item, member, has⟩))
  exact congrArg (Monomial.mk item.coefficient) (PowerProduct.rename_rename absent)

/-- A fresh name keeps different products apart. -/
theorem nodup_rename (distinct : polynomial.Distinct) (fresh : new ∉ polynomial.vars) :
    (powersOf (polynomial.monomials.map (Monomial.rename old new))).Nodup := by
  have back := congrArg powersOf (rename_rename_monomials old fresh)
  rw [powersOf_rename] at back
  refine List.Nodup.of_map (PowerProduct.rename new old) ?_
  rw [back]
  exact distinct

theorem rename_rename [Coefficient K] (settled : polynomial.Settled) (fresh : new ∉ polynomial.vars) :
    (do (← polynomial.rename old new).rename new old) = .ok polynomial := by
  have there : polynomial.rename old new = .ok ⟨_, _⟩ :=
    (result_mergeFrom _ _).trans (ofMonomials_of_nodup (nodup_rename settled.distinct fresh))
  rw [there]
  change ((mergeFrom _ _).result : Except Fault (Polynomial K)) = _
  rw [result_mergeFrom, rename_rename_monomials old fresh, ofMonomials_of_nodup settled.distinct,
    ← settled.flag]

/-- A renamed variable takes the value of its new name, also where both names occur in one monomial;
and a renaming to a variable that does not occur is undone by the opposite one. -/
theorem renamed_variable (old new : Int) :
    (∀ (polynomial : Polynomial Number) (values : Assignment Int) (value : Int),
      polynomial.Integral → values new = some value →
      Agree (do (← polynomial.rename old new).evaluatePartial values.integers)
          (polynomial.evaluatePartial (values.set old value).integers) ∧
        (do (← polynomial.rename old new).evaluatePartial values.integers) =
          polynomial.evaluatePartial (values.set old value).integers) ∧
    (∀ polynomial : Polynomial Number, polynomial.Reachable → new ∉ polynomial.vars →
      (do (← polynomial.rename old new).rename new old) = .ok polynomial) := by
  constructor
  · intro polynomial values value integral known
    have equal := evaluatePartial_rename old integral known
    have represents := represents_evaluatePartial (values.set old value) integral
    refine ⟨?_, equal⟩
    rw [equal]
    exact represents.agree represents rfl rfl
  · intro polynomial reachable fresh
    exact rename_rename reachable.settled fresh

/-- Under one name the two products are the same cube. -/
def mixedCubes : Polynomial Number :=
  ⟨[⟨.integer 3, .ofFactors [.linear 2, ⟨4, 2, Nat.two_pos⟩]⟩, ⟨.integer (-3), .power 4 3⟩], false⟩

/-- The cubes cancel and leave a zero; under a name of its own the first variable moves behind the
second one and back. -/
theorem renamed_variable_mixedCubes :
    let values : Assignment Int := Assignment.empty.set 4 5
    mixedCubes.Integral ∧ values 4 = some 5 ∧
      (do (← mixedCubes.rename 2 4).evaluatePartial values.integers) =
        .ok (constant (.integer 0)) ∧
      mixedCubes.Reachable ∧ 6 ∉ mixedCubes.vars ∧
      (do (← mixedCubes.rename 2 6).rename 6 2) = .ok mixedCubes := by
  intro values
  have integral : mixedCubes.Integral := by
    constructor
    · intro item member
      rcases List.mem_pair.1 member with rfl | rfl
      · exact ⟨3, rfl⟩
      · exact ⟨-3, rfl⟩
    · change (powersOf mixedCubes.monomials).Nodup
      decide
  have merged : ofMonomials mixedCubes.monomials = .ok mixedCubes := rfl
  have fresh : 6 ∉ mixedCubes.vars := by decide
  refine ⟨integral, rfl, ?_, .ofMonomials merged, fresh,
    (renamed_variable 2 6).2 mixedCubes (.ofMonomials merged) fresh⟩
  exact ((renamed_variable 2 4).1 mixedCubes values 5 integral rfl).2.trans rfl

end Polynomial

end TrigAlgebra
