/-
This file reads a product of powers as a vector of exponents: multiplying products adds the
vectors, and different products have different vectors.
-/

import Mathlib.Algebra.Group.InjSurj
import Mathlib.Data.Finsupp.Basic
import Mathlib.Data.Finsupp.Single
import Mathlib.Data.List.Sort
import TrigAlgebra.PowerProduct

namespace TrigAlgebra

/-- The exponents of a list of factors; factors of one variable add up. -/
noncomputable def exponentsOf (factors : List Factor) : Int →₀ Nat :=
  (factors.map fun factor => Finsupp.single factor.var factor.power).sum

@[simp] theorem exponentsOf_nil : exponentsOf [] = 0 := rfl

@[simp] theorem exponentsOf_cons (factor : Factor) (factors : List Factor) :
    exponentsOf (factor :: factors) =
      Finsupp.single factor.var factor.power + exponentsOf factors := rfl

/-- Sorting a factor in adds its power. -/
theorem exponentsOf_insertFactor (factor : Factor) (factors : List Factor) :
    exponentsOf (PowerProduct.insertFactor factor factors) =
      Finsupp.single factor.var factor.power + exponentsOf factors := by
  induction factors with
  | nil => rfl
  | cons head rest hypothesis =>
      simp only [PowerProduct.insertFactor]
      split
      · rfl
      · split
        · rename_i same
          rw [exponentsOf_cons, exponentsOf_cons, same, ← add_assoc, ← Finsupp.single_add,
            Nat.add_comm factor.power]
          rfl
        · rw [exponentsOf_cons, hypothesis, exponentsOf_cons, add_left_comm]

/-- A variable below all those of the factors has no exponent. -/
theorem exponentsOf_apply_of_lt {var : Int} {factors : List Factor}
    (below : ∀ factor ∈ factors, var < factor.var) : exponentsOf factors var = 0 := by
  induction factors with
  | nil => rfl
  | cons head rest hypothesis =>
      have different : head.var ≠ var := (below head List.mem_cons_self).ne'
      rw [exponentsOf_cons, Finsupp.add_apply, Finsupp.single_eq_of_ne' different, zero_add]
      exact hypothesis fun factor member => below factor (List.mem_cons_of_mem head member)

/-- The power of a variable is found at its single place, or is zero. -/
theorem exponentsOf_apply {factors : List Factor} (var : Int)
    (increasing : factors.Pairwise fun first second => first.var < second.var) :
    exponentsOf factors var = (factors.find? fun factor => factor.var == var).elim 0 Factor.power := by
  induction factors with
  | nil => rfl
  | cons head rest hypothesis =>
      rw [List.pairwise_cons] at increasing
      rw [exponentsOf_cons, Finsupp.add_apply, List.find?_cons]
      by_cases same : head.var = var
      · subst same
        rw [Finsupp.single_eq_same, exponentsOf_apply_of_lt increasing.1, add_zero, beq_self_eq_true]
        rfl
      · rw [Finsupp.single_eq_of_ne' same, zero_add, hypothesis increasing.2,
          beq_eq_false_iff_ne.2 same]

/-- The factors are the variables with their exponents. -/
theorem mem_iff_exponentsOf_apply {factors : List Factor} (factor : Factor)
    (increasing : factors.Pairwise fun first second => first.var < second.var) :
    factor ∈ factors ↔ exponentsOf factors factor.var = factor.power := by
  have positive := factor.positive
  induction factors with
  | nil =>
      rw [exponentsOf_nil, Finsupp.zero_apply]
      exact ⟨fun member => (List.not_mem_nil member).elim, fun zero => (positive.ne zero).elim⟩
  | cons head rest hypothesis =>
      rw [List.pairwise_cons] at increasing
      rw [List.mem_cons, exponentsOf_cons, Finsupp.add_apply]
      by_cases same : head.var = factor.var
      · have absent : factor ∉ rest := fun member => (increasing.1 factor member).ne same
        rw [same, Finsupp.single_eq_same, exponentsOf_apply_of_lt (same ▸ increasing.1), add_zero,
          or_iff_left absent]
        constructor
        · rintro rfl
          rfl
        · intro power
          cases factor
          cases head
          simp_all
      · have different : factor ≠ head := fun equal => same (equal ▸ rfl)
        rw [Finsupp.single_eq_of_ne' same, zero_add, or_iff_right different]
        exact hypothesis increasing.2

namespace PowerProduct

/-- The exponents of a product as a function with finite support. -/
noncomputable def exponents (product : PowerProduct) : Int →₀ Nat :=
  exponentsOf product.factors

@[simp] theorem exponents_one : exponents one = 0 := rfl

theorem exponents_linear (var : Int) : (ofFactor (.linear var)).exponents = Finsupp.single var 1 :=
  add_zero _

/-- One more factor adds its power. -/
theorem exponents_insert (factor : Factor) (product : PowerProduct) :
    (product.insert factor).exponents =
      Finsupp.single factor.var factor.power + product.exponents :=
  exponentsOf_insertFactor factor product.factors

theorem exponents_foldl_insert (factors : List Factor) (product : PowerProduct) :
    (factors.foldl (fun product factor => product.insert factor) product).exponents =
      product.exponents + exponentsOf factors := by
  induction factors generalizing product with
  | nil => exact (add_zero _).symm
  | cons head rest hypothesis =>
      rw [List.foldl_cons, hypothesis, exponents_insert, exponentsOf_cons,
        add_comm (Finsupp.single _ _), add_assoc]

/-- Merging factors adds powers of the same variable. -/
theorem exponents_ofFactors (factors : List Factor) :
    (ofFactors factors).exponents = exponentsOf factors := by
  rw [ofFactors, exponents_foldl_insert, exponents_one, zero_add]

/-- Multiplication adds exponents. -/
@[simp] theorem exponents_mul (first second : PowerProduct) :
    (first.mul second).exponents = first.exponents + second.exponents :=
  exponents_foldl_insert second.factors first

/-- The exponent of a variable is what is looked up for it. -/
theorem exponents_apply (product : PowerProduct) (var : Int) :
    product.exponents var = product.degreeOf var :=
  exponentsOf_apply var product.increasing

theorem degreeOf_mul (first second : PowerProduct) (var : Int) :
    (first.mul second).degreeOf var = first.degreeOf var + second.degreeOf var := by
  rw [← exponents_apply, exponents_mul, Finsupp.add_apply, exponents_apply, exponents_apply]

/-- Different products have different exponents. -/
theorem exponents_injective : Function.Injective exponents := by
  intro first second equal
  have members (factor : Factor) : factor ∈ first.factors ↔ factor ∈ second.factors := by
    rw [mem_iff_exponentsOf_apply factor first.increasing,
      mem_iff_exponentsOf_apply factor second.increasing]
    change first.exponents factor.var = _ ↔ second.exponents factor.var = _
    rw [equal]
  have nodup (product : PowerProduct) : product.factors.Nodup :=
    product.increasing.imp fun less same => less.ne (congrArg Factor.var same)
  have permuted := (List.perm_ext_iff_of_nodup (nodup first) (nodup second)).2 members
  have factors := permuted.eq_of_pairwise
    (fun left right _ _ less greater => (less.asymm greater).elim) first.increasing
    second.increasing
  cases first
  cases second
  congr

/-- Products with the same exponents are the same. -/
theorem degreeOf_injective {first second : PowerProduct}
    (equal : ∀ var, first.degreeOf var = second.degreeOf var) : first = second := by
  apply exponents_injective
  ext var
  rw [exponents_apply, exponents_apply, equal]

instance : CommMonoid PowerProduct where
  one := one
  mul := mul
  mul_assoc first second third := exponents_injective (by
    change ((first.mul second).mul third).exponents = (first.mul (second.mul third)).exponents
    simp only [exponents_mul, add_assoc])
  one_mul product := exponents_injective (by
    change (one.mul product).exponents = _
    rw [exponents_mul, exponents_one, zero_add])
  mul_one product := exponents_injective (by
    change (product.mul one).exponents = _
    rw [exponents_mul, exponents_one, add_zero])
  mul_comm first second := exponents_injective (by
    change (first.mul second).exponents = (second.mul first).exponents
    rw [exponents_mul, exponents_mul, add_comm])

end PowerProduct

end TrigAlgebra
