/-
This file describes polynomials in one variable: all products are powers of it, known by their
exponents, the walk over the monomials flags them, and sums and products are polynomials in it again.
-/

import TrigAlgebra.Proofs.Reachable

namespace TrigAlgebra

namespace PowerProduct

/-- A power has one exponent. -/
theorem exponents_power (var : Int) (exponent : Nat) :
    (power var exponent).exponents = Finsupp.single var exponent := by
  unfold power
  split
  · exact add_zero _
  · rename_i zero
    rw [exponents_one, Nat.eq_zero_of_not_pos zero, Finsupp.single_zero]

/-- Exponents of powers are added. -/
theorem power_mul (var : Int) (first second : Nat) :
    (power var first).mul (power var second) = power var (first + second) := by
  apply exponents_injective
  rw [exponents_mul, exponents_power, exponents_power, exponents_power, Finsupp.single_add]

/-- A factor is a power. -/
theorem ofFactor_eq_power (factor : Factor) : ofFactor factor = power factor.var factor.power := by
  unfold power
  rw [dif_pos factor.positive]

theorem power_succ (var : Int) (exponent : Nat) :
    power var (exponent + 1) = (power var exponent).mul (.ofFactor (.linear var)) :=
  (power_mul var exponent 1).symm

/-- A power has no other variable. -/
theorem degreeOf_power (var : Int) (exponent : Nat) (other : Int) :
    (power var exponent).degreeOf other = if var = other then exponent else 0 := by
  rw [← exponents_apply, exponents_power, Finsupp.single_apply]

@[simp] theorem degreeOf_power_self (var : Int) (exponent : Nat) :
    (power var exponent).degreeOf var = exponent := by
  rw [degreeOf_power, if_pos rfl]

@[simp] theorem leadingPower_power (var : Int) (exponent : Nat) :
    (power var exponent).leadingPower = exponent := by
  unfold power
  split
  · rfl
  · rename_i zero
    exact (Nat.eq_zero_of_not_pos zero).symm

/-- Powers are known by their exponents. -/
theorem power_injective (var : Int) : Function.Injective (power var) :=
  Function.LeftInverse.injective (leadingPower_power var)

/-- The power of exponent zero is one. -/
theorem isOne_power (var : Int) (exponent : Nat) :
    (power var exponent).isOne = true ↔ exponent = 0 := by
  rw [isOne_iff]
  exact (power_injective var).eq_iff (b := 0)

/-- A product in which only one variable occurs is a power of it. -/
theorem eq_power {product : PowerProduct} {single : Int}
    (only : ∀ var, product.Has var → var = single) : product = .power single product.leadingPower := by
  cases shape : product.factors with
  | nil =>
      have one : product = .one := isOne_iff.1 (List.isEmpty_iff.2 shape)
      rw [one]
      rfl
  | cons first others =>
      cases others with
      | nil =>
          have same : first.var = single := only _ ((has_of_factors_singleton shape _).2 rfl)
          obtain ⟨factors, increasing⟩ := product
          cases shape
          subst same
          exact ofFactor_eq_power first
      | cons second others =>
          obtain ⟨hasFirst, hasSecond, different⟩ := has_of_factors_cons_cons shape
          exact (different ((only _ hasFirst).trans (only _ hasSecond).symm)).elim

end PowerProduct

/-- A monomial whose product is a power of the variable, written out. -/
theorem Monomial.exists_power {K : Type} {single : Int} {item : Monomial K}
    (powers : item.powers = .power single item.powers.leadingPower) :
    ∃ coefficient exponent, item = ⟨coefficient, .power single exponent⟩ :=
  ⟨item.coefficient, item.powers.leadingPower, congrArg (Monomial.mk item.coefficient) powers⟩

namespace Polynomial

variable {K : Type} {polynomial : Polynomial K} {single : Int}

/-- Every monomial is a power of the variable. -/
def InVariable (single : Int) (polynomial : Polynomial K) : Prop :=
  ∀ item ∈ polynomial.monomials, item.powers = .power single item.powers.leadingPower

/-- Products of one variable are its powers. -/
theorem inVariable_iff : polynomial.InVariable single ↔
    ∀ powers ∈ powersOf polynomial.monomials, powers = .power single powers.leadingPower := by
  rw [powersOf, List.forall_mem_map]
  rfl

/-- A polynomial whose only variable it is. -/
theorem inVariable_of_vars (only : ∀ var ∈ polynomial.vars, var = single) :
    polynomial.InVariable single :=
  fun item member => PowerProduct.eq_power fun var has =>
    only var (mem_vars.2 (occurs_powersOf.2 ⟨item, member, has⟩))

/-- The flag of a well-formed polynomial promises one variable for all monomials. -/
theorem exists_inVariable (wellFormed : polynomial.WellFormed) (univariate : polynomial.univariate = true) :
    ∃ single, polynomial.InVariable single := by
  obtain ⟨single, only⟩ := univariate_iff.1 (wellFormed.flagged.1 univariate)
  exact ⟨single, inVariable_of_vars fun var member => only var (mem_vars.1 member)⟩

/-- Monomials with distinct powers of one variable have distinct exponents. -/
theorem nodup_leadingPowers (distinct : polynomial.Distinct)
    (powers : polynomial.InVariable single) :
    (polynomial.monomials.map fun item => item.powers.leadingPower).Nodup := by
  have written : powersOf polynomial.monomials =
      (polynomial.monomials.map fun item => item.powers.leadingPower).map (PowerProduct.power single) := by
    rw [List.map_map]
    exact List.map_congr_left powers
  have nodup := distinct
  unfold Distinct at nodup
  rw [written] at nodup
  exact nodup.of_map _

/-- The walk meets the same variable at every monomial, whatever integer it is. -/
theorem singleVariable_of_powers {monomials : List (Monomial K)} {seen : Int}
    (powers : ∀ item ∈ monomials, item.powers = .power single item.powers.leadingPower)
    (before : seen = noVariable ∨ seen = single) : singleVariable seen monomials = true := by
  induction monomials generalizing seen with
  | nil => rfl
  | cons head rest hypothesis =>
      rw [List.forall_mem_cons] at powers
      rw [singleVariable, powers.1]
      cases head.powers.leadingPower with
      | zero => exact hypothesis powers.2 before
      | succ exponent =>
          change (if seen = noVariable then singleVariable single rest
            else if single = seen then singleVariable seen rest else false) = true
          split
          · exact hypothesis powers.2 (.inr rfl)
          · rename_i used
            rw [if_pos (before.resolve_left used).symm]
            exact hypothesis powers.2 before

theorem isUnivariate_of_inVariable (powers : polynomial.InVariable single) :
    isUnivariate polynomial.monomials = true :=
  singleVariable_of_powers powers (.inl rfl)

theorem InVariable.leadingPower_eq (powers : polynomial.InVariable single) {item : Monomial K}
    (member : item ∈ polynomial.monomials) : item.powers.leadingPower = item.degreeOf single := by
  rw [Monomial.degreeOf, powers item member, PowerProduct.degreeOf_power_self,
    PowerProduct.leadingPower_power]

theorem InVariable.var_eq (powers : polynomial.InVariable single) {var : Int}
    (member : var ∈ polynomial.vars) : var = single := by
  obtain ⟨item, isItem, has⟩ := occurs_powersOf.1 (mem_vars.1 member)
  rw [powers item isItem] at has
  exact (has_power has).symm

/-- The polynomial is merged, and all its monomials are powers of the variable, as flagged. -/
structure OneVariable (single : Int) (polynomial : Polynomial K) : Prop where
  distinct : polynomial.Distinct
  powers : polynomial.InVariable single
  flagged : polynomial.univariate = true

/-- Powers of the variable with distinct exponents make up a polynomial in it. -/
theorem OneVariable.of_exponents {monomials : List (Monomial K)} {exponents : List Nat}
    (written : powersOf monomials = exponents.map (PowerProduct.power single))
    (distinct : exponents.Nodup) : (⟨monomials, true⟩ : Polynomial K).OneVariable single := by
  refine ⟨?_, inVariable_iff.2 fun product member => ?_, rfl⟩
  · change (powersOf monomials).Nodup
    rw [written]
    exact distinct.map (PowerProduct.power_injective single)
  · change product ∈ powersOf monomials at member
    rw [written] at member
    obtain ⟨exponent, -, rfl⟩ := List.mem_map.1 member
    rw [PowerProduct.leadingPower_power]

section Arithmetic

variable [Coefficient K] {first second result : Polynomial K}

theorem exists_oneVariable (reachable : polynomial.Reachable) (named : noVariable ∉ polynomial.vars)
    (univariate : polynomial.univariate = true) : ∃ single, polynomial.OneVariable single := by
  have wellFormed := reachable.settled.wellFormed fun occurs => named (mem_vars.2 occurs)
  obtain ⟨single, powers⟩ := exists_inVariable wellFormed univariate
  exact ⟨single, wellFormed.distinct, powers, univariate⟩

/-- A list of distinct powers of one variable is merged already. -/
theorem OneVariable.ofMonomials_eq {monomials : List (Monomial K)}
    (oneVariable : (⟨monomials, true⟩ : Polynomial K).OneVariable single) :
    ofMonomials monomials = .ok ⟨monomials, true⟩ := by
  have flag : isUnivariate monomials = true := isUnivariate_of_inVariable oneVariable.powers
  rw [ofMonomials_of_nodup oneVariable.distinct, flag]

/-- Merged powers of one variable are powers of it, and the walk over them flags them. -/
theorem oneVariable_of_merge {monomials : List (Monomial K)}
    (powers : ∀ product ∈ powersOf monomials, product = .power single product.leadingPower)
    (merged : merge monomials = .ok result.monomials)
    (flag : result.univariate = isUnivariate result.monomials) : result.OneVariable single := by
  have inVariable : result.InVariable single :=
    inVariable_iff.2 fun product member => powers product ((mem_powersOf_merge merged).1 member)
  exact ⟨nodup_merge merged, inVariable, flag.trans (isUnivariate_of_inVariable inVariable)⟩

theorem OneVariable.add (firstOne : first.OneVariable single) (secondOne : second.OneVariable single)
    (returned : first.add second = .ok result) : result.OneVariable single := by
  obtain ⟨merged, flag⟩ := mergeFrom_eq_ok.1 returned
  refine oneVariable_of_merge ?_ merged flag
  rw [powersOf, List.map_append, List.forall_mem_append]
  exact ⟨inVariable_iff.1 firstOne.powers, inVariable_iff.1 secondOne.powers⟩

theorem OneVariable.mul (firstOne : first.OneVariable single) (secondOne : second.OneVariable single)
    (returned : first.mul second = .ok result) : result.OneVariable single := by
  obtain ⟨monomials, written, merged, flag⟩ := mul_eq_ok.1 returned
  refine oneVariable_of_merge ?_ merged flag
  intro product member
  obtain ⟨left, isLeft, right, isRight, rfl⟩ := (mem_powersOf_products written).1 member
  rw [inVariable_iff.1 firstOne.powers left isLeft, inVariable_iff.1 secondOne.powers right isRight,
    PowerProduct.power_mul, PowerProduct.leadingPower_power]

end Arithmetic

end Polynomial

end TrigAlgebra
