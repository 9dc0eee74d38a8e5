/-
This file says which variables occur in products of powers, in lists of them and in polynomials.
-/

import TrigAlgebra.Proofs.Exponents
import TrigAlgebra.Proofs.Letters
import TrigAlgebra.Proofs.Merging

namespace TrigAlgebra

namespace NamingTable

/-- A packed name is never the integer that stands for no variable. -/
theorem encode_ne {name : String} {index var : Int}
    (returned : encode {} name index = .ok var) : var ≠ noVariable := by
  unfold encode at returned
  dsimp only at returned
  split at returned
  · cases returned
  · rename_i valid
    split at returned
    · cases returned
    · split at returned
      · cases returned
      · rename_i natural
        split at returned
        · cases returned
        · have some : name.toList ≠ [] := by
            intro none
            rw [isName, none] at valid
            exact valid rfl
          have positive : 0 < namePart {} name.toList := namePart_pos some
          cases returned
          unfold noVariable
          have others : 0 ≤ (maxNamePart {} : Int) * (index - 1) :=
            Int.mul_nonneg (Int.natCast_nonneg _) (by omega)
          omega

end NamingTable

namespace PowerProduct

/-- The variable occurs in the product. -/
def Has (product : PowerProduct) (var : Int) : Prop :=
  ∃ factor ∈ product.factors, factor.var = var

theorem mem_vars {product : PowerProduct} {var : Int} : var ∈ product.vars ↔ product.Has var :=
  List.mem_map

/-- A variable occurs if it has an exponent. -/
theorem has_iff_exponents {product : PowerProduct} {var : Int} :
    product.Has var ↔ product.exponents var ≠ 0 := by
  constructor
  · rintro ⟨factor, member, rfl⟩
    have power := (mem_iff_exponentsOf_apply factor product.increasing).1 member
    change product.exponents factor.var = _ at power
    rw [power]
    exact factor.positive.ne'
  · intro positive
    refine ⟨⟨var, product.exponents var, Nat.pos_of_ne_zero positive⟩, ?_, rfl⟩
    rw [mem_iff_exponentsOf_apply _ product.increasing]
    rfl

theorem not_has_of_factors_nil {product : PowerProduct} (factors : product.factors = [])
    (var : Int) : ¬ product.Has var := by
  rintro ⟨factor, member, -⟩
  rw [factors] at member
  exact List.not_mem_nil member

/-- A single factor has a single variable. -/
theorem has_of_factors_singleton {product : PowerProduct} {factor : Factor}
    (factors : product.factors = [factor]) (var : Int) : product.Has var ↔ var = factor.var := by
  unfold Has
  simp only [factors, List.mem_singleton, exists_eq_left]
  exact eq_comm

/-- The order of the factors keeps the variables of any two of them apart. -/
theorem has_of_factors_cons_cons {product : PowerProduct} {first second : Factor}
    {others : List Factor} (factors : product.factors = first :: second :: others) :
    product.Has first.var ∧ product.Has second.var ∧ first.var ≠ second.var := by
  have increasing := product.increasing
  rw [factors, List.pairwise_cons] at increasing
  refine ⟨⟨first, ?_, rfl⟩, ⟨second, ?_, rfl⟩, (increasing.1 second List.mem_cons_self).ne⟩
  · rw [factors]
    exact List.mem_cons_self
  · rw [factors]
    exact List.mem_cons_of_mem first List.mem_cons_self

/-- Only one product is without factors. -/
theorem isOne_iff {product : PowerProduct} : product.isOne = true ↔ product = one := by
  rw [isOne, List.isEmpty_iff]
  constructor
  · intro factors
    cases product
    cases factors
    rfl
  · rintro rfl
    rfl

@[simp] theorem not_has_one {var : Int} : ¬ one.Has var :=
  not_has_of_factors_nil rfl var

@[simp] theorem has_ofFactor {factor : Factor} {var : Int} :
    (ofFactor factor).Has var ↔ factor.var = var := by
  constructor
  · rintro ⟨other, member, same⟩
    rw [List.mem_singleton.1 member] at same
    exact same
  · exact fun same => ⟨factor, List.mem_singleton_self factor, same⟩

/-- Products have the variables of both factors. -/
theorem has_mul {first second : PowerProduct} {var : Int} :
    (first.mul second).Has var ↔ first.Has var ∨ second.Has var := by
  simp only [has_iff_exponents, exponents_mul, Finsupp.add_apply]
  omega

/-- Merging factors loses no variable. -/
theorem has_ofFactors {factors : List Factor} {var : Int} :
    (ofFactors factors).Has var ↔ ∃ factor ∈ factors, factor.var = var := by
  rw [has_iff_exponents, exponents_ofFactors]
  induction factors with
  | nil => simp
  | cons head rest hypothesis =>
      rw [exponentsOf_cons, Finsupp.add_apply]
      simp only [List.mem_cons, exists_eq_or_imp, ← hypothesis]
      by_cases same : head.var = var
      · have positive := head.positive
        rw [same, Finsupp.single_eq_same]
        simp only [true_or, iff_true]
        omega
      · rw [Finsupp.single_eq_of_ne' same, zero_add, or_iff_right same]

/-- Renaming brings no variable in but the new one. -/
theorem has_rename {old new var : Int} {product : PowerProduct}
    (has : (product.rename old new).Has var) :
    var = new ∨ product.Has var := by
  obtain ⟨renamed, member, rfl⟩ := has_ofFactors.1 has
  obtain ⟨factor, isFactor, rfl⟩ := List.mem_map.1 member
  unfold Factor.rename
  split
  · exact .inl rfl
  · exact .inr ⟨factor, isFactor, rfl⟩

/-- Factors that are left were there before. -/
theorem has_filter {test : Factor → Bool} {product : PowerProduct} {var : Int}
    (has : (product.filter test).Has var) : product.Has var := by
  obtain ⟨factor, member, same⟩ := has
  exact ⟨factor, List.mem_of_mem_filter member, same⟩

end PowerProduct

namespace Polynomial

variable {K : Type}

/-- A variable occurs in a list of products if it has a power in one of them. -/
def Occurs (var : Int) (products : List PowerProduct) : Prop :=
  ∃ product ∈ products, product.Has var

theorem not_occurs_nil {var : Int} : ¬ Occurs var [] := by
  rintro ⟨product, member, -⟩
  exact List.not_mem_nil member

theorem occurs_cons {var : Int} {product : PowerProduct} {products : List PowerProduct} :
    Occurs var (product :: products) ↔ product.Has var ∨ Occurs var products := by
  unfold Occurs
  simp only [List.mem_cons, exists_eq_or_imp]

/-- Two lists together have the variables of both. -/
theorem occurs_append {var : Int} {first second : List PowerProduct} :
    Occurs var (first ++ second) ↔ Occurs var first ∨ Occurs var second := by
  unfold Occurs
  simp only [List.mem_append, or_and_right, exists_or]

/-- A variable occurs in some monomial. -/
theorem occurs_powersOf {var : Int} {monomials : List (Monomial K)} :
    Occurs var (powersOf monomials) ↔ ∃ item ∈ monomials, item.powers.Has var := by
  unfold Occurs powersOf
  simp only [List.mem_map, exists_exists_and_eq_and]

/-- Sorting a variable in adds that one and no other. -/
theorem mem_insertVariable {var other : Int} {vars : List Int} :
    other ∈ insertVariable var vars ↔ other = var ∨ other ∈ vars := by
  induction vars with
  | nil => exact List.mem_cons
  | cons head rest hypothesis =>
      simp only [insertVariable]
      split
      · exact List.mem_cons
      · split
        · rename_i same
          rw [same, List.mem_cons]
          exact ⟨Or.inr, fun either => either.elim Or.inl id⟩
        · rw [List.mem_cons, hypothesis, List.mem_cons, or_left_comm]

/-- Collecting variables keeps those seen before. -/
theorem mem_foldl_insertVariable {vars seen : List Int} {var : Int} :
    var ∈ vars.foldl (fun vars var => insertVariable var vars) seen ↔ var ∈ seen ∨ var ∈ vars := by
  induction vars generalizing seen with
  | nil => rw [List.foldl_nil, or_iff_left List.not_mem_nil]
  | cons head rest hypothesis =>
      rw [List.foldl_cons, hypothesis, mem_insertVariable, List.mem_cons, or_assoc, or_left_comm]

/-- The variables of a polynomial are those that occur in its monomials. -/
theorem mem_vars {polynomial : Polynomial K} {var : Int} :
    var ∈ polynomial.vars ↔ Occurs var (powersOf polynomial.monomials) := by
  unfold vars Occurs powersOf
  rw [mem_foldl_insertVariable, or_iff_right List.not_mem_nil, List.mem_flatMap]
  simp only [List.mem_map, exists_exists_and_eq_and, PowerProduct.mem_vars]

/-- The variable of an angle is its only one. -/
theorem mem_vars_of_linear {polynomial : Polynomial K} {item : Monomial K} {var : Int}
    (shape : polynomial.monomials = [item]) (powers : item.powers = .ofFactor (.linear var)) :
    var ∈ polynomial.vars := by
  rw [mem_vars, shape]
  exact ⟨item.powers, List.mem_singleton_self _, powers ▸ PowerProduct.has_ofFactor.2 rfl⟩

/-- Merging neither loses nor adds a variable. -/
theorem occurs_merge [Coefficient K] {monomials merged : List (Monomial K)} {var : Int}
    (returned : merge monomials = .ok merged) :
    Occurs var (powersOf merged) ↔ Occurs var (powersOf monomials) := by
  unfold Occurs
  simp only [mem_powersOf_merge returned]

end Polynomial

end TrigAlgebra
