/-
This file proves that a monomial is divided by another one by subtracting the exponents: there is no
quotient exactly when some exponent of the divisor is the larger one.
-/

import TrigAlgebra.Proofs.ArithmeticFaults
import TrigAlgebra.Proofs.CanonicalMonomials
import TrigAlgebra.Proofs.Variables

namespace TrigAlgebra

namespace PowerProduct

variable {product divisor quotient : PowerProduct}

/-- A factor has the exponent of its variable. -/
theorem degreeOf_of_mem {factor : Factor} (member : factor ∈ product.factors) :
    product.degreeOf factor.var = factor.power :=
  (exponents_apply product factor.var).symm.trans
    ((mem_iff_exponentsOf_apply factor product.increasing).1 member)

/-- A variable with an exponent has a factor. -/
theorem exists_mem_of_degreeOf_ne {var : Int} (occurs : product.degreeOf var ≠ 0) :
    ∃ factor ∈ product.factors, factor.var = var := by
  rw [← exponents_apply] at occurs
  exact has_iff_exponents.2 occurs

/-- The exponent that is left of a factor may be zero, and then the factor is left out. -/
theorem exponentsOf_quotientFactors_cons (divisor : PowerProduct) (head : Factor) (rest : List Factor) :
    exponentsOf (quotientFactors divisor (head :: rest)) =
      Finsupp.single head.var (head.power - divisor.degreeOf head.var) +
        exponentsOf (quotientFactors divisor rest) := by
  unfold quotientFactors
  rw [List.filterMap_cons]
  by_cases more : divisor.degreeOf head.var < head.power
  · rw [dif_pos more]
    rfl
  · rw [dif_neg more, Nat.sub_eq_zero_of_le (Nat.not_lt.1 more), Finsupp.single_zero, zero_add]

/-- Division subtracts exponents. -/
theorem exponentsOf_quotientFactors (divisor : PowerProduct) {factors : List Factor}
    (increasing : factors.Pairwise fun first second => first.var < second.var) (var : Int) :
    exponentsOf (quotientFactors divisor factors) var = exponentsOf factors var - divisor.degreeOf var := by
  induction factors with
  | nil => exact (Nat.zero_sub _).symm
  | cons head rest hypothesis =>
      rw [List.pairwise_cons] at increasing
      rw [exponentsOf_quotientFactors_cons, Finsupp.add_apply, hypothesis increasing.2, exponentsOf_cons,
        Finsupp.add_apply]
      by_cases same : head.var = var
      · subst same
        rw [exponentsOf_apply_of_lt increasing.1, Finsupp.single_eq_same, Finsupp.single_eq_same,
          Nat.zero_sub]
        rfl
      · rw [Finsupp.single_eq_of_ne' same, Finsupp.single_eq_of_ne' same, zero_add, zero_add]

/-- No exponent of the divisor is larger than that of the product. -/
def Divides (divisor product : PowerProduct) : Prop :=
  ∀ var, divisor.degreeOf var ≤ product.degreeOf var

/-- The factors of the product are compared with the divisor, and those of the divisor are looked for in
the product: together this decides the exponents of all variables. -/
theorem divides_iff : divisor.Divides product ↔
    (∀ factor ∈ product.factors, divisor.degreeOf factor.var ≤ factor.power) ∧
      ∀ factor ∈ divisor.factors, product.degreeOf factor.var ≠ 0 := by
  constructor
  · refine fun divides => ⟨fun factor member => ?_, fun factor member => ?_⟩
    · exact degreeOf_of_mem member ▸ divides factor.var
    · have positive := factor.positive
      have order := divides factor.var
      rw [degreeOf_of_mem member] at order
      exact (positive.trans_le order).ne'
  · rintro ⟨bounded, found⟩ var
    by_cases absent : divisor.degreeOf var = 0
    · exact absent ▸ Nat.zero_le _
    · obtain ⟨factor, member, rfl⟩ := exists_mem_of_degreeOf_ne absent
      obtain ⟨other, isFactor, same⟩ := exists_mem_of_degreeOf_ne (found factor member)
      rw [← same, degreeOf_of_mem isFactor]
      exact bounded other isFactor

instance (divisor product : PowerProduct) : Decidable (divisor.Divides product) :=
  decidable_of_iff _ divides_iff.symm

/-- Division returns a quotient exactly if the divisor divides. -/
theorem divide?_eq (product divisor : PowerProduct) : product.divide? divisor =
    if divisor.Divides product then some (ofFactors (quotientFactors divisor product.factors)) else none := by
  unfold divide?
  refine if_congr ?_ rfl rfl
  rw [divides_iff, Bool.and_eq_true, List.all_eq_true, List.all_eq_true]
  simp only [decide_eq_true_eq, bne_iff_ne]

/-- Division returns nothing exactly if the divisor does not divide. -/
theorem divide?_eq_none : product.divide? divisor = none ↔ ¬ divisor.Divides product := by
  rw [divide?_eq]
  by_cases divides : divisor.Divides product
  · rw [if_pos divides]
    exact iff_of_false (Option.some_ne_none _) (not_not_intro divides)
  · rw [if_neg divides]
    exact iff_of_true rfl divides

/-- Exponents of a quotient are differences. -/
theorem degreeOf_quotient (divisor product : PowerProduct) (var : Int) :
    (ofFactors (quotientFactors divisor product.factors)).degreeOf var =
      product.degreeOf var - divisor.degreeOf var := by
  rw [← exponents_apply, exponents_ofFactors, exponentsOf_quotientFactors divisor product.increasing,
    ← exponents_apply product]
  rfl

/-- A product is divided by subtracting the exponents. -/
theorem divide?_eq_some : product.divide? divisor = some quotient ↔
    ∀ var, quotient.degreeOf var + divisor.degreeOf var = product.degreeOf var := by
  rw [divide?_eq]
  constructor
  · intro divided var
    obtain ⟨divides, same⟩ := Option.ite_none_right_eq_some.1 divided
    rw [← Option.some.inj same, degreeOf_quotient, Nat.sub_add_cancel (divides var)]
  · intro exact
    have divides : divisor.Divides product := fun var => exact var ▸ Nat.le_add_left _ _
    rw [if_pos divides, Option.some.injEq]
    apply degreeOf_injective
    intro var
    rw [degreeOf_quotient, ← exact var, Nat.add_sub_cancel]

end PowerProduct

namespace Monomial

variable {K : Type} [Coefficient K] {item divisor quotient product : Monomial K}

theorem divide?_of_none (refused : item.powers.divide? divisor.powers = none) :
    item.divide? divisor = .ok none := by
  rw [divide?, refused]

theorem divide?_of_some {powers : PowerProduct} (divided : item.powers.divide? divisor.powers = some powers) :
    item.divide? divisor = (Coefficient.div item.coefficient divisor.coefficient).map fun coefficient =>
      some ⟨coefficient, powers⟩ := by
  rw [divide?, divided]

/-- Monomials have no quotient where their products have none. -/
theorem divide?_eq_none : item.divide? divisor = .ok none ↔
    ∃ var, item.degreeOf var < divisor.degreeOf var := by
  have larger : (∃ var, item.degreeOf var < divisor.degreeOf var) ↔
      item.powers.divide? divisor.powers = none := by
    rw [PowerProduct.divide?_eq_none, PowerProduct.Divides, not_forall]
    simp only [Nat.not_le]
    rfl
  rw [larger]
  cases divided : item.powers.divide? divisor.powers with
  | none => exact iff_of_true (divide?_of_none divided) rfl
  | some powers =>
      rw [divide?_of_some divided, map_eq_ok]
      exact iff_of_false (fun ⟨_, _, absurd⟩ => nomatch absurd) (Option.some_ne_none powers)

/-- The coefficients are divided, and the exponents of the divisor are taken away. -/
theorem divide?_eq_some : item.divide? divisor = .ok (some quotient) ↔
    Coefficient.div item.coefficient divisor.coefficient = .ok quotient.coefficient ∧
      ∀ var, quotient.degreeOf var + divisor.degreeOf var = item.degreeOf var := by
  have exact : (∀ var, quotient.degreeOf var + divisor.degreeOf var = item.degreeOf var) ↔
      item.powers.divide? divisor.powers = some quotient.powers := PowerProduct.divide?_eq_some.symm
  rw [exact]
  cases divided : item.powers.divide? divisor.powers with
  | none =>
      rw [divide?_of_none divided]
      exact iff_of_false (fun absurd => nomatch absurd) fun ⟨_, absurd⟩ => nomatch absurd
  | some powers =>
      rw [divide?_of_some divided, map_eq_ok, Option.some.injEq]
      constructor
      · rintro ⟨coefficient, computed, same⟩
        cases same
        exact ⟨computed, rfl⟩
      · rintro ⟨computed, rfl⟩
        exact ⟨_, computed, rfl⟩

/-- A division fails only in the coefficients, and only if there is a quotient of the powers. -/
theorem divide?_eq_error {fault : Fault} : item.divide? divisor = .error fault ↔
    Coefficient.div item.coefficient divisor.coefficient = .error fault ∧
      ∀ var, divisor.degreeOf var ≤ item.degreeOf var := by
  have divides : (∀ var, divisor.degreeOf var ≤ item.degreeOf var) ↔
      item.powers.divide? divisor.powers ≠ none := by
    rw [ne_eq, PowerProduct.divide?_eq_none, not_not]
    rfl
  rw [divides]
  cases divided : item.powers.divide? divisor.powers with
  | none =>
      rw [divide?_of_none divided]
      exact iff_of_false (fun absurd => nomatch absurd) fun ⟨_, absurd⟩ => absurd rfl
  | some powers =>
      rw [divide?_of_some divided, map_eq_error, and_iff_left (Option.some_ne_none powers)]

/-- A monomial has no quotient exactly when some exponent of the divisor is the larger one. Otherwise the
coefficients are divided, which alone can fail, and the exponents subtracted; the quotient times the
divisor has the factors of the monomial again as long as the coefficients can be multiplied. What has been
multiplied by the divisor is divided by it exactly, if the coefficients can be. -/
theorem exact_division (item divisor : Monomial K) :
    (item.divide? divisor = .ok none ↔ ∃ var, item.degreeOf var < divisor.degreeOf var) ∧
    (∀ fault, item.divide? divisor = .error fault ↔
      Coefficient.div item.coefficient divisor.coefficient = .error fault ∧
        ∀ var, divisor.degreeOf var ≤ item.degreeOf var) ∧
    (∀ quotient, item.divide? divisor = .ok (some quotient) ↔
      Coefficient.div item.coefficient divisor.coefficient = .ok quotient.coefficient ∧
        ∀ var, (quotient.degreeOf var : Int) = item.degreeOf var - divisor.degreeOf var) ∧
    (∀ quotient, item.divide? divisor = .ok (some quotient) →
      ∀ coefficient, Coefficient.mul quotient.coefficient divisor.coefficient = .ok coefficient →
        quotient.mul divisor = .ok ⟨coefficient, item.powers⟩) ∧
    (∀ product, item.mul divisor = .ok product →
      ∀ coefficient, Coefficient.div product.coefficient divisor.coefficient = .ok coefficient →
        product.divide? divisor = .ok (some ⟨coefficient, item.powers⟩)) := by
  refine ⟨divide?_eq_none, fun fault => divide?_eq_error, fun quotient => ?_, ?_, ?_⟩
  · rw [divide?_eq_some]
    exact and_congr_right' (forall_congr' fun var => by omega)
  · intro quotient divided coefficient computed
    obtain ⟨-, exponents⟩ := divide?_eq_some.1 divided
    exact mul_eq_ok.2 ⟨computed, fun var => (exponents var).symm⟩
  · intro product multiplied coefficient computed
    obtain ⟨-, exponents⟩ := mul_eq_ok.1 multiplied
    exact divide?_eq_some.2 ⟨computed, fun var => (exponents var).symm⟩

/-- One variable keeps a part of its power, another one is divided out. -/
theorem exact_division_mixedPowers :
    let item : Monomial Number := ⟨.integer 6, .ofFactors [⟨58, 2, by decide⟩, ⟨56, 3, by decide⟩]⟩
    let divisor : Monomial Number := ⟨.integer 4, .ofFactors [⟨56, 1, by decide⟩, ⟨58, 2, by decide⟩]⟩
    let quotient : Monomial Number := ⟨.real 1.5, .ofFactors [⟨56, 2, by decide⟩]⟩
    divisor.divide? item = .ok none ∧ item.divide? divisor = .ok (some quotient) ∧
      (∃ coefficient, quotient.mul divisor = .ok ⟨coefficient, item.powers⟩) ∧
        ∃ product, item.mul divisor = .ok product ∧
          product.divide? divisor = .ok (some ⟨.real 6.0, item.powers⟩) := by
  intro item divisor quotient
  have coefficients : Coefficient.div item.coefficient divisor.coefficient = .ok (Number.real 1.5) := by rfl
  have again : Coefficient.div (Number.integer 24) divisor.coefficient = .ok (Number.real 6.0) := by rfl
  have back : ∃ coefficient, Coefficient.mul quotient.coefficient divisor.coefficient = .ok coefficient :=
    ⟨_, rfl⟩
  have divided : item.divide? divisor = .ok (some quotient) := by
    rw [divide?_of_some rfl]
    exact map_eq_ok.2 ⟨_, coefficients, rfl⟩
  have multiplied : item.mul divisor = .ok ⟨.integer 24, item.powers.mul divisor.powers⟩ := by rfl
  obtain ⟨-, -, -, restored, cancelled⟩ := exact_division item divisor
  exact ⟨(exact_division divisor item).1.2 ⟨56, by decide⟩, divided,
    back.imp fun coefficient => restored quotient divided coefficient,
    _, multiplied, cancelled _ multiplied _ again⟩

/-- Two integers have a quotient unless the divisor is zero. -/
theorem div_integer {first second : Int} (nonzero : second ≠ 0)
    (finite : (Binary64.ofRatio ((first < 0) != (second < 0)) first.natAbs second.natAbs).isFinite = true) :
    Number.div (.integer first) (.integer second) =
      .ok (.real (Binary64.ofRatio ((first < 0) != (second < 0)) first.natAbs second.natAbs)) := by
  have quotient : Number.integerQuotient first second = .ok _ :=
    (if_neg (by simpa using nonzero)).trans (if_pos finite)
  exact map_eq_ok.2 ⟨_, quotient, rfl⟩

/-- An integer too large to be rounded is refused as a factor. -/
theorem mul_real_integer_refused (first : Float) {second : Int}
    (infinite : (Binary64.ofInt second).isFinite = false) :
    Number.mul (.real first) (.integer second) = .error .integerTooLarge := by
  have unrounded := Number.floatOfInt_eq_error.2 ⟨infinite, rfl⟩
  unfold Number.mul Number.Operation.mixed
  simp only [Number.isBig, Number.isReal, Bool.or_self, Bool.and_self, Bool.false_eq_true, if_false, if_true]
  exact bind_eq_error.2 (.inr ⟨first, rfl, bind_eq_error.2 (.inl unrounded)⟩)

/-- A quotient by an integer that cannot be rounded is not multiplied by it again. -/
theorem exact_division_hugeDivisor : ¬ ∀ item divisor quotient : Monomial Number,
    item.divide? divisor = .ok (some quotient) →
      ∃ product, quotient.mul divisor = .ok product ∧ product.powers = item.powers := by
  intro claimed
  obtain ⟨huge, nonzero, infinite, finite⟩ : ∃ huge : Int, huge ≠ 0 ∧
      (Binary64.ofInt huge).isFinite = false ∧
        (Binary64.ofRatio (((1 : Int) < 0) != (huge < 0)) 1 huge.natAbs).isFinite = true :=
    ⟨1 <<< 1024, by decide +kernel, by decide +kernel, by decide +kernel⟩
  let item : Monomial Number := ⟨.integer 1, .ofFactor (.linear 56)⟩
  let divisor : Monomial Number := ⟨.integer huge, .ofFactor (.linear 56)⟩
  have divided : item.divide? divisor = .ok (some ⟨_, .one⟩) :=
    (divide?_of_some rfl).trans (map_eq_ok.2 ⟨_, div_integer nonzero finite, rfl⟩)
  obtain ⟨product, returned, -⟩ := claimed item divisor _ divided
  cases (mul_real_integer_refused _ infinite).symm.trans (mul_eq_ok.1 returned).1

end Monomial

end TrigAlgebra
