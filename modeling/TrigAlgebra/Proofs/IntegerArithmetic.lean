/-
This file proves that sums, differences and products of polynomials with integer coefficients are
those of polynomials, in their coefficients and in the powers that stay, and that they obey the laws
of a commutative ring.
-/

import Mathlib.Algebra.BigOperators.Group.Finset.Sigma
import Mathlib.Algebra.Group.Pointwise.Finset.Basic
import Mathlib.Algebra.MvPolynomial.CommRing
import TrigAlgebra.DenseVector.Basic
import TrigAlgebra.Proofs.Coefficients

namespace TrigAlgebra

open MvPolynomial
open scoped Pointwise

/-- Integer coefficients stand for themselves. -/
def Reading.integers : Reading Number Int where
  exact number := ∃ value, number = .integer value
  value number := number.asInteger?.getD 0
  exact_add := by
    rintro _ _ ⟨first, rfl⟩ ⟨second, rfl⟩
    exact ⟨.integer (first + second), rfl, ⟨_, rfl⟩, rfl⟩
  exact_mul := by
    rintro _ _ ⟨first, rfl⟩ ⟨second, rfl⟩
    exact ⟨.integer (first * second), rfl, ⟨_, rfl⟩, rfl⟩
  exact_neg := by
    rintro _ ⟨value, rfl⟩
    exact ⟨-value, rfl⟩
  value_neg := by
    rintro _ ⟨value, rfl⟩
    rfl
  same_iff := by
    rintro _ _ ⟨first, rfl⟩ ⟨second, rfl⟩
    change (first == second) = true ↔ first = second
    exact beq_iff_eq

namespace PowerProduct

/-- The powers of each variable in two products add up to those in a third. -/
def IsPowerSum (first second sum : PowerProduct) : Prop :=
  ∀ var, sum.degreeOf var = first.degreeOf var + second.degreeOf var

/-- Exponents are added exactly if the products are multiplied. -/
theorem isPowerSum_iff {first second sum : PowerProduct} :
    IsPowerSum first second sum ↔ first.mul second = sum := by
  constructor
  · intro powers
    apply degreeOf_injective
    intro var
    rw [degreeOf_mul, powers]
  · rintro rfl var
    exact degreeOf_mul first second var

instance (first second sum : PowerProduct) : Decidable (IsPowerSum first second sum) :=
  decidable_of_iff _ isPowerSum_iff.symm

end PowerProduct

namespace Polynomial

/-- The products of powers that a polynomial has, also those with the coefficient zero. -/
def support {K : Type} (polynomial : Polynomial K) : Finset PowerProduct :=
  (powersOf polynomial.monomials).toFinset

/-- The integer stored for the powers, zero if there is none. -/
def coefficientAt (polynomial : Polynomial Number) (powers : PowerProduct) : Int :=
  ((polynomial.coefficient? powers).bind Number.asInteger?).getD 0

/-- All coefficients are integers, and no two monomials have the same powers. -/
structure Integral (polynomial : Polynomial Number) : Prop where
  integers : ∀ item ∈ polynomial.monomials, ∃ value, item.coefficient = .integer value
  distinct : polynomial.Distinct

/-- Coefficient by coefficient the sum of two polynomials. -/
structure IsSum (first second sum : Polynomial Number) : Prop where
  coefficient : ∀ powers,
    sum.coefficientAt powers = first.coefficientAt powers + second.coefficientAt powers
  support : sum.support = first.support ∪ second.support

/-- Coefficient by coefficient the difference of two polynomials. -/
structure IsDifference (first second difference : Polynomial Number) : Prop where
  coefficient : ∀ powers,
    difference.coefficientAt powers = first.coefficientAt powers - second.coefficientAt powers
  support : difference.support = first.support ∪ second.support

/-- Coefficient by coefficient the negative of a polynomial. -/
structure IsNegation (polynomial negation : Polynomial Number) : Prop where
  coefficient : ∀ powers, negation.coefficientAt powers = -polynomial.coefficientAt powers
  support : negation.support = polynomial.support

/-- Every coefficient of a product collects the pairs whose powers add up to its own. -/
structure IsProduct (first second product : Polynomial Number) : Prop where
  coefficient : ∀ powers, product.coefficientAt powers =
    ∑ pair ∈ (first.support ×ˢ second.support).filter
        fun pair => PowerProduct.IsPowerSum pair.1 pair.2 powers,
      first.coefficientAt pair.1 * second.coefficientAt pair.2
  support : ∀ powers, powers ∈ product.support ↔
    ∃ left ∈ first.support, ∃ right ∈ second.support, PowerProduct.IsPowerSum left right powers

/-- Both computations return, and what they return is equal. -/
def Agree (first second : Except Fault (Polynomial Number)) : Prop :=
  ∃ left right, first = .ok left ∧ second = .ok right ∧ left.same right = true

theorem mem_support {K : Type} {polynomial : Polynomial K} {powers : PowerProduct} :
    powers ∈ polynomial.support ↔ powers ∈ powersOf polynomial.monomials :=
  List.mem_toFinset

/-- The polynomial with integer coefficients that is represented. -/
noncomputable def formal (polynomial : Polynomial Number) : MvPolynomial Int Int :=
  Reading.integers.formal polynomial.monomials

/-- Integer coefficients are read exactly. -/
theorem Integral.covers {polynomial : Polynomial Number} (integral : polynomial.Integral) :
    Reading.integers.Covers polynomial.monomials :=
  integral.integers

theorem formal_constant (value : Int) : (constant (.integer value)).formal = C value :=
  add_zero _

theorem integral_constant (value : Int) : (constant (.integer value)).Integral where
  integers item member := by
    rw [List.mem_singleton.1 member]
    exact ⟨value, rfl⟩
  distinct := List.nodup_singleton _

/-- The coefficients that are looked up are those of the polynomial. -/
theorem coeff_formal {polynomial : Polynomial Number} (integral : polynomial.Integral)
    (powers : PowerProduct) :
    coeff powers.exponents polynomial.formal = polynomial.coefficientAt powers := by
  rw [formal, Reading.coeff_formal integral.distinct, coefficientAt]
  cases polynomial.coefficient? powers <;> rfl

/-- The computation returns a polynomial with integer coefficients, known by what it stands for and
by its powers. -/
def Represents (result : Except Fault (Polynomial Number)) (form : MvPolynomial Int Int)
    (support : Finset PowerProduct) : Prop :=
  ∃ polynomial, result = .ok polynomial ∧ polynomial.Integral ∧ polynomial.formal = form ∧
    polynomial.support = support

/-- An integer polynomial represents itself. -/
theorem Integral.represents {polynomial : Polynomial Number} (integral : polynomial.Integral) :
    Represents (.ok polynomial) polynomial.formal polynomial.support :=
  ⟨polynomial, rfl, integral, rfl, rfl⟩

/-- Sums represent sums, and have the products of both. -/
theorem represents_add {first second : Polynomial Number}
    (firstCovered : Reading.integers.Covers first.monomials)
    (secondCovered : Reading.integers.Covers second.monomials) :
    Represents (first.add second) (first.formal + second.formal) (first.support ∪ second.support) := by
  obtain ⟨sum, returned, integers, form⟩ :=
    Reading.returns_add firstCovered secondCovered
  obtain ⟨merged, -⟩ := mergeFrom_eq_ok.1 returned
  refine ⟨sum, returned, ⟨integers, nodup_merge merged⟩, form, ?_⟩
  ext powers
  rw [mem_support, mem_powersOf_merge merged, Finset.mem_union, mem_support, mem_support, powersOf,
    List.map_append, List.mem_append]
  rfl

/-- Differences represent differences, and have the products of both. -/
theorem represents_sub {first second : Polynomial Number}
    (firstCovered : Reading.integers.Covers first.monomials)
    (secondCovered : Reading.integers.Covers second.monomials) :
    Represents (first.sub second) (first.formal - second.formal) (first.support ∪ second.support) := by
  obtain ⟨difference, returned, integers, form⟩ :=
    Reading.returns_sub firstCovered secondCovered
  obtain ⟨merged, -⟩ := mergeFrom_eq_ok.1 returned
  refine ⟨difference, returned, ⟨integers, nodup_merge merged⟩, form, ?_⟩
  ext powers
  rw [mem_support, mem_powersOf_merge merged, Finset.mem_union, mem_support, mem_support,
    ← powersOf_negated second.monomials, powersOf, List.map_append, List.mem_append]
  rfl

/-- Products represent products, and have all products of two. -/
theorem represents_mul {first second : Polynomial Number}
    (firstCovered : Reading.integers.Covers first.monomials)
    (secondCovered : Reading.integers.Covers second.monomials) :
    Represents (first.mul second) (first.formal * second.formal) (first.support * second.support) := by
  obtain ⟨product, returned, integers, form⟩ :=
    Reading.returns_mul firstCovered secondCovered
  obtain ⟨monomials, written, merged, -⟩ := mul_eq_ok.1 returned
  refine ⟨product, returned, ⟨integers, nodup_merge merged⟩, form, ?_⟩
  ext powers
  rw [mem_support, mem_powersOf_merge merged, mem_powersOf_products written, Finset.mem_mul]
  simp only [mem_support]
  rfl

/-- The negative represents the negative, with the same products. -/
theorem represents_neg {polynomial : Polynomial Number} (integral : polynomial.Integral) :
    Represents (.ok polynomial.neg) (-polynomial.formal) polynomial.support := by
  have powers := powersOf_negated polynomial.monomials
  refine ⟨polynomial.neg, rfl, ⟨Reading.covers_negated integral.covers, ?_⟩,
    Reading.formal_negated integral.covers, ?_⟩
  · change (powersOf (negated polynomial.monomials)).Nodup
    rw [powers]
    exact integral.distinct
  · change (powersOf (negated polynomial.monomials)).toFinset = _
    rw [powers]
    rfl

/-- Two computations return, and then the sum of what they return does. -/
theorem Represents.add {first second : Except Fault (Polynomial Number)}
    {firstForm secondForm : MvPolynomial Int Int} {firstSupport secondSupport : Finset PowerProduct}
    (firstRepresents : Represents first firstForm firstSupport)
    (secondRepresents : Represents second secondForm secondSupport) :
    Represents (do (← first).add (← second)) (firstForm + secondForm)
      (firstSupport ∪ secondSupport) := by
  obtain ⟨left, rfl, leftIntegral, rfl, rfl⟩ := firstRepresents
  obtain ⟨right, rfl, rightIntegral, rfl, rfl⟩ := secondRepresents
  exact represents_add leftIntegral.covers rightIntegral.covers

/-- The same for differences of computed polynomials. -/
theorem Represents.sub {first second : Except Fault (Polynomial Number)}
    {firstForm secondForm : MvPolynomial Int Int} {firstSupport secondSupport : Finset PowerProduct}
    (firstRepresents : Represents first firstForm firstSupport)
    (secondRepresents : Represents second secondForm secondSupport) :
    Represents (do (← first).sub (← second)) (firstForm - secondForm)
      (firstSupport ∪ secondSupport) := by
  obtain ⟨left, rfl, leftIntegral, rfl, rfl⟩ := firstRepresents
  obtain ⟨right, rfl, rightIntegral, rfl, rfl⟩ := secondRepresents
  exact represents_sub leftIntegral.covers rightIntegral.covers

/-- The same for the negative of a computed polynomial. -/
theorem Represents.neg {result : Except Fault (Polynomial Number)} {form : MvPolynomial Int Int}
    {support : Finset PowerProduct} (represents : Represents result form support) :
    Represents (do return (← result).neg) (-form) support := by
  obtain ⟨polynomial, rfl, integral, rfl, rfl⟩ := represents
  exact represents_neg integral

/-- The same for products of computed polynomials. -/
theorem Represents.mul {first second : Except Fault (Polynomial Number)}
    {firstForm secondForm : MvPolynomial Int Int} {firstSupport secondSupport : Finset PowerProduct}
    (firstRepresents : Represents first firstForm firstSupport)
    (secondRepresents : Represents second secondForm secondSupport) :
    Represents (do (← first).mul (← second)) (firstForm * secondForm)
      (firstSupport * secondSupport) := by
  obtain ⟨left, rfl, leftIntegral, rfl, rfl⟩ := firstRepresents
  obtain ⟨right, rfl, rightIntegral, rfl, rfl⟩ := secondRepresents
  exact represents_mul leftIntegral.covers rightIntegral.covers

/-- Two computations agree if they represent one polynomial with the same products. -/
theorem Represents.agree {first second : Except Fault (Polynomial Number)}
    {firstForm secondForm : MvPolynomial Int Int} {firstSupport secondSupport : Finset PowerProduct}
    (firstRepresents : Represents first firstForm firstSupport)
    (secondRepresents : Represents second secondForm secondSupport) (forms : firstForm = secondForm)
    (supports : firstSupport = secondSupport) : Agree first second := by
  obtain ⟨left, rfl, leftIntegral, rfl, rfl⟩ := firstRepresents
  obtain ⟨right, rfl, rightIntegral, rfl, rfl⟩ := secondRepresents
  refine ⟨left, right, rfl, rfl, ?_⟩
  apply Reading.same_of_formal_eq leftIntegral.covers rightIntegral.covers leftIntegral.distinct
    rightIntegral.distinct _ forms
  intro product
  rw [← mem_support, ← mem_support, supports]

/-- A polynomial is the sum of its coefficients at its powers. -/
theorem formal_eq_sum {polynomial : Polynomial Number} (integral : polynomial.Integral) :
    polynomial.formal = ∑ powers ∈ polynomial.support,
      monomial powers.exponents (polynomial.coefficientAt powers) := by
  have terms : polynomial.monomials.map Reading.integers.term = (powersOf polynomial.monomials).map
      fun powers => monomial powers.exponents (polynomial.coefficientAt powers) := by
    rw [powersOf, List.map_map]
    apply List.map_congr_left
    intro item member
    have value : polynomial.coefficientAt item.powers = Reading.integers.value item.coefficient := by
      rw [coefficientAt, coefficient?_of_mem integral.distinct member]
      rfl
    rw [Function.comp_apply, value]
    rfl
  rw [formal, Reading.formal, terms]
  exact (List.sum_toFinset _ integral.distinct).symm

/-- The coefficients of a product, pair by pair. -/
theorem coeff_formal_mul {first second : Polynomial Number} (firstIntegral : first.Integral)
    (secondIntegral : second.Integral) (powers : PowerProduct) :
    coeff powers.exponents (first.formal * second.formal) =
      ∑ pair ∈ (first.support ×ˢ second.support).filter
          fun pair => PowerProduct.IsPowerSum pair.1 pair.2 powers,
        first.coefficientAt pair.1 * second.coefficientAt pair.2 := by
  rw [formal_eq_sum firstIntegral, formal_eq_sum secondIntegral, Finset.sum_mul_sum,
    ← Finset.sum_product', coeff_sum, Finset.sum_filter]
  apply Finset.sum_congr rfl
  rintro ⟨left, right⟩ -
  rw [monomial_mul, coeff_monomial, ← PowerProduct.exponents_mul]
  simp only [PowerProduct.exponents_injective.eq_iff, PowerProduct.isPowerSum_iff]

/-- Integers are always added. -/
theorem exists_isSum {first second : Polynomial Number} (firstIntegral : first.Integral)
    (secondIntegral : second.Integral) :
    ∃ sum, first.add second = .ok sum ∧ IsSum first second sum := by
  obtain ⟨sum, returned, integral, form, support⟩ :=
    represents_add firstIntegral.covers secondIntegral.covers
  refine ⟨sum, returned, fun powers => ?_, support⟩
  rw [← coeff_formal integral, form, coeff_add, coeff_formal firstIntegral,
    coeff_formal secondIntegral]

/-- Integers are always subtracted. -/
theorem exists_isDifference {first second : Polynomial Number} (firstIntegral : first.Integral)
    (secondIntegral : second.Integral) :
    ∃ difference, first.sub second = .ok difference ∧ IsDifference first second difference := by
  obtain ⟨difference, returned, integral, form, support⟩ :=
    represents_sub firstIntegral.covers secondIntegral.covers
  refine ⟨difference, returned, fun powers => ?_, support⟩
  rw [← coeff_formal integral, form, coeff_sub, coeff_formal firstIntegral,
    coeff_formal secondIntegral]

/-- Integers are always negated. -/
theorem isNegation_neg {polynomial : Polynomial Number} (integral : polynomial.Integral) :
    IsNegation polynomial polynomial.neg := by
  obtain ⟨negation, returned, negationIntegral, form, support⟩ := represents_neg integral
  cases returned
  refine ⟨fun powers => ?_, support⟩
  rw [← coeff_formal negationIntegral, form, coeff_neg, coeff_formal integral]

/-- Integers are always multiplied. -/
theorem exists_isProduct {first second : Polynomial Number} (firstIntegral : first.Integral)
    (secondIntegral : second.Integral) :
    ∃ product, first.mul second = .ok product ∧ IsProduct first second product := by
  obtain ⟨product, returned, integral, form, support⟩ :=
    represents_mul firstIntegral.covers secondIntegral.covers
  refine ⟨product, returned, fun powers => ?_, fun powers => ?_⟩
  · rw [← coeff_formal integral, form, coeff_formal_mul firstIntegral secondIntegral]
  · rw [support, Finset.mem_mul]
    simp only [PowerProduct.isPowerSum_iff]
    rfl

/-- Sums, differences, negations and products of polynomials with integer coefficients return, have
the coefficients and the powers of polynomial arithmetic, and obey the laws of a commutative ring. -/
theorem integer_arithmetic (first second third : Polynomial Number) (firstIntegral : first.Integral)
    (secondIntegral : second.Integral) (thirdIntegral : third.Integral) :
    ((∃ sum, first.add second = .ok sum ∧ IsSum first second sum) ∧
      (∃ difference, first.sub second = .ok difference ∧ IsDifference first second difference) ∧
      IsNegation first first.neg ∧
      (∃ product, first.mul second = .ok product ∧ IsProduct first second product)) ∧
    (Agree (first.add second) (second.add first) ∧
      Agree (first.mul second) (second.mul first) ∧
      Agree (do (← first.add second).add third) (do first.add (← second.add third)) ∧
      Agree (do (← first.mul second).mul third) (do first.mul (← second.mul third)) ∧
      Agree (do first.mul (← second.add third)) (do (← first.mul second).add (← first.mul third)) ∧
      Agree (do (← second.add third).mul first) (do (← second.mul first).add (← third.mul first))) := by
  have one := firstIntegral.represents
  have two := secondIntegral.represents
  have three := thirdIntegral.represents
  refine ⟨⟨exists_isSum firstIntegral secondIntegral, exists_isDifference firstIntegral secondIntegral,
    isNegation_neg firstIntegral, exists_isProduct firstIntegral secondIntegral⟩, ?_⟩
  refine ⟨?_, ?_, ?_, ?_, ?_, ?_⟩
  · exact (one.add two).agree (two.add one) (add_comm _ _) (Finset.union_comm _ _)
  · exact (one.mul two).agree (two.mul one) (mul_comm _ _) (mul_comm _ _)
  · exact ((one.add two).add three).agree (one.add (two.add three)) (add_assoc _ _ _)
      (Finset.union_assoc _ _ _)
  · exact ((one.mul two).mul three).agree (one.mul (two.mul three)) (mul_assoc _ _ _)
      (mul_assoc _ _ _)
  · exact (one.mul (two.add three)).agree ((one.mul two).add (one.mul three)) (mul_add _ _ _)
      Finset.mul_union
  · exact ((two.add three).mul one).agree ((two.mul one).add (three.mul one)) (add_mul _ _ _)
      Finset.union_mul

def binomial (first second : Int) : Polynomial Number :=
  ⟨[⟨.integer first, .ofFactor (.linear 2)⟩, ⟨.integer second, .ofFactor (.linear 4)⟩], false⟩

theorem integral_binomial (first second : Int) : (binomial first second).Integral := by
  constructor
  · intro item member
    rcases List.mem_pair.1 member with rfl | rfl
    · exact ⟨first, rfl⟩
    · exact ⟨second, rfl⟩
  · change [PowerProduct.ofFactor (.linear 2), PowerProduct.ofFactor (.linear 4)].Nodup
    decide

/-- The two mixed products of conjugate binomials cancel, and their powers stay with the
coefficient zero. -/
theorem conjugate_binomials :
    let mixed := PowerProduct.ofFactors [.linear 2, .linear 4]
    (binomial 1 1).Integral ∧ (binomial 1 (-1)).Integral ∧
      ∃ product, (binomial 1 1).mul (binomial 1 (-1)) = .ok product ∧
        product.coefficientAt mixed = 0 ∧ mixed ∈ product.support := by
  have plus := integral_binomial 1 1
  have minus := integral_binomial 1 (-1)
  obtain ⟨⟨-, -, -, product, returned, isProduct⟩, -⟩ := integer_arithmetic _ _ _ plus minus plus
  refine ⟨plus, minus, product, returned, ?_, ?_⟩
  · rw [isProduct.coefficient]
    decide
  · rw [isProduct.support]
    decide

end Polynomial

end TrigAlgebra
