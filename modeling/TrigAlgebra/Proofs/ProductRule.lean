/-
This file proves that differentiation of polynomials in one variable with integer coefficients obeys
the rules for sums and products, also in the powers that stay with the coefficient zero.
-/

import Mathlib.Algebra.MvPolynomial.PDeriv
import TrigAlgebra.Proofs.Differentiation
import TrigAlgebra.Proofs.IntegerArithmetic

namespace TrigAlgebra

open MvPolynomial
open scoped Pointwise

namespace PowerProduct

/-- The products of the set are powers of the variable. -/
def OnlyPowers (single : Int) (set : Finset PowerProduct) : Prop :=
  ∀ product ∈ set, ∃ exponent, power single exponent = product

/-- The powers left by differentiation: each exponent is lowered by one, and the constant is gone. -/
def lowered (single : Int) (set : Finset PowerProduct) : Finset PowerProduct :=
  (set.filter fun product => 1 ≤ product.degreeOf single).image
    fun product => .power single (product.degreeOf single - 1)

variable {single : Int} {first second : Finset PowerProduct}

/-- Sets of powers are the same if they have the same exponents. -/
theorem OnlyPowers.ext (firstPowers : OnlyPowers single first) (secondPowers : OnlyPowers single second)
    (same : ∀ exponent, power single exponent ∈ first ↔ power single exponent ∈ second) :
    first = second := by
  ext product
  constructor
  · intro member
    obtain ⟨exponent, rfl⟩ := firstPowers product member
    exact (same exponent).1 member
  · intro member
    obtain ⟨exponent, rfl⟩ := secondPowers product member
    exact (same exponent).2 member

theorem OnlyPowers.union (firstPowers : OnlyPowers single first)
    (secondPowers : OnlyPowers single second) : OnlyPowers single (first ∪ second) :=
  Finset.forall_mem_union.2 ⟨firstPowers, secondPowers⟩

theorem OnlyPowers.mul (firstPowers : OnlyPowers single first)
    (secondPowers : OnlyPowers single second) : OnlyPowers single (first * second) := by
  intro product member
  obtain ⟨left, isLeft, right, isRight, rfl⟩ := Finset.mem_mul.1 member
  obtain ⟨leftExponent, rfl⟩ := firstPowers left isLeft
  obtain ⟨rightExponent, rfl⟩ := secondPowers right isRight
  exact ⟨leftExponent + rightExponent, (power_mul _ _ _).symm⟩

/-- Every power above zero is lowered by one. -/
theorem mem_lowered {product : PowerProduct} : product ∈ lowered single first ↔
    ∃ old ∈ first, 1 ≤ old.degreeOf single ∧ power single (old.degreeOf single - 1) = product := by
  simp only [lowered, Finset.mem_image, Finset.mem_filter, and_assoc]

theorem onlyPowers_lowered (single : Int) (set : Finset PowerProduct) :
    OnlyPowers single (lowered single set) := by
  intro product member
  obtain ⟨old, -, -, same⟩ := mem_lowered.1 member
  exact ⟨_, same⟩

/-- A power is in the lowered set if the next one was in the set. -/
theorem power_mem_lowered (powers : OnlyPowers single first) {exponent : Nat} :
    power single exponent ∈ lowered single first ↔ power single (exponent + 1) ∈ first := by
  rw [mem_lowered]
  constructor
  · rintro ⟨old, member, positive, same⟩
    obtain ⟨higher, rfl⟩ := powers old member
    rw [degreeOf_power_self] at positive same
    rw [← power_injective single same, Nat.sub_add_cancel positive]
    exact member
  · intro member
    refine ⟨_, member, ?_, ?_⟩
    · rw [degreeOf_power_self]
      exact Nat.le_add_left 1 exponent
    · rw [degreeOf_power_self, Nat.add_sub_cancel]

/-- Exponents of products are sums. -/
theorem power_mem_mul (firstPowers : OnlyPowers single first) (secondPowers : OnlyPowers single second)
    {exponent : Nat} : power single exponent ∈ first * second ↔
      ∃ left right, power single left ∈ first ∧ power single right ∈ second ∧
        left + right = exponent := by
  constructor
  · intro member
    obtain ⟨left, isLeft, right, isRight, same⟩ := Finset.mem_mul.1 member
    obtain ⟨leftExponent, rfl⟩ := firstPowers left isLeft
    obtain ⟨rightExponent, rfl⟩ := secondPowers right isRight
    exact ⟨leftExponent, rightExponent, isLeft, isRight,
      power_injective single ((power_mul _ _ _).symm.trans same)⟩
  · rintro ⟨left, right, isLeft, isRight, rfl⟩
    exact Finset.mem_mul.2 ⟨_, isLeft, _, isRight, power_mul _ _ _⟩

/-- Unions are lowered set by set. -/
theorem lowered_union (single : Int) (first second : Finset PowerProduct) :
    lowered single (first ∪ second) = lowered single first ∪ lowered single second := by
  rw [lowered, Finset.filter_union, Finset.image_union]
  rfl

/-- Lowering a product lowers one of its factors: whichever has a positive exponent. -/
theorem lowered_mul (firstPowers : OnlyPowers single first)
    (secondPowers : OnlyPowers single second) :
    lowered single (first * second) =
      lowered single first * second ∪ first * lowered single second := by
  have firstLowered := onlyPowers_lowered single first
  have secondLowered := onlyPowers_lowered single second
  refine (onlyPowers_lowered _ _).ext
    ((firstLowered.mul secondPowers).union (firstPowers.mul secondLowered)) fun exponent => ?_
  rw [power_mem_lowered (firstPowers.mul secondPowers), Finset.mem_union,
    power_mem_mul firstPowers secondPowers, power_mem_mul firstLowered secondPowers,
    power_mem_mul firstPowers secondLowered]
  simp only [power_mem_lowered firstPowers, power_mem_lowered secondPowers]
  constructor
  · rintro ⟨left, right, isLeft, isRight, sum⟩
    -- A constant on the left leaves the whole exponent to the right factor.
    cases left with
    | zero =>
        rw [Nat.zero_add] at sum
        subst sum
        exact .inr ⟨0, exponent, isLeft, isRight, Nat.zero_add _⟩
    | succ left => exact .inl ⟨left, right, isLeft, isRight, by omega⟩
  · rintro (⟨left, right, isLeft, isRight, rfl⟩ | ⟨left, right, isLeft, isRight, rfl⟩)
    · exact ⟨left + 1, right, isLeft, isRight, Nat.add_right_comm _ _ _⟩
    · exact ⟨left, right + 1, isLeft, isRight, rfl⟩

end PowerProduct

namespace Polynomial

variable {polynomial first second : Polynomial Number} {single : Int}

theorem InVariable.onlyPowers (powers : polynomial.InVariable single) :
    PowerProduct.OnlyPowers single polynomial.support := by
  intro product member
  exact ⟨_, (inVariable_iff.1 powers product (mem_support.1 member)).symm⟩

/-- The derivative of a term is the derived monomial, or nothing for a constant. -/
theorem pderiv_term {item : Monomial Number}
    (powers : item.powers = .power single item.powers.leadingPower) :
    pderiv single (Reading.integers.term item) = if 1 ≤ item.degreeOf single then
      Reading.integers.term (item.integerDerivative single 1) else 0 := by
  obtain ⟨coefficient, exponent, rfl⟩ := Monomial.exists_power powers
  have degree : Monomial.degreeOf ⟨coefficient, .power single exponent⟩ single = exponent :=
    PowerProduct.degreeOf_power_self single exponent
  rw [Monomial.integerDerivative, degree, Reading.term, Reading.term, PowerProduct.exponents_power,
    PowerProduct.exponents_power, pderiv_monomial_single, Nat.descFactorial_one]
  cases exponent with
  | zero => rw [Nat.cast_zero, mul_zero, map_zero]; rfl
  | succ exponent => rfl

/-- Read as formal polynomials, the monomials of the derivative are the partial derivative. -/
theorem formal_integerDerivatives {monomials : List (Monomial Number)}
    (powers : ∀ item ∈ monomials, item.powers = .power single item.powers.leadingPower) :
    Reading.integers.formal ((monomials.filter fun item => 1 ≤ item.degreeOf single).map
        (Monomial.integerDerivative single 1)) = pderiv single (Reading.integers.formal monomials) := by
  induction monomials with
  | nil => exact (map_zero _).symm
  | cons head rest hypothesis =>
      rw [List.forall_mem_cons] at powers
      rw [Reading.formal_cons, map_add, pderiv_term powers.1, ← hypothesis powers.2, List.filter_cons]
      simp only [decide_eq_true_iff]
      split
      · rfl
      · exact (zero_add _).symm

/-- The derivative of an integer polynomial represents the partial derivative. -/
theorem represents_derivative (integral : polynomial.Integral)
    (oneVariable : polynomial.OneVariable single) :
    Represents (polynomial.derivative 1) (pderiv single polynomial.formal)
      (PowerProduct.lowered single polynomial.support) := by
  have returned := derivative_integers oneVariable integral.integers 1
  refine ⟨_, returned, ⟨?_, (oneVariable.derivative returned).distinct⟩,
    formal_integerDerivatives oneVariable.powers, ?_⟩
  · intro item member
    obtain ⟨old, -, rfl⟩ := List.mem_map.1 member
    exact ⟨_, rfl⟩
  · ext product
    rw [mem_support, PowerProduct.mem_lowered, powersOf, List.map_map, List.mem_map]
    constructor
    · rintro ⟨item, member, rfl⟩
      obtain ⟨present, positive⟩ := List.mem_filter.1 member
      exact ⟨item.powers, mem_support.2 (List.mem_map_of_mem present), of_decide_eq_true positive, rfl⟩
    · rintro ⟨old, member, positive, rfl⟩
      obtain ⟨item, present, rfl⟩ := List.mem_map.1 (mem_support.1 member)
      exact ⟨item, List.mem_filter.2 ⟨present, decide_eq_true positive⟩, rfl⟩

/-- The same where the polynomial has yet to be computed. -/
theorem Represents.derivative {result : Except Fault (Polynomial Number)}
    {form : MvPolynomial Int Int} {support : Finset PowerProduct}
    (represents : Represents result form support)
    (oneVariable : ∀ polynomial, result = .ok polynomial → polynomial.OneVariable single) :
    Represents (do (← result).derivative 1) (pderiv single form)
      (PowerProduct.lowered single support) := by
  obtain ⟨polynomial, rfl, integral, rfl, rfl⟩ := represents
  exact represents_derivative integral (oneVariable polynomial rfl)

/-- The derivative of a sum is the sum of the derivatives, and that of a product follows Leibniz's
rule; on both sides the same powers stay. -/
theorem derivative_arithmetic (single : Int) (first second : Polynomial Number)
    (firstIntegral : first.Integral) (secondIntegral : second.Integral)
    (firstUnivariate : first.univariate = true) (secondUnivariate : second.univariate = true)
    (firstOnly : ∀ var ∈ first.vars, var = single)
    (secondOnly : ∀ var ∈ second.vars, var = single) :
    Agree (do (← first.add second).derivative 1)
        (do (← first.derivative 1).add (← second.derivative 1)) ∧
      Agree (do (← first.mul second).derivative 1)
        (do (← (← first.derivative 1).mul second).add (← first.mul (← second.derivative 1))) := by
  have firstOne : first.OneVariable single :=
    ⟨firstIntegral.distinct, inVariable_of_vars firstOnly, firstUnivariate⟩
  have secondOne : second.OneVariable single :=
    ⟨secondIntegral.distinct, inVariable_of_vars secondOnly, secondUnivariate⟩
  have firstDerivative := represents_derivative firstIntegral firstOne
  have secondDerivative := represents_derivative secondIntegral secondOne
  constructor
  · have sum := (represents_add firstIntegral.covers secondIntegral.covers).derivative
      fun _ returned => firstOne.add secondOne returned
    exact sum.agree (firstDerivative.add secondDerivative) (map_add _ _ _)
      (PowerProduct.lowered_union _ _ _)
  · have product := (represents_mul firstIntegral.covers secondIntegral.covers).derivative
      fun _ returned => firstOne.mul secondOne returned
    have rule := (firstDerivative.mul secondIntegral.represents).add
      (firstIntegral.represents.mul secondDerivative)
    simp only [bind_assoc] at rule
    exact product.agree rule pderiv_mul
      (PowerProduct.lowered_mul firstOne.powers.onlyPowers secondOne.powers.onlyPowers)

/-- The variable two and an integer added to it. -/
def shiftedVariable (shift : Int) : Polynomial Number :=
  ⟨[⟨.integer 1, .power 2 1⟩, ⟨.integer shift, .one⟩], true⟩

theorem integral_shiftedVariable (shift : Int) : (shiftedVariable shift).Integral := by
  constructor
  · intro item member
    rcases List.mem_pair.1 member with rfl | rfl
    · exact ⟨1, rfl⟩
    · exact ⟨shift, rfl⟩
  · change [PowerProduct.power 2 1, .one].Nodup
    decide

/-- The linear terms of the product cancel, and the zero that stays is differentiated to the constant
zero, as which it comes out of the product rule too. -/
theorem derivative_arithmetic_conjugates :
    (shiftedVariable 1).Integral ∧ (shiftedVariable (-1)).Integral ∧
      (∀ var ∈ (shiftedVariable 1).vars, var = 2) ∧ (∀ var ∈ (shiftedVariable (-1)).vars, var = 2) ∧
      (do (← (shiftedVariable 1).mul (shiftedVariable (-1))).derivative 1) =
        .ok ⟨[⟨.integer 2, .power 2 1⟩, ⟨.integer 0, .one⟩], true⟩ ∧
      Agree (do (← (shiftedVariable 1).mul (shiftedVariable (-1))).derivative 1)
        (do (← (← (shiftedVariable 1).derivative 1).mul (shiftedVariable (-1))).add
              (← (shiftedVariable 1).mul (← (shiftedVariable (-1)).derivative 1))) := by
  have plus := integral_shiftedVariable 1
  have minus := integral_shiftedVariable (-1)
  have plusOnly : ∀ var ∈ (shiftedVariable 1).vars, var = 2 := by decide
  have minusOnly : ∀ var ∈ (shiftedVariable (-1)).vars, var = 2 := by decide
  exact ⟨plus, minus, plusOnly, minusOnly, rfl,
    (derivative_arithmetic 2 _ _ plus minus rfl rfl plusOnly minusOnly).2⟩

end Polynomial

end TrigAlgebra
