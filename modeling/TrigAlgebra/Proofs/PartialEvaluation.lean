/-
This file proves that giving integers to some variables is a homomorphism of rings for polynomials
with integer coefficients, and that none of these variables remains.
-/

import Mathlib.Algebra.MvPolynomial.Monad
import TrigAlgebra.Polynomial.Substitution
import TrigAlgebra.Proofs.IntegerArithmetic

namespace TrigAlgebra

open MvPolynomial
open scoped Pointwise

namespace Assignment

/-- Every variable that has a value has an integer. -/
def integers (values : Assignment Int) : Assignment Number := fun var => (values var).map .integer

/-- What the factors with a value contribute to the coefficient. -/
def given (values : Assignment Int) (factors : List Factor) : Int :=
  (factors.map fun factor => (values factor.var).getD 1 ^ factor.power).prod

/-- The factors without a value. -/
def remaining (values : Assignment Int) (product : PowerProduct) : PowerProduct :=
  product.filter fun factor => (values factor.var).isNone

/-- A variable with a value becomes a constant, and any other one stays. -/
noncomputable def image (values : Assignment Int) (var : Int) : MvPolynomial Int Int :=
  (values var).elim (X var) C

noncomputable def substitution (values : Assignment Int) :
    MvPolynomial Int Int →ₐ[Int] MvPolynomial Int Int :=
  bind₁ values.image

end Assignment

/-- The exponents of the factors that are kept. -/
theorem exponentsOf_filter (keep : Int → Bool) (factors : List Factor) :
    exponentsOf (factors.filter fun factor => keep factor.var) =
      (exponentsOf factors).filter fun var => keep var = true := by
  induction factors with
  | nil => exact (Finsupp.filter_zero _).symm
  | cons head rest hypothesis =>
      rw [exponentsOf_cons, Finsupp.filter_add, ← hypothesis, List.filter_cons]
      split
      · rename_i kept
        rw [exponentsOf_cons, Finsupp.filter_single_of_pos (fun var => keep var = true) kept]
      · rename_i dropped
        rw [Finsupp.filter_single_of_neg (fun var => keep var = true) dropped, zero_add]

namespace Assignment

variable (values : Assignment Int)

/-- What remains of a product are the remaining factors of both. -/
theorem remaining_mul (first second : PowerProduct) :
    values.remaining (first.mul second) = (values.remaining first).mul (values.remaining second) := by
  apply PowerProduct.exponents_injective
  have filtered (product : PowerProduct) : (values.remaining product).exponents =
      product.exponents.filter fun var => (values var).isNone = true :=
    exponentsOf_filter (fun var => (values var).isNone) product.factors
  rw [filtered, PowerProduct.exponents_mul, PowerProduct.exponents_mul, Finsupp.filter_add, filtered,
    filtered]

/-- Variables with a value do not remain. -/
theorem not_has_remaining {var : Int} (known : (values var).isSome) (product : PowerProduct) :
    ¬ (values.remaining product).Has var := by
  rintro ⟨factor, member, rfl⟩
  have unknown := (List.mem_filter.1 member).2
  rw [Option.isNone_iff_eq_none] at unknown
  rw [unknown] at known
  cases known

theorem given_cons (head : Factor) (rest : List Factor) :
    values.given (head :: rest) = (values head.var).getD 1 ^ head.power * values.given rest := rfl

/-- Known factors are multiplied into the coefficient. -/
theorem foldValues_integers (coefficient : Int) (factors : List Factor) :
    Monomial.foldValues values.integers (.integer coefficient) factors =
      .ok (.integer (coefficient * values.given factors)) := by
  induction factors generalizing coefficient with
  | nil => exact congrArg (fun value => Except.ok (Number.integer value)) (mul_one coefficient).symm
  | cons head rest hypothesis =>
      rw [given_cons, Monomial.foldValues, integers]
      cases values head.var with
      | none =>
          change Monomial.foldValues values.integers (.integer coefficient) rest = _
          rw [hypothesis, Option.getD_none, one_pow, one_mul]
      | some value =>
          have power : Number.pow (.integer value) head.power = .ok (.integer (value ^ head.power)) := by
            rw [Number.pow, Number.integerPower_eq_pow]
            rfl
          change (do
            let power ← Number.pow (.integer value) head.power
            Monomial.foldValues values.integers (← Number.mul (.integer coefficient) power) rest) = _
          rw [power]
          change Monomial.foldValues values.integers (.integer (coefficient * value ^ head.power)) rest = _
          rw [hypothesis, mul_assoc]
          rfl

/-- The constants that replace variables and the variables that stay make up the whole product. -/
theorem prod_image (factors : List Factor) :
    (factors.map fun factor => values.image factor.var ^ factor.power).prod =
      C (values.given factors) *
        ((factors.filter fun factor => (values factor.var).isNone).map
          fun factor => (X factor.var : MvPolynomial Int Int) ^ factor.power).prod := by
  induction factors with
  | nil => exact (mul_one 1).symm.trans (congrArg (· * 1) C_1.symm)
  | cons head rest hypothesis =>
      rw [List.map_cons, List.prod_cons, hypothesis, given_cons, List.filter_cons, image]
      cases values head.var with
      | none =>
          rw [Option.isNone_none, if_pos rfl, List.map_cons, List.prod_cons, Option.getD_none, one_pow,
            one_mul]
          exact mul_left_comm _ _ _
      | some value =>
          rw [Option.isNone_some, if_neg Bool.false_ne_true, Option.getD_some, C_mul, C_pow, mul_assoc]
          rfl

/-- Substituting into a monomial leaves the free variables. -/
theorem substitution_monomial (powers : PowerProduct) (coefficient : Int) :
    values.substitution (monomial powers.exponents coefficient) =
      monomial (values.remaining powers).exponents (coefficient * values.given powers.factors) := by
  have images := Reading.prod_exponentsOf values.image powers.factors
  have unknowns := Reading.prod_exponentsOf (X : Int → MvPolynomial Int Int)
    (values.remaining powers).factors
  rw [substitution, bind₁_monomial, monomial_eq]
  change C coefficient * (exponentsOf powers.factors).prod (fun var power => values.image var ^ power) =
    _ * (exponentsOf (values.remaining powers).factors).prod fun var power => X var ^ power
  rw [images, unknowns, prod_image, C_mul, mul_assoc]
  rfl

end Assignment

namespace Polynomial

variable {polynomial : Polynomial Number}

/-- No variable with a value occurs. -/
def Free (values : Assignment Int) (polynomial : Polynomial Number) : Prop :=
  ∀ var, (values var).isSome → var ∉ polynomial.vars

/-- Both computations return equal polynomials, in which no variable with a value occurs. -/
def AgreeFree (values : Assignment Int) (first second : Except Fault (Polynomial Number)) : Prop :=
  ∃ left right, first = .ok left ∧ second = .ok right ∧ left.same right = true ∧
    left.Free values ∧ right.Free values

/-- A substituted monomial is the substitution of its term. -/
theorem term_substitute (values : Assignment Int) {item : Monomial Number}
    (exact : Reading.integers.exact item.coefficient) :
    ∃ result, item.substitute values.integers = .ok result ∧
      Reading.integers.exact result.coefficient ∧
      Reading.integers.term result = values.substitution (Reading.integers.term item) := by
  obtain ⟨coefficient, powers⟩ := item
  obtain ⟨value, rfl⟩ := exact
  refine ⟨⟨.integer (value * values.given powers.factors), values.remaining powers⟩, ?_, ⟨_, rfl⟩,
    (values.substitution_monomial powers value).symm⟩
  rw [Monomial.substitute, values.foldValues_integers]
  unfold Assignment.remaining Assignment.integers
  simp only [Option.isNone_map]
  rfl

/-- A substituted list is the substitution of its sum. -/
theorem formal_substitute (values : Assignment Int) (monomials : List (Monomial Number)) :
    (monomials.map fun item => values.substitution (Reading.integers.term item)).sum =
      values.substitution (Reading.integers.formal monomials) := by
  rw [Reading.formal, map_list_sum, List.map_map]
  rfl

/-- Partial evaluation returns the substituted polynomial, and the order of its monomials follows
from their powers alone. -/
theorem exists_evaluatePartial (values : Assignment Int) (integral : polynomial.Integral) :
    ∃ result, polynomial.evaluatePartial values.integers = .ok result ∧ result.Integral ∧
      result.formal = values.substitution polynomial.formal ∧
      powersOf result.monomials =
        ((powersOf polynomial.monomials).map values.remaining).foldl appendNew [] ∧
      result.univariate = isUnivariate result.monomials := by
  obtain ⟨monomials, written, covered, form⟩ :=
    Reading.yields_mapM fun item member => term_substitute values (integral.integers item member)
  obtain ⟨result, returned, integers, resultForm⟩ := Reading.returns_ofMonomials covered
  obtain ⟨merged, mergedCase, rfl⟩ := map_eq_ok.1 returned
  have powers : powersOf monomials = (powersOf polynomial.monomials).map values.remaining := by
    have each : powersOf monomials = polynomial.monomials.map fun item => values.remaining item.powers := by
      refine powersOf_mapM (fun item result substituted => ?_) written
      obtain ⟨coefficient, -, rfl⟩ := map_eq_ok.1 substituted
      change PowerProduct.filter (fun factor => ((values factor.var).map Number.integer).isNone) _ = _
      simp only [Option.isNone_map]
      rfl
    rw [each, powersOf, List.map_map]
    rfl
  refine ⟨⟨merged, isUnivariate merged⟩, bind_eq_ok.2 ⟨monomials, written, returned⟩,
    ⟨integers, nodup_merge mergedCase⟩, ?_, ?_, rfl⟩
  · change Reading.integers.formal merged = _
    rw [resultForm, form, formal_substitute]
    rfl
  · rw [powersOf_merge mergedCase, powers]

/-- A partial evaluation represents the substitution, and has what remains of the products. -/
theorem represents_evaluatePartial (values : Assignment Int) (integral : polynomial.Integral) :
    Represents (polynomial.evaluatePartial values.integers) (values.substitution polynomial.formal)
      (polynomial.support.image values.remaining) := by
  obtain ⟨result, returned, resultIntegral, form, powers, -⟩ := exists_evaluatePartial values integral
  refine ⟨result, returned, resultIntegral, form, ?_⟩
  ext product
  rw [mem_support, powers, mem_foldl_appendNew, or_iff_right List.not_mem_nil, List.mem_map,
    Finset.mem_image]
  simp only [mem_support]

/-- A computation returns, and then the partial evaluation of what it returns does. -/
theorem Represents.evaluatePartial {result : Except Fault (Polynomial Number)}
    {form : MvPolynomial Int Int} {support : Finset PowerProduct}
    (represents : Represents result form support) (values : Assignment Int) :
    Represents (do (← result).evaluatePartial values.integers) (values.substitution form)
      (support.image values.remaining) := by
  obtain ⟨polynomial, rfl, integral, rfl, rfl⟩ := represents
  exact represents_evaluatePartial values integral

/-- Variables with a value do not occur afterwards. -/
theorem free_of_support {values : Assignment Int}
    (remains : ∀ product ∈ polynomial.support, ∃ old, values.remaining old = product) :
    polynomial.Free values := by
  intro var known member
  obtain ⟨product, isProduct, has⟩ := mem_vars.1 member
  obtain ⟨old, rfl⟩ := remains product (mem_support.2 isProduct)
  exact values.not_has_remaining known old has

/-- Two computations that stand for the same evaluated polynomial agree. -/
theorem Represents.agreeFree {first second : Except Fault (Polynomial Number)}
    {firstForm secondForm : MvPolynomial Int Int} {firstSupport secondSupport : Finset PowerProduct}
    {values : Assignment Int} (firstRepresents : Represents first firstForm
      (firstSupport.image values.remaining))
    (secondRepresents : Represents second secondForm secondSupport) (forms : firstForm = secondForm)
    (supports : firstSupport.image values.remaining = secondSupport) :
    AgreeFree values first second := by
  obtain ⟨left, right, firstCase, secondCase, same⟩ :=
    firstRepresents.agree secondRepresents forms supports
  obtain ⟨_, leftCase, -, -, leftSupport⟩ := firstRepresents
  obtain ⟨_, rightCase, -, -, rightSupport⟩ := secondRepresents
  cases firstCase.symm.trans leftCase
  cases secondCase.symm.trans rightCase
  have remains : ∀ product ∈ firstSupport.image values.remaining,
      ∃ old, values.remaining old = product := by
    intro product member
    obtain ⟨old, -, same⟩ := Finset.mem_image.1 member
    exact ⟨old, same⟩
  refine ⟨left, right, firstCase, secondCase, same, free_of_support ?_, free_of_support ?_⟩
  · rw [leftSupport]
    exact remains
  · rw [rightSupport, ← supports]
    exact remains

/-- What remains of all products are the products of what remains. -/
theorem image_remaining_mul (values : Assignment Int) (first second : Finset PowerProduct) :
    (first * second).image values.remaining =
      first.image values.remaining * second.image values.remaining := by
  ext product
  simp only [Finset.mem_image, Finset.mem_mul]
  constructor
  · rintro ⟨_, ⟨left, isLeft, right, isRight, rfl⟩, rfl⟩
    exact ⟨_, ⟨left, isLeft, rfl⟩, _, ⟨right, isRight, rfl⟩, (values.remaining_mul left right).symm⟩
  · rintro ⟨_, ⟨left, isLeft, rfl⟩, _, ⟨right, isRight, rfl⟩, rfl⟩
    exact ⟨_, ⟨left, isLeft, right, isRight, rfl⟩, values.remaining_mul left right⟩

/-- Partial evaluation commutes with sums, differences, products and negation, and none of the
variables with a value remains. -/
theorem evaluatePartial_arithmetic (values : Assignment Int) (first second : Polynomial Number)
    (firstIntegral : first.Integral) (secondIntegral : second.Integral) :
    AgreeFree values (do (← first.add second).evaluatePartial values.integers)
      (do (← first.evaluatePartial values.integers).add (← second.evaluatePartial values.integers)) ∧
    AgreeFree values (do (← first.sub second).evaluatePartial values.integers)
      (do (← first.evaluatePartial values.integers).sub (← second.evaluatePartial values.integers)) ∧
    AgreeFree values (do (← first.mul second).evaluatePartial values.integers)
      (do (← first.evaluatePartial values.integers).mul (← second.evaluatePartial values.integers)) ∧
    AgreeFree values (first.neg.evaluatePartial values.integers)
      (do return (← first.evaluatePartial values.integers).neg) := by
  have one := represents_evaluatePartial values firstIntegral
  have two := represents_evaluatePartial values secondIntegral
  refine ⟨?_, ?_, ?_, ?_⟩
  · exact ((represents_add firstIntegral.covers secondIntegral.covers).evaluatePartial values).agreeFree
      (one.add two) (map_add _ _ _) (Finset.image_union _ _)
  · exact ((represents_sub firstIntegral.covers secondIntegral.covers).evaluatePartial values).agreeFree
      (one.sub two) (map_sub _ _ _) (Finset.image_union _ _)
  · exact ((represents_mul firstIntegral.covers secondIntegral.covers).evaluatePartial values).agreeFree
      (one.mul two) (map_mul _ _ _) (image_remaining_mul values _ _)
  · exact ((represents_neg firstIntegral).evaluatePartial values).agreeFree one.neg (map_neg _ _) rfl

/-- With a value for one of the two variables, the mixed products that cancel stay as a monomial in
the other variable. -/
theorem evaluatePartial_arithmetic_conjugates :
    let values : Assignment Int := Assignment.empty.set 2 3
    let other := PowerProduct.ofFactor (.linear 4)
    (binomial 1 1).Integral ∧ (binomial 1 (-1)).Integral ∧
      ∃ left right,
        (do
          let product ← (binomial 1 1).mul (binomial 1 (-1))
          product.evaluatePartial values.integers) = .ok left ∧
        (do
          let plus ← (binomial 1 1).evaluatePartial values.integers
          plus.mul (← (binomial 1 (-1)).evaluatePartial values.integers)) = .ok right ∧
        left.same right = true ∧ left.coefficientAt other = 0 ∧ other ∈ left.support := by
  have plus := integral_binomial 1 1
  have minus := integral_binomial 1 (-1)
  obtain ⟨-, -, ⟨left, right, leftCase, rightCase, same, -⟩, -⟩ :=
    evaluatePartial_arithmetic (Assignment.empty.set 2 3) _ _ plus minus
  refine ⟨plus, minus, left, right, leftCase, rightCase, same, ?_⟩
  cases leftCase
  decide

end Polynomial

end TrigAlgebra
