/-
This file takes coefficients from a commutative ring: every polynomial then has a value at a point,
which the evaluation returns and which the operations on polynomials respect.
-/

import TrigAlgebra.Polynomial.Substitution
import TrigAlgebra.Proofs.FormalPolynomial

namespace TrigAlgebra

open MvPolynomial

/-- The arithmetic of the coefficients is that of a ring and never rounds or fails. -/
class RingCoefficient (R : Type) [CommRing R] [Coefficient R] : Prop where
  zero_eq : (Coefficient.zero : R) = 0
  one_eq : (Coefficient.one : R) = 1
  ofInt_eq : ∀ integer : Int, (Coefficient.ofInt integer : R) = integer
  add_eq : ∀ first second : R, Coefficient.add first second = .ok (first + second)
  mul_eq : ∀ first second : R, Coefficient.mul first second = .ok (first * second)
  pow_eq : ∀ (base : R) (exponent : Nat), Coefficient.pow base exponent = .ok (base ^ exponent)
  neg_eq : ∀ value : R, Coefficient.neg value = -value
  same_iff : ∀ {first second : R}, Coefficient.same first second = true ↔ first = second
  integer_eq : ∀ {value : R} {integer : Int},
    Coefficient.integer? value = .ok (some integer) → value = integer

variable {R : Type} [CommRing R] [Coefficient R] [RingCoefficient R]

/-- Every element of the ring stands for itself. -/
def Reading.ring : Reading R R where
  exact _ := True
  value := id
  exact_add _ _ := ⟨_, RingCoefficient.add_eq _ _, trivial, rfl⟩
  exact_mul _ _ := ⟨_, RingCoefficient.mul_eq _ _, trivial, rfl⟩
  exact_neg _ := trivial
  value_neg _ := RingCoefficient.neg_eq _
  same_iff _ _ := RingCoefficient.same_iff

theorem Reading.covers_ring (monomials : List (Monomial R)) : Reading.ring.Covers monomials :=
  fun _ _ => trivial

theorem isZero_iff {value : R} : Coefficient.isZero value = true ↔ value = 0 := by
  unfold Coefficient.isZero
  rw [RingCoefficient.same_iff, RingCoefficient.ofInt_eq, Int.cast_zero]

namespace Polynomial

/-- The value of a polynomial where every variable has one. -/
noncomputable def valueAt (point : Int → R) (polynomial : Polynomial R) : R :=
  eval point (Reading.ring.formal polynomial.monomials)

variable {point : Int → R}

/-- What stands for a formal polynomial has its value. -/
theorem valueAt_of_returns {result : Except Fault (Polynomial R)} {form : MvPolynomial Int R}
    (returns : Reading.ring.Returns result form) {polynomial : Polynomial R}
    (returned : result = .ok polynomial) : polynomial.valueAt point = eval point form := by
  rw [returned] at returns
  rw [valueAt, returns.of_ok.2]

theorem valueAt_nil {polynomial : Polynomial R} (empty : polynomial.monomials = []) :
    polynomial.valueAt point = 0 := by
  rw [valueAt, empty, Reading.formal_nil, map_zero]

/-- The value of a single monomial. -/
theorem valueAt_singleton {polynomial : Polynomial R} {item : Monomial R}
    (shape : polynomial.monomials = [item]) : polynomial.valueAt point =
      item.coefficient * (item.powers.factors.map fun factor => point factor.var ^ factor.power).prod := by
  rw [valueAt, shape, Reading.formal_cons, Reading.formal_nil, add_zero, Reading.eval_term]
  rfl

theorem valueAt_constant (value : R) : (constant value).valueAt point = value := by
  rw [valueAt_singleton rfl]
  exact mul_one value

theorem valueAt_ofMonomials {monomials : List (Monomial R)} {polynomial : Polynomial R}
    (returned : ofMonomials monomials = .ok polynomial) :
    polynomial.valueAt point = eval point (Reading.ring.formal monomials) :=
  valueAt_of_returns (Reading.returns_ofMonomials (Reading.covers_ring _)) returned

/-- A variable has its value at the point. -/
theorem valueAt_ofVariable {var : Int} {coefficient : R} {polynomial : Polynomial R}
    (returned : ofVariable var coefficient = .ok polynomial) :
    polynomial.valueAt point = coefficient * point var := by
  have power : ([Factor.linear var].map fun factor => point factor.var ^ factor.power).prod =
      point var := by
    rw [List.map_singleton, List.prod_singleton]
    exact pow_one _
  rw [valueAt_ofMonomials returned, Reading.formal_cons, Reading.formal_nil, add_zero,
    Reading.eval_term]
  exact congrArg _ power

/-- A renamed polynomial has the value at the point where the old variable is the new one. -/
theorem valueAt_rename {old new : Int} {polynomial renamed : Polynomial R}
    (returned : polynomial.rename old new = .ok renamed) : renamed.valueAt point =
      polynomial.valueAt fun var => point (if var = old then new else var) := by
  have returns := Reading.returns_mergeFrom polynomial
    (Reading.covers_ring (polynomial.monomials.map (Monomial.rename old new)))
  rw [valueAt_of_returns returns returned, valueAt]
  induction polynomial.monomials with
  | nil => rw [List.map_nil, Reading.formal_nil, map_zero, map_zero]
  | cons head rest hypothesis =>
      have headTerm : eval point (Reading.ring.term (head.rename old new)) =
          eval (fun var => point (if var = old then new else var)) (Reading.ring.term head) := by
        rw [Reading.term, eval_monomial, Monomial.rename, PowerProduct.rename,
          PowerProduct.exponents_ofFactors, Reading.prod_exponentsOf, Reading.eval_term, List.map_map]
        rfl
      rw [List.map_cons, Reading.formal_cons, Reading.formal_cons, map_add, map_add, headTerm, hypothesis]

/-- The value of a sum is the sum of the values. -/
theorem valueAt_add {first second sum : Polynomial R} (returned : first.add second = .ok sum) :
    sum.valueAt point = first.valueAt point + second.valueAt point := by
  rw [valueAt_of_returns (Reading.returns_add (Reading.covers_ring _) (Reading.covers_ring _)) returned,
    map_add]
  rfl

/-- The value of a difference is the difference of the values. -/
theorem valueAt_sub {first second difference : Polynomial R}
    (returned : first.sub second = .ok difference) :
    difference.valueAt point = first.valueAt point - second.valueAt point := by
  rw [valueAt_of_returns (Reading.returns_sub (Reading.covers_ring _) (Reading.covers_ring _)) returned,
    map_sub]
  rfl

/-- The value of a product is the product of the values. -/
theorem valueAt_mul {first second product : Polynomial R}
    (returned : first.mul second = .ok product) :
    product.valueAt point = first.valueAt point * second.valueAt point := by
  rw [valueAt_of_returns (Reading.returns_mul (Reading.covers_ring _) (Reading.covers_ring _)) returned,
    map_mul]
  rfl

/-- A scalar multiplies the value. -/
theorem valueAt_scale {polynomial scaled : Polynomial R} {scalar : R}
    (returned : polynomial.scale scalar = .ok scaled) :
    scaled.valueAt point = polynomial.valueAt point * scalar := by
  rw [valueAt_of_returns (Reading.returns_scale (Reading.covers_ring _) trivial) returned, map_mul,
    eval_C]
  rfl

/-- The negative has the negative value. -/
theorem valueAt_neg (polynomial : Polynomial R) :
    polynomial.neg.valueAt point = -polynomial.valueAt point := by
  change eval point (Reading.ring.formal (negated polynomial.monomials)) = _
  rw [Reading.formal_negated (Reading.covers_ring _), map_neg]
  rfl

/-- Factors are multiplied to the result one by one. -/
theorem evaluateFactors_eq (result : R) (factors : List Factor) :
    Monomial.evaluateFactors (fun var => some (point var)) result factors =
      .ok (result * (factors.map fun factor => point factor.var ^ factor.power).prod) := by
  induction factors generalizing result with
  | nil =>
      rw [List.map_nil, List.prod_nil, mul_one]
      rfl
  | cons head rest hypothesis =>
      simp only [Monomial.evaluateFactors, RingCoefficient.pow_eq, RingCoefficient.mul_eq]
      rw [List.map_cons, List.prod_cons, ← mul_assoc]
      exact hypothesis (result * point head.var ^ head.power)

/-- Monomials are added to the result one by one. -/
theorem sumValues_eq (result : R) (monomials : List (Monomial R)) :
    sumValues (fun var => some (point var)) result monomials =
      .ok (result + eval point (Reading.ring.formal monomials)) := by
  induction monomials generalizing result with
  | nil =>
      rw [Reading.formal_nil, map_zero, add_zero]
      rfl
  | cons head rest hypothesis =>
      simp only [sumValues, Monomial.evaluate, evaluateFactors_eq, RingCoefficient.add_eq]
      rw [Reading.formal_cons, map_add, Reading.eval_term, ← add_assoc]
      exact hypothesis _

/-- The evaluation at a point that gives every variable a value returns the value there. -/
theorem evaluate_eq (polynomial : Polynomial R) :
    polynomial.evaluate (fun var => some (point var)) = .ok (polynomial.valueAt point) := by
  have complete : (polynomial.vars.filter fun var => (some (point var)).isNone) = [] := by simp
  unfold evaluate
  rw [complete]
  change sumValues _ Coefficient.zero polynomial.monomials = _
  rw [sumValues_eq, RingCoefficient.zero_eq, zero_add]
  rfl

end Polynomial

end TrigAlgebra
