/-
This file proves that the derivative of a polynomial in one variable treats each monomial on its own,
in the order of the monomials, and that derivatives of derivatives are those of a higher order.
-/

import Mathlib.Data.Nat.Factorial.Basic
import TrigAlgebra.DenseVector.Basic
import TrigAlgebra.Number.Coefficient
import TrigAlgebra.Proofs.OneVariable

namespace TrigAlgebra

section Sequences

variable {A B C : Type}

/-- Steps that pass over some parts are steps on the parts that are chosen. -/
theorem mapM_filterMap {step : A → Except Fault (Option B)} {chosen : A → Bool}
    {change : A → Except Fault B} {list : List A}
    (each : ∀ part ∈ list, step part = if chosen part then (change part).map some else .ok none) :
    (list.mapM step).map (List.filterMap id) = (list.filter chosen).mapM change := by
  induction list with
  | nil => rfl
  | cons head rest hypothesis =>
      rw [List.forall_mem_cons] at each
      rw [List.mapM_cons, each.1, List.filter_cons]
      split
      · rw [List.mapM_cons, ← hypothesis each.2]
        cases change head with
        | error fault => rfl
        | ok value => cases rest.mapM step <;> rfl
      · rw [← hypothesis each.2]
        cases rest.mapM step <;> rfl

/-- Two lists on which the steps go the same way, part by part. -/
theorem mapM_eq_mapM {step : A → Except Fault C} {otherStep : B → Except Fault C} {list : List A}
    {others : List B}
    (same : List.Forall₂ (fun part other => step part = otherStep other) list others) :
    list.mapM step = others.mapM otherStep := by
  induction same with
  | nil => rfl
  | cons head _ hypothesis => rw [List.mapM_cons, List.mapM_cons, head, hypothesis]

end Sequences

namespace Monomial

variable {K : Type} [Coefficient K] {single : Int}

/-- One more factor, one less in the power. -/
theorem fallingProduct_succ (coefficient : K) (power order : Nat) :
    fallingProduct coefficient power (order + 1) =
      Coefficient.mul coefficient (Coefficient.ofInt power) >>= fun product =>
        fallingProduct product (power - 1) order := rfl

/-- The factors of a higher order follow those of a lower one. -/
theorem fallingProduct_add (coefficient : K) (power order more : Nat) :
    fallingProduct coefficient power (order + more) =
      fallingProduct coefficient power order >>= fun product =>
        fallingProduct product (power - order) more := by
  induction order generalizing coefficient power with
  | zero => rw [Nat.zero_add]; rfl
  | succ order hypothesis =>
      rw [Nat.add_right_comm, fallingProduct_succ, fallingProduct_succ, bind_assoc]
      congr 1
      funext product
      rw [hypothesis, Nat.sub_sub, Nat.add_comm 1 order]

/-- The derivative of a power of the variable that is high enough. -/
def derived (single : Int) (order : Nat) (item : Monomial K) : Except Fault (Monomial K) :=
  (fallingProduct item.coefficient item.powers.leadingPower order).map fun coefficient =>
    ⟨coefficient, .power single (item.powers.leadingPower - order)⟩

/-- Differentiation lowers the power by the order. -/
theorem powers_derived {order : Nat} {item result : Monomial K}
    (returned : item.derived single order = .ok result) :
    result.powers = .power single (item.powers.leadingPower - order) := by
  obtain ⟨coefficient, -, rfl⟩ := map_eq_ok.1 returned
  rfl

/-- The derivative of order zero is the monomial itself. -/
theorem derived_zero {item : Monomial K}
    (powers : item.powers = .power single item.powers.leadingPower) :
    item.derived single 0 = .ok item := by
  change Except.ok (Monomial.mk item.coefficient (.power single item.powers.leadingPower)) = _
  rw [← powers]

/-- Orders of derivatives are added. -/
theorem derived_derived {order more : Nat} {item result : Monomial K}
    (returned : item.derived single order = .ok result) :
    result.derived single more = item.derived single (order + more) := by
  obtain ⟨coefficient, product, rfl⟩ := map_eq_ok.1 returned
  unfold derived
  rw [fallingProduct_add, product, PowerProduct.leadingPower_power, Nat.sub_sub]
  rfl

/-- Monomials of too small a power vanish. -/
theorem derivative?_eq {order : Nat} (positive : 0 < order) {item : Monomial K}
    (powers : item.powers = .power single item.powers.leadingPower) :
    item.derivative? order = if order ≤ item.powers.leadingPower then
      (item.derived single order).map some else .ok none := by
  obtain ⟨coefficient, power, rfl⟩ := exists_power powers
  unfold derived
  rw [PowerProduct.leadingPower_power]
  cases power with
  | zero => rw [if_neg (Nat.not_le_of_lt positive)]; rfl
  | succ power =>
      change (if power + 1 < order then Except.ok none else _) = _
      by_cases low : power + 1 < order
      · rw [if_pos low, if_neg (Nat.not_le_of_lt low)]
      · rw [if_neg low, if_pos (Nat.le_of_not_lt low)]
        cases fallingProduct coefficient (power + 1) order <;> rfl

end Monomial

namespace Polynomial

variable {K : Type} [Coefficient K] {polynomial : Polynomial K} {single : Int}

/-- The monomials that the derivative keeps. -/
def ofOrder (order : Nat) (monomials : List (Monomial K)) : List (Monomial K) :=
  monomials.filter fun item => order ≤ item.powers.leadingPower

omit [Coefficient K] in
/-- Monomials that survive so many derivatives. -/
theorem mem_ofOrder {order : Nat} {monomials : List (Monomial K)} {item : Monomial K} :
    item ∈ ofOrder order monomials ↔ item ∈ monomials ∧ order ≤ item.powers.leadingPower := by
  rw [ofOrder, List.mem_filter, decide_eq_true_iff]

/-- Derivatives have the same single variable. -/
theorem OneVariable.of_derived {order : Nat} {monomials : List (Monomial K)}
    (oneVariable : polynomial.OneVariable single)
    (returned : (ofOrder order polynomial.monomials).mapM (Monomial.derived single order) =
      .ok monomials) : (⟨monomials, true⟩ : Polynomial K).OneVariable single := by
  have exponents : ((ofOrder order polynomial.monomials).map
      fun item => item.powers.leadingPower).Nodup :=
    (nodup_leadingPowers oneVariable.distinct oneVariable.powers).sublist (List.filter_sublist.map _)
  have high : ∀ exponent ∈ (ofOrder order polynomial.monomials).map
      (fun item => item.powers.leadingPower), order ≤ exponent :=
    List.forall_mem_map.2 fun item member => (mem_ofOrder.1 member).2
  have written : powersOf monomials = (((ofOrder order polynomial.monomials).map
      fun item => item.powers.leadingPower).map fun exponent => exponent - order).map
        (PowerProduct.power single) := by
    rw [powersOf_mapM (fun _ _ => Monomial.powers_derived) returned, List.map_map, List.map_map]
    rfl
  refine .of_exponents written (exponents.map_on fun first isFirst second isSecond same => ?_)
  have firstHigh := high first isFirst
  have secondHigh := high second isSecond
  omega

/-- The derivative of order zero is the polynomial itself. -/
theorem derivative_zero (univariate : polynomial.univariate = true) :
    polynomial.derivative 0 = .ok polynomial := by
  rw [derivative, requireUnivariate, univariate]
  rfl

/-- Higher derivatives drop what vanishes. -/
theorem derivative_succ (univariate : polynomial.univariate = true) (order : Nat) :
    polynomial.derivative (order + 1 : Nat) =
      (polynomial.monomials.mapM (Monomial.derivative? (order + 1))).map (List.filterMap id) >>=
        ofMonomials := by
  rw [derivative, requireUnivariate, univariate]
  change (polynomial.monomials.mapM (Monomial.derivative? (order + 1)) >>= fun monomials =>
    ofMonomials (monomials.filterMap id)) = _
  cases polynomial.monomials.mapM (Monomial.derivative? (order + 1)) <;> rfl

theorem mapM_derived_zero (oneVariable : polynomial.OneVariable single) :
    (ofOrder 0 polynomial.monomials).mapM (Monomial.derived single 0) = .ok polynomial.monomials := by
  have all : ofOrder 0 polynomial.monomials = polynomial.monomials :=
    List.filter_eq_self.2 fun _ _ => decide_eq_true (Nat.zero_le _)
  rw [all]
  exact mapM_eq_ok.2 (List.forall₂_same.2 fun item member =>
    Monomial.derived_zero (oneVariable.powers item member))

/-- Differentiation keeps the monomials of the order and treats each of them on its own; nothing is
left to be merged. -/
theorem derivative_eq (oneVariable : polynomial.OneVariable single) (order : Nat) :
    polynomial.derivative order =
      ((ofOrder order polynomial.monomials).mapM (Monomial.derived single order)).map
        fun monomials => ⟨monomials, true⟩ := by
  cases order with
  | zero =>
      rw [mapM_derived_zero oneVariable]
      change polynomial.derivative 0 = .ok ⟨polynomial.monomials, true⟩
      rw [derivative_zero oneVariable.flagged, ← oneVariable.flagged]
  | succ order =>
      have each : ∀ item ∈ polynomial.monomials, item.derivative? (order + 1) =
          if decide (order + 1 ≤ item.powers.leadingPower) = true then
            (item.derived single (order + 1)).map some else .ok none := by
        intro item member
        simp only [decide_eq_true_iff]
        exact Monomial.derivative?_eq order.succ_pos (oneVariable.powers item member)
      rw [derivative_succ oneVariable.flagged, mapM_filterMap each]
      change (ofOrder (order + 1) polynomial.monomials).mapM (Monomial.derived single (order + 1)) >>=
        ofMonomials = _
      cases returned : (ofOrder (order + 1) polynomial.monomials).mapM
          (Monomial.derived single (order + 1)) with
      | error fault => rfl
      | ok monomials => exact (oneVariable.of_derived returned).ofMonomials_eq

/-- A derivative is returned if all surviving monomials are derived. -/
theorem derivative_eq_ok (oneVariable : polynomial.OneVariable single) {order : Nat}
    {result : Polynomial K} : polynomial.derivative order = .ok result ↔
      (ofOrder order polynomial.monomials).mapM (Monomial.derived single order) =
          .ok result.monomials ∧ result.univariate = true := by
  rw [derivative_eq oneVariable, map_eq_ok]
  constructor
  · rintro ⟨monomials, written, rfl⟩
    exact ⟨written, rfl⟩
  · rintro ⟨written, flagged⟩
    exact ⟨result.monomials, written, by rw [← flagged]⟩

/-- A polynomial in one variable has derivatives in it. -/
theorem OneVariable.derivative (oneVariable : polynomial.OneVariable single) {order : Nat}
    {result : Polynomial K} (returned : polynomial.derivative order = .ok result) :
    result.OneVariable single := by
  obtain ⟨written, flagged⟩ := (derivative_eq_ok oneVariable).1 returned
  obtain ⟨distinct, powers, -⟩ := oneVariable.of_derived written
  exact ⟨distinct, powers, flagged⟩

/-- Once the first derivative is there, the further one does what is left of both orders. -/
theorem derivative_derivative (oneVariable : polynomial.OneVariable single) {order more : Nat}
    {first : Polynomial K} (returned : polynomial.derivative order = .ok first) :
    first.derivative more = polynomial.derivative (order + more : Nat) := by
  rw [derivative_eq (oneVariable.derivative returned), derivative_eq oneVariable]
  have kept : ofOrder (order + more) polynomial.monomials =
      (ofOrder order polynomial.monomials).filter
        fun item => order + more ≤ item.powers.leadingPower := by
    rw [ofOrder, ofOrder, List.filter_filter]
    refine List.filter_congr fun item _ => ?_
    rw [← Bool.decide_and, decide_eq_decide]
    omega
  have related := (List.forall₂_and_left _ _).2 ⟨fun item member => (mem_ofOrder.1 member).2,
    mapM_eq_ok.1 ((derivative_eq_ok oneVariable).1 returned).1⟩
  -- An exponent below both orders together is lost at the second derivative, if not at the first.
  have chosen {item result : Monomial K}
      (step : order ≤ item.powers.leadingPower ∧ item.derived single order = .ok result) :
      decide (order + more ≤ item.powers.leadingPower) = true ↔
        decide (more ≤ result.powers.leadingPower) = true := by
    obtain ⟨high, derived⟩ := step
    rw [Monomial.powers_derived derived, PowerProduct.leadingPower_power, decide_eq_true_iff,
      decide_eq_true_iff]
    omega
  have further := List.rel_filter (fun _ _ step => chosen step) related
  rw [kept]
  refine congrArg _ (mapM_eq_mapM (further.imp fun item result step => ?_)).symm
  exact (Monomial.derived_derived step.2).symm

end Polynomial

namespace Monomial

/-- Integers are multiplied by a falling factorial. -/
theorem fallingProduct_integer (coefficient : Int) (power order : Nat) :
    fallingProduct (Number.integer coefficient) power order =
      .ok (.integer (coefficient * power.descFactorial order)) := by
  induction order generalizing coefficient power with
  | zero => rw [Nat.descFactorial_zero, Nat.cast_one, Int.mul_one]; rfl
  | succ order hypothesis =>
      change fallingProduct (Number.integer (coefficient * power)) (power - 1) order = _
      rw [hypothesis]
      cases power with
      | zero => rw [Nat.zero_descFactorial_succ, Nat.cast_zero, Int.mul_zero, Int.zero_mul]
      | succ power =>
          rw [Nat.succ_descFactorial_succ, Nat.cast_mul, Int.mul_assoc, Nat.add_sub_cancel]

/-- The derivative of an integer multiple of a power: the exponent and those below it become
factors, as many as the order says. -/
def integerDerivative (single : Int) (order : Nat) (item : Monomial Number) : Monomial Number :=
  ⟨.integer (item.coefficient.asInteger?.getD 0 * (item.degreeOf single).descFactorial order),
    .power single (item.degreeOf single - order)⟩

end Monomial

namespace Polynomial

variable {polynomial : Polynomial Number} {single : Int}

/-- The derivative of an integer polynomial in closed form. -/
theorem derivative_integers (oneVariable : polynomial.OneVariable single)
    (integers : ∀ item ∈ polynomial.monomials, ∃ value, item.coefficient = .integer value)
    (order : Nat) : polynomial.derivative order = .ok
      ⟨(polynomial.monomials.filter fun item => order ≤ item.degreeOf single).map
        (Monomial.integerDerivative single order), true⟩ := by
  have kept : ofOrder order polynomial.monomials =
      polynomial.monomials.filter fun item => order ≤ item.degreeOf single :=
    List.filter_congr fun item member => by rw [oneVariable.powers.leadingPower_eq member]
  rw [derivative_eq_ok oneVariable, kept]
  refine ⟨mapM_eq_ok.2 (List.forall₂_map_right_iff.2 (List.forall₂_same.2 fun item member => ?_)), rfl⟩
  have present := List.mem_of_mem_filter member
  obtain ⟨value, integer⟩ := integers item present
  rw [Monomial.derived, Monomial.integerDerivative, oneVariable.powers.leadingPower_eq present,
    integer, Monomial.fallingProduct_integer]
  rfl

/-- A derivative of a derivative is the derivative of the added orders, whether it returns or fails;
with integer coefficients each monomial of at least the order gives one of the derivative, in the same
order. -/
theorem derivative_orders (polynomial : Polynomial Number) (reachable : polynomial.Reachable)
    (named : noVariable ∉ polynomial.vars) (univariate : polynomial.univariate = true) :
    (∀ (order more : Nat) (first : Polynomial Number), polynomial.derivative order = .ok first →
      first.derivative more = polynomial.derivative (order + more : Nat)) ∧
    ((∀ item ∈ polynomial.monomials, ∃ value, item.coefficient = .integer value) →
      ∀ single, (∀ var ∈ polynomial.vars, var = single) → ∀ order : Nat,
        ∃ result, polynomial.derivative order = .ok result ∧ result.monomials =
          (polynomial.monomials.filter fun item => order ≤ item.degreeOf single).map
            (Monomial.integerDerivative single order)) := by
  constructor
  · intro order more first returned
    obtain ⟨single, oneVariable⟩ := exists_oneVariable reachable named univariate
    exact derivative_derivative oneVariable returned
  · intro integers single only order
    have oneVariable : polynomial.OneVariable single :=
      ⟨reachable.settled.distinct, inVariable_of_vars only, univariate⟩
    exact ⟨_, derivative_integers oneVariable integers order, rfl⟩

/-- A cubic without a square, with a zero that is kept and a constant. -/
def gappedCubic : Polynomial Number :=
  ⟨[⟨.integer 5, .power 2 3⟩, ⟨.integer 0, .power 2 1⟩, ⟨.integer 7, .one⟩], true⟩

theorem derivative_orders_gappedCubic :
    gappedCubic.Reachable ∧ noVariable ∉ gappedCubic.vars ∧ gappedCubic.univariate = true ∧
      gappedCubic.derivative 1 =
        .ok ⟨[⟨.integer 15, .power 2 2⟩, ⟨.integer 0, .one⟩], true⟩ ∧
      (do (← gappedCubic.derivative 1).derivative 2) = gappedCubic.derivative 3 ∧
      ∃ result, gappedCubic.derivative 3 = .ok result ∧
        result.monomials = [⟨.integer 30, .one⟩] := by
  have merged : ofMonomials gappedCubic.monomials = .ok gappedCubic := rfl
  have named : noVariable ∉ gappedCubic.vars := by decide
  have orders := derivative_orders gappedCubic (.ofMonomials merged) named rfl
  have integers : ∀ item ∈ gappedCubic.monomials, ∃ value, item.coefficient = .integer value := by
    intro item member
    rcases List.mem_cons.1 member with rfl | later
    · exact ⟨5, rfl⟩
    · rcases List.mem_pair.1 later with rfl | rfl
      · exact ⟨0, rfl⟩
      · exact ⟨7, rfl⟩
  have first : gappedCubic.derivative 1 =
      .ok ⟨[⟨.integer 15, .power 2 2⟩, ⟨.integer 0, .one⟩], true⟩ := rfl
  refine ⟨.ofMonomials merged, named, rfl, first, ?_, ?_⟩
  · rw [first]
    exact orders.1 1 2 _ first
  · exact orders.2 integers 2 (by decide) 3

end Polynomial

end TrigAlgebra
