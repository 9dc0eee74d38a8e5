/-
This file proves that the expansion of the sine or cosine of a sum has the value of the sine or
cosine of the sum's value, for any functions that obey the addition theorems.
-/

import Mathlib.Tactic.Ring
import TrigAlgebra.Proofs.Expansion
import TrigAlgebra.Proofs.RingCoefficients

namespace TrigAlgebra

open TrigAlgebra.Polynomial TrigPolynomial

/-- The sine and cosine of the coefficients obey the addition theorems. Their values at zero are not
asked for: the expansion computes them like any other. -/
structure CircularFunctions (R : Type) [CommRing R] [Coefficient R] where
  sine : R → R
  cosine : R → R
  computed_sine : ∀ angle, Coefficient.circular .sine angle = .ok (sine angle)
  computed_cosine : ∀ angle, Coefficient.circular .cosine angle = .ok (cosine angle)
  sine_neg : ∀ angle, sine (-angle) = -sine angle
  cosine_neg : ∀ angle, cosine (-angle) = cosine angle
  sine_add : ∀ first second,
    sine (first + second) = sine first * cosine second + cosine first * sine second
  cosine_add : ∀ first second,
    cosine (first + second) = cosine first * cosine second - sine first * sine second

namespace CircularFunctions

variable {R : Type} [CommRing R] [Coefficient R]

section

variable (functions : CircularFunctions R)

def of : Circular → R → R
  | .sine => functions.sine
  | .cosine => functions.cosine

theorem computed (function : Circular) (angle : R) :
    Coefficient.circular function angle = .ok (functions.of function angle) := by
  cases function with
  | sine => exact functions.computed_sine angle
  | cosine => exact functions.computed_cosine angle

/-- The placeholders of every variable of the argument have the sine and cosine of its value. -/
def Placed (point : Int → R) (trig : TrigPolynomial R) : Prop :=
  ∀ var ∈ trig.polynomial.vars, ∀ found, trig.angles.find? var = some found →
    point found.sine = functions.sine (point var) ∧ point found.cosine = functions.cosine (point var)

/-- Two polynomials have the values of the sine and the cosine of an angle. -/
structure Fits [RingCoefficient R] (point : Int → R) (angle : R)
    (pair : TrigPolynomial R × TrigPolynomial R) : Prop where
  sine : pair.1.polynomial.valueAt point = functions.sine angle
  cosine : pair.2.polynomial.valueAt point = functions.cosine angle

end

variable {functions : CircularFunctions R}

theorem Placed.of {point : Int → R} {trig : TrigPolynomial R} (placed : functions.Placed point trig)
    {var : Int} (member : var ∈ trig.polynomial.vars) {found : Placeholders}
    (known : trig.angles.find? var = some found) (function : Circular) :
    point (found.of function) = functions.of function (point var) := by
  obtain ⟨sine, cosine⟩ := placed var member found known
  cases function with
  | sine => exact sine
  | cosine => exact cosine

variable [RingCoefficient R] {point : Int → R}

/-- One addition of an angle takes a multiple of it to the next one. -/
theorem fits_addAngle {sine cosine : TrigPolynomial R}
    {multiple next : TrigPolynomial R × TrigPolynomial R}
    {first second : R} (angle : functions.Fits point second (sine, cosine))
    (before : functions.Fits point first multiple)
    (returned : addAngle sine cosine multiple = .ok next) :
    functions.Fits point (first + second) next := by
  simp only [addAngle, bind_eq_ok, pure_eq_ok] at returned
  obtain ⟨sineCosine, one, cosineSine, two, nextSine, sum, cosineCosine, three, sineSine, four,
    nextCosine, difference, rfl⟩ := returned
  constructor
  · rw [valueAt_add (add_eq_ok.1 sum).1, valueAt_mul (mul_eq_ok.1 one).1,
      valueAt_mul (mul_eq_ok.1 two).1, before.sine, before.cosine, angle.sine, angle.cosine,
      functions.sine_add]
  · rw [valueAt_sub (sub_eq_ok.1 difference).1, valueAt_mul (mul_eq_ok.1 three).1,
      valueAt_mul (mul_eq_ok.1 four).1, before.sine, before.cosine, angle.sine, angle.cosine,
      functions.cosine_add]

theorem fits_addAngles {sine cosine : TrigPolynomial R} {angle : R} {additions : Nat}
    {pair : TrigPolynomial R × TrigPolynomial R} (fits : functions.Fits point angle (sine, cosine))
    (returned : addAngles sine cosine additions = .ok pair) :
    functions.Fits point ((additions + 1 : Nat) * angle) pair := by
  induction additions generalizing pair with
  | zero =>
      cases returned
      rwa [Nat.zero_add, Nat.cast_one, one_mul]
  | succ additions hypothesis =>
      obtain ⟨before, beforeCase, returned⟩ := bind_eq_ok.1 returned
      have next := fits_addAngle fits (hypothesis beforeCase) returned
      rwa [Nat.cast_succ, add_mul, one_mul]

/-- The sign of a multiple goes over to the sine and is lost in the cosine. -/
theorem valueAt_signed (function : Circular) {multiple : Int} {angle : R}
    {pair : TrigPolynomial R × TrigPolynomial R}
    (fits : functions.Fits point ((multiple.natAbs : R) * angle) pair) :
    (signed function multiple pair).polynomial.valueAt point =
      functions.of function ((multiple : R) * angle) := by
  by_cases negative : multiple < 0
  · have sign : (multiple : R) * angle = -((multiple.natAbs : R) * angle) := by
      have same : multiple = -(multiple.natAbs : Int) := by omega
      rw [← neg_mul, ← Int.cast_natCast, ← Int.cast_neg, ← same]
    rw [sign]
    cases function with
    | sine =>
        simp only [signed, if_pos negative, CircularFunctions.of]
        rw [functions.sine_neg, ← fits.sine]
        exact valueAt_neg pair.1.polynomial
    | cosine =>
        simp only [signed, CircularFunctions.of]
        rw [functions.cosine_neg, fits.cosine]
  · have same : (multiple.natAbs : R) = (multiple : R) := by
      have natural : (multiple.natAbs : Int) = multiple := by omega
      rw [← Int.cast_natCast, natural]
    rw [same] at fits
    cases function with
    | sine =>
        simp only [signed, if_neg negative]
        exact fits.sine
    | cosine => exact fits.cosine

theorem valueAt_multipleAngle {function : Circular} {angles : AngleMap} {item : Monomial R}
    {found : Placeholders} {multiple : Int} {result : TrigPolynomial R} {angle : R}
    (nonzero : multiple ≠ 0) (sine : point found.sine = functions.sine angle)
    (cosine : point found.cosine = functions.cosine angle)
    (returned : (multipleAngle function angles item found multiple).outcome = .ok result) :
    result.polynomial.valueAt point = functions.of function ((multiple : R) * angle) := by
  obtain ⟨sinePart, cosinePart, pair, sineCase, cosineCase, pairCase, rfl⟩ :=
    multipleAngle_eq_ok returned
  have single : functions.Fits point angle (⟨sinePart, angles⟩, ⟨cosinePart, angles⟩) := by
    constructor
    · rw [valueAt_ofVariable sineCase, RingCoefficient.one_eq, one_mul, sine]
    · rw [valueAt_ofVariable cosineCase, RingCoefficient.one_eq, one_mul, cosine]
  have fits := fits_addAngles single pairCase
  have count : multiple.natAbs - 1 + 1 = multiple.natAbs := by omega
  rw [count] at fits
  exact valueAt_signed function fits

theorem valueAt_linear {polynomial : Polynomial R} {item : Monomial R} {var : Int}
    (shape : polynomial.monomials = [item]) (powers : item.powers = .ofFactor (.linear var)) :
    polynomial.valueAt point = item.coefficient * point var := by
  rw [valueAt_singleton shape, powers]
  change item.coefficient * (point var ^ 1 * 1) = _
  rw [pow_one, mul_one]

/-- The sign of an angle stays in its coefficient, and the cosine takes it off again. -/
theorem valueAt_singleAngle {function : Circular} {trig result : TrigPolynomial R}
    {item : Monomial R}
    {var : Int} {found : Placeholders} {multiple : Int} {angle : R}
    (shape : trig.polynomial.monomials = [item]) (powers : item.powers = .ofFactor (.linear var))
    (integer : item.coefficient = multiple) (unit : multiple.natAbs = 1)
    (placed : point (found.of function) = functions.of function angle)
    (returned : singleAngle function trig var found multiple = .ok result) :
    result.polynomial.valueAt point = functions.of function ((multiple : R) * angle) := by
  obtain ⟨-, renamed, renamedCase, scaled⟩ := singleAngle_eq_ok returned
  have value : renamed.valueAt point = (multiple : R) * functions.of function angle := by
    rw [valueAt_rename renamedCase, valueAt_linear shape powers, if_pos rfl, integer, placed]
  rcases Int.natAbs_eq_iff.1 unit with rfl | rfl
  · rw [if_neg (fun absurd => by cases absurd.2)] at scaled
    rw [← scaled, value, Nat.cast_one, Int.cast_one, one_mul, one_mul]
  · cases function with
    | sine =>
        rw [if_neg (fun absurd => by cases absurd.1)] at scaled
        rw [← scaled, value, Nat.cast_one, Int.cast_neg, Int.cast_one, neg_one_mul, neg_one_mul]
        exact (functions.sine_neg angle).symm
    | cosine =>
        rw [if_pos ⟨rfl, rfl⟩] at scaled
        rw [valueAt_scale scaled, value, RingCoefficient.ofInt_eq, Nat.cast_one, Int.cast_neg,
          Int.cast_one, neg_one_mul, neg_one_mul, mul_neg_one, neg_neg]
        exact (functions.cosine_neg angle).symm

/-- A sum is the sum of its two parts, and the placeholders of the parts are those of the sum. -/
theorem Placed.parts {trig : TrigPolynomial R} (placed : functions.Placed point trig)
    {head : Monomial R} {others : List (Monomial R)} {first rest : Polynomial R}
    (shape : trig.polynomial.monomials = head :: others)
    (firstCase : ofMonomials [head] = .ok first)
    (restCase : ofMonomials others = .ok rest) :
    functions.Placed point ⟨first, trig.angles⟩ ∧ functions.Placed point ⟨rest, trig.angles⟩ ∧
      trig.polynomial.valueAt point = first.valueAt point + rest.valueAt point := by
  have merged {monomials : List (Monomial R)} {part : Polynomial R} {var : Int}
      (built : ofMonomials monomials = .ok part) (member : var ∈ part.vars) :
      Occurs var (powersOf monomials) := by
    obtain ⟨list, returned, rfl⟩ := map_eq_ok.1 built
    rw [mem_vars] at member
    exact (occurs_merge returned).1 member
  refine ⟨fun var member => placed var ?_, fun var member => placed var ?_, ?_⟩
  · obtain ⟨product, isProduct, has⟩ := merged firstCase member
    rw [mem_vars, shape]
    exact ⟨product, List.mem_cons.2 (.inl (List.mem_singleton.1 isProduct)), has⟩
  · obtain ⟨product, isProduct, has⟩ := merged restCase member
    rw [mem_vars, shape]
    exact ⟨product, List.mem_cons_of_mem _ isProduct, has⟩
  · rw [valueAt_ofMonomials firstCase, valueAt_ofMonomials restCase, valueAt, shape, ← map_add,
      ← Reading.formal_append]
    rfl

/-- However the expansion comes to its result, the result has the value of the sine or cosine. -/
theorem valueAt_expands {function : Circular} {trig result : TrigPolynomial R}
    (expands : Expands function trig result) (placed : functions.Placed point trig) :
    result.polynomial.valueAt point = functions.of function (trig.polynomial.valueAt point) := by
  induction expands with
  | nothing shape returned =>
      rw [functions.computed, Except.ok.injEq, RingCoefficient.zero_eq] at returned
      rw [valueAt_nil shape, returned]
      exact valueAt_constant _
  | constant shape powers returned =>
      rw [functions.computed, Except.ok.injEq] at returned
      rw [valueAt_singleton shape, powers]
      change (Polynomial.constant _).valueAt point = functions.of _ (_ * 1)
      rw [valueAt_constant, mul_one, returned]
  | zero shape powers isZero returned =>
      rw [functions.computed, Except.ok.injEq, RingCoefficient.zero_eq] at returned
      rw [valueAt_linear shape powers, isZero_iff.1 isZero, zero_mul, returned]
      exact valueAt_constant _
  | single shape powers known integer unit returned =>
      have place := placed.of (mem_vars_of_linear shape powers) known
      have whole := RingCoefficient.integer_eq integer
      rw [valueAt_linear shape powers, whole]
      exact valueAt_singleAngle shape powers whole unit (place _) returned
  | multiple shape powers nonzero known integer returned =>
      obtain ⟨sine, cosine⟩ := placed _ (mem_vars_of_linear shape powers) _ known
      have whole := RingCoefficient.integer_eq integer
      rw [valueAt_linear shape powers, whole]
      refine valueAt_multipleAngle ?_ sine cosine returned
      rintro rfl
      exact nonzero (isZero_iff.2 (whole.trans Int.cast_zero))
  | sineOfSum shape firstCase restCase _ _ _ _ left right sum sineFirst cosineFirst sineRest cosineRest =>
      obtain ⟨firstPlaced, restPlaced, parts⟩ := placed.parts shape firstCase restCase
      rw [valueAt_add (add_eq_ok.1 sum).1, valueAt_mul (mul_eq_ok.1 left).1,
        valueAt_mul (mul_eq_ok.1 right).1, sineFirst firstPlaced, cosineRest restPlaced,
        cosineFirst firstPlaced, sineRest restPlaced, parts]
      exact (functions.sine_add _ _).symm
  | cosineOfSum shape firstCase restCase _ _ _ _ left right difference sineFirst cosineFirst sineRest
      cosineRest =>
      obtain ⟨firstPlaced, restPlaced, parts⟩ := placed.parts shape firstCase restCase
      rw [valueAt_sub (sub_eq_ok.1 difference).1, valueAt_mul (mul_eq_ok.1 left).1,
        valueAt_mul (mul_eq_ok.1 right).1, cosineFirst firstPlaced, cosineRest restPlaced,
        sineFirst firstPlaced, sineRest restPlaced, parts]
      exact (functions.cosine_add _ _).symm

/-- Evaluated where the placeholders have the sine and cosine of their angles, the expansions are the
sine and the cosine of the value of the argument. -/
theorem evaluate_expansion (functions : CircularFunctions R) (trig : TrigPolynomial R)
    (point : Int → R) (placed : functions.Placed point trig) :
    ∃ angle, trig.polynomial.evaluate (fun var => some (point var)) = .ok angle ∧
      (∀ result, trig.sine.outcome = .ok result →
        result.polynomial.evaluate (fun var => some (point var)) = .ok (functions.sine angle)) ∧
      (∀ result, trig.cosine.outcome = .ok result →
        result.polynomial.evaluate (fun var => some (point var)) = .ok (functions.cosine angle)) := by
  refine ⟨trig.polynomial.valueAt point, evaluate_eq _, ?_, ?_⟩
  · intro result returned
    rw [evaluate_eq, valueAt_expands (expands_of_expand returned) placed]
    rfl
  · intro result returned
    rw [evaluate_eq, valueAt_expands (expands_of_expand returned) placed]
    rfl

def quarterSine (turns : Int) : Int :=
  if turns % 4 = 1 then 1 else if turns % 4 = 3 then -1 else 0

/-- Integers count quarter turns, whose sines and cosines are integers too. -/
instance quarterTurns : Coefficient Int where
  zero := 0
  one := 1
  ofInt value := value
  add first second := .ok (first + second)
  mul first second := .ok (first * second)
  div first second := if second = 0 then .error (.divisionByZero .integer) else .ok (first / second)
  pow base exponent := .ok (base ^ exponent)
  neg value := -value
  circular function turns := .ok (match function with
    | .sine => quarterSine turns
    | .cosine => quarterSine (turns + 1))
  same first second := first == second
  integer? value := .ok (some value)
  text value := .ok (Text.writeInteger value)

instance : RingCoefficient Int where
  zero_eq := rfl
  one_eq := rfl
  ofInt_eq _ := rfl
  add_eq _ _ := rfl
  mul_eq _ _ := rfl
  pow_eq _ _ := rfl
  neg_eq _ := rfl
  same_iff := beq_iff_eq
  integer_eq same := by
    cases same
    rfl

theorem quarterSine_neg (turns : Int) : quarterSine (-turns) = -quarterSine turns := by
  unfold quarterSine
  split_ifs <;> omega

theorem quarterSine_add (first second : Int) : quarterSine (first + second) =
    quarterSine first * quarterSine (second + 1) + quarterSine (first + 1) * quarterSine second := by
  have rests (turns : Int) : turns % 4 = 0 ∨ turns % 4 = 1 ∨ turns % 4 = 2 ∨ turns % 4 = 3 := by omega
  rcases rests first with one | one | one | one <;> rcases rests second with two | two | two | two <;>
    simp [quarterSine, Int.add_emod, one, two]

/-- A quarter turn more makes the sine the cosine, and two make it change sign. -/
def quarterFunctions : CircularFunctions Int where
  sine := quarterSine
  cosine turns := quarterSine (turns + 1)
  computed_sine _ := rfl
  computed_cosine _ := rfl
  sine_neg := quarterSine_neg
  cosine_neg turns := by
    unfold quarterSine
    split_ifs <;> omega
  sine_add := quarterSine_add
  cosine_add first second := by
    have two : quarterSine (second + 1 + 1) = -quarterSine second := by
      unfold quarterSine
      split_ifs <;> omega
    rw [add_assoc, quarterSine_add, two]
    ring

/-- Twice an angle backwards and one quarter turn forwards. -/
def backwards : TrigPolynomial Int :=
  ⟨⟨[⟨-2, .ofFactor (.linear 2)⟩, .constant 1], true⟩, AngleMap.empty.set 2 ⟨4, 6⟩⟩

/-- The point at which the angle is one quarter turn. -/
def quarterPoint (var : Int) : Int := if var = 2 ∨ var = 4 then 1 else 0

theorem evaluate_expansion_backwards : quarterFunctions.Placed quarterPoint backwards ∧
    ∃ sine cosine, backwards.sine.outcome = .ok sine ∧ backwards.cosine.outcome = .ok cosine ∧
      sine.polynomial.evaluate (fun var => some (quarterPoint var)) = .ok (-1) ∧
      cosine.polynomial.evaluate (fun var => some (quarterPoint var)) = .ok 0 := by
  have placed : quarterFunctions.Placed quarterPoint backwards := by
    intro var member found known
    have angle : var = 2 := by
      change var ∈ [2] at member
      exact List.mem_singleton.1 member
    subst angle
    cases known
    exact ⟨rfl, rfl⟩
  obtain ⟨angle, value, ofSine, ofCosine⟩ :=
    evaluate_expansion quarterFunctions backwards quarterPoint placed
  have turns : angle = -1 := by
    have known : backwards.polynomial.evaluate (fun var => some (quarterPoint var)) = .ok (-1) := by
      decide +kernel
    rw [value] at known
    exact Except.ok.inj known
  have sineReturns : ∃ result, backwards.sine.outcome = .ok result := by decide +kernel
  have cosineReturns : ∃ result, backwards.cosine.outcome = .ok result := by decide +kernel
  obtain ⟨sine, sineCase⟩ := sineReturns
  obtain ⟨cosine, cosineCase⟩ := cosineReturns
  refine ⟨placed, sine, cosine, sineCase, cosineCase, ?_, ?_⟩
  · rw [ofSine sine sineCase, turns]
    rfl
  · rw [ofCosine cosine cosineCase, turns]
    rfl

end CircularFunctions

end TrigAlgebra
