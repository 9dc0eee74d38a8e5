/-
This file reads an expanded cosine and sine as the two parts of a rotation, a formal complex number
whose parts are polynomials in the placeholders: the rotation of a sum is the product of those of its
monomials, and its norm is that of the circle to the power of all multiples.
-/

import Mathlib.Algebra.QuadraticAlgebra.Basic
import TrigAlgebra.Proofs.ExpansionShape

namespace TrigAlgebra

open MvPolynomial TrigAlgebra.Polynomial TrigPolynomial

/-- A cosine together with a sine, as the real and the imaginary part of a complex number. -/
abbrev Rotation (R : Type) [CommRing R] : Type := QuadraticAlgebra (MvPolynomial Int R) (-1) 0

namespace Rotation

variable {R : Type} [CommRing R]

/-- The sine or the cosine of a rotation. -/
noncomputable def part : Circular → Rotation R → MvPolynomial Int R
  | .sine => QuadraticAlgebra.im
  | .cosine => QuadraticAlgebra.re

/-- The norm is the sum of both squares. -/
theorem norm_eq (rotation : Rotation R) : rotation.norm =
    rotation.part .sine * rotation.part .sine + rotation.part .cosine * rotation.part .cosine := by
  rw [QuadraticAlgebra.norm_def]
  simp only [part]
  ring

/-- The addition theorem of the sine. -/
theorem sine_mul (first second : Rotation R) : (first * second).part .sine =
    first.part .sine * second.part .cosine + first.part .cosine * second.part .sine := by
  simp only [part, QuadraticAlgebra.im_mul]
  ring

/-- The addition theorem of the cosine. -/
theorem cosine_mul (first second : Rotation R) : (first * second).part .cosine =
    first.part .cosine * second.part .cosine - first.part .sine * second.part .sine := by
  simp only [part, QuadraticAlgebra.re_mul]
  ring

/-- The opposite rotation has the opposite sine. -/
theorem sine_star (rotation : Rotation R) : (star rotation).part .sine = -rotation.part .sine :=
  QuadraticAlgebra.im_star rotation

/-- The opposite rotation has the same cosine. -/
theorem cosine_star (rotation : Rotation R) : (star rotation).part .cosine = rotation.part .cosine := by
  simp only [part, QuadraticAlgebra.re_star, zero_mul, add_zero]

/-- The rotation by a multiple; a negative multiple turns back. -/
noncomputable def turn (rotation : Rotation R) (multiple : Int) : Rotation R :=
  if multiple < 0 then star (rotation ^ multiple.natAbs) else rotation ^ multiple.natAbs

/-- The norm of a turn is a power of the norm, in either direction. -/
theorem norm_turn (rotation : Rotation R) (multiple : Int) :
    (rotation.turn multiple).norm = rotation.norm ^ multiple.natAbs := by
  unfold turn
  split
  · rw [QuadraticAlgebra.norm_star, map_pow]
  · rw [map_pow]

/-- The rotation whose cosine and sine are two variables. -/
noncomputable def ofPlaceholders (found : Placeholders) : Rotation R :=
  ⟨X found.cosine, X found.sine⟩

/-- The sine and cosine of an angle are its placeholders. -/
theorem part_ofPlaceholders (found : Placeholders) (function : Circular) :
    (ofPlaceholders found : Rotation R).part function = X (found.of function) := by
  cases function <;> rfl

variable [Coefficient R]

/-- The sine or cosine of a coefficient, where there is one. -/
def computed (function : Circular) (value : R) : R :=
  match Coefficient.circular function value with
  | .ok result => result
  | .error _ => 0

/-- The rotation by a number whose sine and cosine are computed. -/
noncomputable def ofConstant (value : R) : Rotation R :=
  ⟨C (computed .cosine value), C (computed .sine value)⟩

/-- A constant has the parts that are computed for it. -/
theorem part_ofConstant {function : Circular} {value result : R}
    (returned : Coefficient.circular function value = .ok result) :
    (ofConstant value).part function = C result := by
  have same : computed function value = result := by rw [computed, returned]
  rw [← same]
  cases function <;> rfl

/-- The rotation of a monomial. A variable without placeholders has no multiple. -/
noncomputable def ofMonomial (angles : AngleMap) (item : Monomial R) : Rotation R :=
  match item.powers.vars with
  | [] => ofConstant item.coefficient
  | var :: _ =>
      if Coefficient.isZero item.coefficient then ofConstant Coefficient.zero
      else
        match angles.find? var with
        | none => 1
        | some found => turn (ofPlaceholders found) item.multiple

theorem ofMonomial_one {angles : AngleMap} {item : Monomial R} (powers : item.powers = .one) :
    ofMonomial angles item = ofConstant item.coefficient := by
  rw [ofMonomial, powers]
  rfl

/-- A variable times zero does not turn. -/
theorem ofMonomial_zero {angles : AngleMap} {item : Monomial R} {var : Int}
    (powers : item.powers = .ofFactor (.linear var))
    (isZero : Coefficient.isZero item.coefficient = true) :
    ofMonomial angles item = ofConstant Coefficient.zero := by
  rw [ofMonomial, powers, isZero]
  rfl

/-- A multiple of an angle turns as often as its coefficient says. -/
theorem ofMonomial_linear {angles : AngleMap} {item : Monomial R} {var : Int} {found : Placeholders}
    (powers : item.powers = .ofFactor (.linear var))
    (nonzero : ¬ Coefficient.isZero item.coefficient = true)
    (known : angles.find? var = some found) :
    ofMonomial angles item = turn (ofPlaceholders found) item.multiple := by
  rw [ofMonomial, powers, Bool.eq_false_iff.2 nonzero]
  change (match angles.find? var with
    | none => 1
    | some found => turn (ofPlaceholders found) item.multiple) = _
  rw [known]

/-- The sum of no monomials is turned by zero. -/
noncomputable def ofSum (angles : AngleMap) (monomials : List (Monomial R)) : Rotation R :=
  if monomials.isEmpty then ofConstant Coefficient.zero
  else (monomials.map (ofMonomial angles)).prod

theorem ofSum_nil (angles : AngleMap) : ofSum angles [] = ofConstant (Coefficient.zero : R) := rfl

theorem ofSum_singleton (angles : AngleMap) (item : Monomial R) :
    ofSum angles [item] = ofMonomial angles item :=
  List.prod_singleton

/-- A sum turns by its first monomial and then by the others. -/
theorem ofSum_cons_cons (angles : AngleMap) (head second : Monomial R) (others : List (Monomial R)) :
    ofSum angles (head :: second :: others) =
      ofSum angles [head] * ofSum angles (second :: others) := by
  rw [ofSum_singleton]
  exact List.prod_cons

/-- A sum turns by all of its monomials, one after another. -/
theorem ofSum_eq_prod {angles : AngleMap} {monomials : List (Monomial R)}
    (zeroTurn : ofConstant (Coefficient.zero : R) = 1) :
    ofSum angles monomials = (monomials.map (ofMonomial angles)).prod := by
  cases monomials with
  | nil => exact zeroTurn
  | cons head rest => rfl

/-- Where the sine of zero is zero and its cosine is one, zero does not turn. -/
theorem ofConstant_zero [RingCoefficient R] (sineZero : Coefficient.circular .sine (0 : R) = .ok 0)
    (cosineZero : Coefficient.circular .cosine (0 : R) = .ok 1) :
    ofConstant (Coefficient.zero : R) = 1 := by
  have sine := part_ofConstant sineZero
  have cosine := part_ofConstant cosineZero
  rw [RingCoefficient.zero_eq]
  exact QuadraticAlgebra.ext (cosine.trans C_1) (sine.trans C_0)

end Rotation

namespace TrigPolynomial

variable {R : Type} [CommRing R] [Coefficient R] [RingCoefficient R]

/-- The polynomial over the ring. -/
noncomputable def formal (trig : TrigPolynomial R) : MvPolynomial Int R :=
  Reading.ring.formal trig.polynomial.monomials

theorem formal_of_returns {result : Except Fault (Polynomial R)} {form : MvPolynomial Int R}
    (returns : Reading.ring.Returns result form) {polynomial : Polynomial R}
    (returned : result = .ok polynomial) : Reading.ring.formal polynomial.monomials = form := by
  rw [returned] at returns
  exact returns.of_ok.2

variable {first second result : TrigPolynomial R}

/-- Products over a ring are always returned. -/
theorem exists_mul (first second : TrigPolynomial R) : ∃ product, first.mul second = .ok product := by
  obtain ⟨product, returned, -⟩ :=
    Reading.returns_mul (Reading.covers_ring first.polynomial.monomials)
      (Reading.covers_ring second.polynomial.monomials)
  exact ⟨⟨product, first.angles.update second.angles⟩, mul_eq_ok.2 ⟨returned, rfl⟩⟩

/-- Sums over a ring are always returned. -/
theorem exists_add (first second : TrigPolynomial R) : ∃ sum, first.add second = .ok sum := by
  obtain ⟨sum, returned, -⟩ :=
    Reading.returns_add (Reading.covers_ring first.polynomial.monomials)
      (Reading.covers_ring second.polynomial.monomials)
  exact ⟨⟨sum, first.angles.update second.angles⟩, add_eq_ok.2 ⟨returned, rfl⟩⟩

/-- Differences over a ring are always returned. -/
theorem exists_sub (first second : TrigPolynomial R) :
    ∃ difference, first.sub second = .ok difference := by
  obtain ⟨difference, returned, -⟩ :=
    Reading.returns_sub (Reading.covers_ring first.polynomial.monomials)
      (Reading.covers_ring second.polynomial.monomials)
  exact ⟨⟨difference, first.angles.update second.angles⟩, sub_eq_ok.2 ⟨returned, rfl⟩⟩

theorem formal_mul (returned : first.mul second = .ok result) :
    result.formal = first.formal * second.formal :=
  formal_of_returns (Reading.returns_mul (Reading.covers_ring _) (Reading.covers_ring _))
    (mul_eq_ok.1 returned).1

theorem formal_add (returned : first.add second = .ok result) :
    result.formal = first.formal + second.formal :=
  formal_of_returns (Reading.returns_add (Reading.covers_ring _) (Reading.covers_ring _))
    (add_eq_ok.1 returned).1

theorem formal_sub (returned : first.sub second = .ok result) :
    result.formal = first.formal - second.formal :=
  formal_of_returns (Reading.returns_sub (Reading.covers_ring _) (Reading.covers_ring _))
    (sub_eq_ok.1 returned).1

theorem formal_neg (trig : TrigPolynomial R) : trig.neg.formal = -trig.formal :=
  Reading.formal_negated (Reading.covers_ring _)

theorem formal_constant (value : R) (angles : AngleMap) : (constant value angles).formal = C value :=
  add_zero _

/-- A linear monomial is its coefficient times the variable. -/
theorem formal_linear {polynomial : Polynomial R} {item : Monomial R} {var : Int}
    (shape : polynomial.monomials = [item]) (powers : item.powers = .ofFactor (.linear var)) :
    Reading.ring.formal polynomial.monomials = C item.coefficient * X var := by
  have exponents : (PowerProduct.ofFactor (.linear var)).exponents = Finsupp.single var 1 := add_zero _
  rw [shape, Reading.formal_cons, Reading.formal_nil, add_zero, Reading.term, powers, exponents,
    C_mul_X_eq_monomial]
  rfl

/-- Two polynomials stand for the sine and the cosine of a rotation. -/
structure Rotates (rotation : Rotation R) (pair : TrigPolynomial R × TrigPolynomial R) : Prop where
  sine : pair.1.formal = rotation.part .sine
  cosine : pair.2.formal = rotation.part .cosine

/-- Every addition of the angle is one more factor. -/
theorem rotates_addAngles {sine cosine : TrigPolynomial R} {rotation : Rotation R} {additions : Nat}
    {pair : TrigPolynomial R × TrigPolynomial R} (angle : Rotates rotation (sine, cosine))
    (returned : addAngles sine cosine additions = .ok pair) :
    Rotates (rotation ^ (additions + 1)) pair := by
  induction additions generalizing pair with
  | zero =>
      cases returned
      rwa [Nat.zero_add, pow_one]
  | succ additions hypothesis =>
      obtain ⟨before, beforeCase, returned⟩ := bind_eq_ok.1 returned
      have multiple := hypothesis beforeCase
      simp only [addAngle, bind_eq_ok, pure_eq_ok] at returned
      obtain ⟨sineCosine, one, cosineSine, two, nextSine, sum, cosineCosine, three, sineSine, four,
        nextCosine, difference, rfl⟩ := returned
      constructor
      · rw [formal_add sum, formal_mul one, formal_mul two, multiple.sine, multiple.cosine, angle.sine,
          angle.cosine, pow_succ rotation (additions + 1), Rotation.sine_mul]
      · rw [formal_sub difference, formal_mul three, formal_mul four, multiple.sine, multiple.cosine,
          angle.sine, angle.cosine, pow_succ rotation (additions + 1), Rotation.cosine_mul]

/-- A negative multiple has the sign of its sine changed. -/
theorem formal_signed {rotation : Rotation R} {multiple : Int}
    {pair : TrigPolynomial R × TrigPolynomial R}
    (rotates : Rotates (rotation ^ multiple.natAbs) pair) (function : Circular) :
    (signed function multiple pair).formal = (rotation.turn multiple).part function := by
  unfold Rotation.turn
  by_cases negative : multiple < 0
  · rw [if_pos negative]
    cases function with
    | sine =>
        rw [signed, if_pos negative, formal_neg, rotates.sine, Rotation.sine_star]
    | cosine => rw [signed, rotates.cosine, Rotation.cosine_star]
  · rw [if_neg negative]
    cases function with
    | sine => rw [signed, if_neg negative, rotates.sine]
    | cosine => rw [signed, rotates.cosine]

/-- A multiple angle is the part of that many turns. -/
theorem formal_multipleAngle {function : Circular} {angles : AngleMap} {item : Monomial R}
    {found : Placeholders} {multiple : Int} {result : TrigPolynomial R} (nonzero : multiple ≠ 0)
    (returned : (multipleAngle function angles item found multiple).outcome = .ok result) :
    result.formal = ((Rotation.ofPlaceholders found).turn multiple).part function := by
  obtain ⟨sine, cosine, pair, sineCase, cosineCase, pairCase, rfl⟩ := multipleAngle_eq_ok returned
  have single {var : Int} {polynomial : Polynomial R}
      (built : ofVariable var Coefficient.one = .ok polynomial) :
      formal ⟨polynomial, angles⟩ = X var := by
    rw [formal, formal_linear (monomials_ofVariable built) rfl, RingCoefficient.one_eq, C_1, one_mul]
  have angle : Rotates (Rotation.ofPlaceholders found) (⟨sine, angles⟩, ⟨cosine, angles⟩) :=
    ⟨single sineCase, single cosineCase⟩
  have count : multiple.natAbs - 1 + 1 = multiple.natAbs := by omega
  exact formal_signed (count ▸ rotates_addAngles angle pairCase) function

/-- A single angle is the part of one turn in its direction. -/
theorem formal_singleAngle {function : Circular} {trig result : TrigPolynomial R} {item : Monomial R}
    {var : Int} {found : Placeholders} {multiple : Int}
    (shape : trig.polynomial.monomials = [item]) (powers : item.powers = .ofFactor (.linear var))
    (integer : item.coefficient = multiple) (unit : multiple.natAbs = 1)
    (returned : singleAngle function trig var found multiple = .ok result) :
    result.formal = ((Rotation.ofPlaceholders found).turn multiple).part function := by
  obtain ⟨-, renamed, renamedCase, scaled⟩ := singleAngle_eq_ok returned
  have linear : Reading.ring.formal renamed.monomials = C (multiple : R) * X (found.of function) := by
    rw [Polynomial.rename, renameIn, result_mergeFrom, shape, List.map_singleton, ofMonomials_singleton]
      at renamedCase
    cases renamedCase
    have linear : (item.rename var (found.of function)).powers =
        .ofFactor (.linear (found.of function)) := by
      rw [Monomial.rename, powers, PowerProduct.rename_linear]
    rw [formal_linear rfl linear, ← integer]
    rfl
  rcases Int.natAbs_eq_iff.1 unit with rfl | rfl
  · rw [if_neg (fun absurd => by cases absurd.2)] at scaled
    rw [formal, ← scaled, linear, Nat.cast_one, Int.cast_one, C_1, one_mul,
      ← Rotation.part_ofPlaceholders]
    exact congrArg (Rotation.part function) (pow_one _).symm
  · have back : (Rotation.ofPlaceholders found : Rotation R).turn (-1) =
        star (Rotation.ofPlaceholders found) := congrArg star (pow_one _)
    rw [Nat.cast_one, back]
    cases function with
    | sine =>
        rw [if_neg (fun absurd => by cases absurd.1)] at scaled
        rw [formal, ← scaled, linear, Nat.cast_one, Int.cast_neg, Int.cast_one, map_neg, map_one,
          neg_one_mul, Rotation.sine_star, Rotation.part_ofPlaceholders]
    | cosine =>
        rw [if_pos ⟨rfl, rfl⟩] at scaled
        have product :=
          formal_of_returns (Reading.returns_scale (Reading.covers_ring _) trivial) scaled
        have sign : (Reading.ring : Reading R R).value (Coefficient.ofInt (-1)) = -1 := by
          change Coefficient.ofInt (-1) = (-1 : R)
          rw [RingCoefficient.ofInt_eq, Int.cast_neg, Int.cast_one]
        rw [formal, product, linear, sign, Nat.cast_one, Int.cast_neg, Int.cast_one, map_neg, map_one,
          neg_one_mul, mul_neg_one, neg_neg, Rotation.cosine_star, Rotation.part_ofPlaceholders]

/-- However the expansion comes to its result, the result stands for the sine or cosine of the product
of the rotations of all monomials. -/
theorem formal_expands {function : Circular} {trig result : TrigPolynomial R}
    (expands : Expands function trig result) (distinct : trig.polynomial.Distinct) :
    result.formal = (Rotation.ofSum trig.angles trig.polynomial.monomials).part function := by
  induction expands with
  | nothing shape returned =>
      rw [shape, Rotation.ofSum_nil, Rotation.part_ofConstant returned, formal_constant]
  | constant shape powers returned =>
      rw [shape, Rotation.ofSum_singleton, Rotation.ofMonomial_one powers,
        Rotation.part_ofConstant returned, formal_constant]
  | zero shape powers isZero returned =>
      rw [shape, Rotation.ofSum_singleton, Rotation.ofMonomial_zero powers isZero,
        Rotation.part_ofConstant returned, formal_constant]
  | @single _ _ _ item _ _ _ shape powers known integer unit returned =>
      have whole := RingCoefficient.integer_eq integer
      by_cases isZero : Coefficient.isZero item.coefficient = true
      · have trivialRing : (1 : R) = 0 := by
          rw [isZero_iff, whole] at isZero
          rcases Int.natAbs_eq_iff.1 unit with rfl | rfl
          · simpa using isZero
          · simpa using isZero
        have allEqual : Subsingleton R := subsingleton_of_zero_eq_one trivialRing.symm
        exact @Subsingleton.elim _ (Module.subsingleton R _) _ _
      · rw [formal_singleAngle shape powers whole unit returned, shape, Rotation.ofSum_singleton,
          Rotation.ofMonomial_linear powers isZero known,
          Monomial.multiple_of_not_isZero powers isZero integer]
  | @multiple _ _ _ _ _ _ multiple shape powers nonzero known integer returned =>
      have turns : multiple ≠ 0 := by
        rintro rfl
        exact nonzero (isZero_iff.2 ((RingCoefficient.integer_eq integer).trans Int.cast_zero))
      rw [formal_multipleAngle turns returned, shape, Rotation.ofSum_singleton,
        Rotation.ofMonomial_linear powers nonzero known,
        Monomial.multiple_of_not_isZero powers nonzero integer]
  | sineOfSum shape firstCase restCase _ _ _ _ left right sum sineFirst cosineFirst sineRest cosineRest =>
      obtain ⟨firstShape, restShape, firstDistinct, restDistinct⟩ :=
        parts_of_distinct distinct shape firstCase restCase
      rw [formal_add sum, formal_mul left, formal_mul right, sineFirst firstDistinct,
        cosineRest restDistinct, cosineFirst firstDistinct, sineRest restDistinct, shape,
        Rotation.ofSum_cons_cons, Rotation.sine_mul, firstShape, restShape]
  | cosineOfSum shape firstCase restCase _ _ _ _ left right difference sineFirst cosineFirst sineRest
      cosineRest =>
      obtain ⟨firstShape, restShape, firstDistinct, restDistinct⟩ :=
        parts_of_distinct distinct shape firstCase restCase
      rw [formal_sub difference, formal_mul left, formal_mul right, sineFirst firstDistinct,
        cosineRest restDistinct, cosineFirst firstDistinct, sineRest restDistinct, shape,
        Rotation.ofSum_cons_cons, Rotation.cosine_mul, firstShape, restShape]

/-- The sum of the squares of the placeholders of a monomial's variable. A variable without
placeholders has none, and no multiple either. -/
noncomputable def circle (trig : TrigPolynomial R) (item : Monomial R) : MvPolynomial Int R :=
  match item.powers.vars.head?.bind trig.angles.find? with
  | some found => X found.sine * X found.sine + X found.cosine * X found.cosine
  | none => 0

omit [Coefficient R] [RingCoefficient R] in
/-- The circle of an angle is the norm of its rotation. -/
theorem circle_linear {trig : TrigPolynomial R} {item : Monomial R} {angle : Int}
    {found : Placeholders} (powers : item.powers = .ofFactor (.linear angle))
    (known : trig.angles.find? angle = some found) :
    trig.circle item = (Rotation.ofPlaceholders found).norm := by
  have places : item.powers.vars.head?.bind trig.angles.find? = some found := by
    rw [powers]
    exact known
  rw [circle, places, Rotation.norm_eq]
  rfl

omit [RingCoefficient R] in
/-- A monomial that is expanded rotates by its placeholders' circle to the power of its multiple. -/
theorem norm_ofMonomial {trig : TrigPolynomial R} {item : Monomial R}
    (zeroTurn : Rotation.ofConstant (Coefficient.zero : R) = 1)
    (linear : ∃ angle, item.powers = .ofFactor (.linear angle))
    (known : ¬ Coefficient.isZero item.coefficient = true → ∃ angle found,
      item.powers = .ofFactor (.linear angle) ∧ trig.angles.find? angle = some found) :
    (Rotation.ofMonomial trig.angles item).norm = trig.circle item ^ item.multiple.natAbs := by
  by_cases isZero : Coefficient.isZero item.coefficient = true
  · obtain ⟨angle, powers⟩ := linear
    rw [Rotation.ofMonomial_zero powers isZero, zeroTurn, map_one, Monomial.multiple_of_isZero isZero]
    exact (pow_zero _).symm
  · obtain ⟨angle, found, powers, known⟩ := known isZero
    rw [Rotation.ofMonomial_linear powers isZero known, Rotation.norm_turn, circle_linear powers known]

/-- The squares of an expanded sine and cosine add up to the product of the circles of all variables,
each to the power of its multiple, as formal polynomials in the placeholders. -/
theorem sum_of_squares (trig : TrigPolynomial R) (distinct : trig.polynomial.Distinct)
    (noConstant : ∀ item ∈ trig.polynomial.monomials, item.powers ≠ .one)
    (sineZero : Coefficient.circular .sine (0 : R) = .ok 0)
    (cosineZero : Coefficient.circular .cosine (0 : R) = .ok 1)
    (sine cosine : TrigPolynomial R) (sineReturned : trig.sine.outcome = .ok sine)
    (cosineReturned : trig.cosine.outcome = .ok cosine) :
    (∀ item ∈ trig.polynomial.monomials, item.coefficient = (item.multiple : R)) ∧
      ∃ total, (do (← sine.mul sine).add (← cosine.mul cosine)) = .ok total ∧
        Reading.ring.formal total.polynomial.monomials =
          (trig.polynomial.monomials.map fun item => trig.circle item ^ item.multiple.natAbs).prod := by
  have sineExpands := expands_of_expand sineReturned
  have sineFormal := formal_expands sineExpands distinct
  have cosineFormal := formal_expands (expands_of_expand cosineReturned) distinct
  have multiples := multiple_of_expands sineExpands distinct
  have linear := checkArgument_eq_ok.1 (checkArgument_of_expand sineReturned)
  constructor
  · intro item member
    by_cases isZero : Coefficient.isZero item.coefficient = true
    · rw [Monomial.multiple_of_isZero isZero, Int.cast_zero, isZero_iff.1 isZero]
    · obtain ⟨-, -, -, -, integer⟩ := multiples item member (noConstant item member) isZero
      exact RingCoefficient.integer_eq integer
  · obtain ⟨sineSquare, sineSquared⟩ := exists_mul sine sine
    obtain ⟨cosineSquare, cosineSquared⟩ := exists_mul cosine cosine
    obtain ⟨total, added⟩ := exists_add sineSquare cosineSquare
    refine ⟨total, bind_eq_ok.2 ⟨_, sineSquared, bind_eq_ok.2 ⟨_, cosineSquared, added⟩⟩, ?_⟩
    have zeroTurn : Rotation.ofConstant (Coefficient.zero : R) = 1 :=
      Rotation.ofConstant_zero sineZero cosineZero
    calc total.formal
        = sine.formal * sine.formal + cosine.formal * cosine.formal := by
          rw [formal_add added, formal_mul sineSquared, formal_mul cosineSquared]
      _ = (Rotation.ofSum trig.angles trig.polynomial.monomials).norm := by
          rw [sineFormal, cosineFormal, Rotation.norm_eq]
      _ = (trig.polynomial.monomials.map fun item => (Rotation.ofMonomial trig.angles item).norm).prod := by
          rw [Rotation.ofSum_eq_prod zeroTurn, map_list_prod, List.map_map]
          rfl
      _ = (trig.polynomial.monomials.map fun item => trig.circle item ^ item.multiple.natAbs).prod := by
          refine congrArg List.prod (List.map_congr_left fun item member => ?_)
          refine norm_ofMonomial zeroTurn ((linear item member).resolve_left (noConstant item member)) ?_
          intro nonzero
          obtain ⟨angle, found, powers, known, -⟩ :=
            multiples item member (noConstant item member) nonzero
          exact ⟨angle, found, powers, known⟩

/-- Two angles that share a placeholder, and a variable without placeholders that has no multiple. -/
def chained : TrigPolynomial Int :=
  ⟨⟨[⟨-2, .ofFactor (.linear 2)⟩, ⟨0, .ofFactor (.linear 6)⟩, ⟨3, .ofFactor (.linear 4)⟩], false⟩,
    (AngleMap.empty.set 4 ⟨8, 10⟩).set 2 ⟨10, 12⟩⟩

theorem sum_of_squares_chained : chained.polynomial.Distinct ∧
    (∀ item ∈ chained.polynomial.monomials, item.powers ≠ .one) ∧
    Coefficient.circular .sine (0 : Int) = .ok 0 ∧ Coefficient.circular .cosine (0 : Int) = .ok 1 ∧
    ∃ sine cosine total, chained.sine.outcome = .ok sine ∧ chained.cosine.outcome = .ok cosine ∧
      (do (← sine.mul sine).add (← cosine.mul cosine)) = .ok total ∧
      Reading.ring.formal total.polynomial.monomials =
        (X 10 * X 10 + X 12 * X 12 : MvPolynomial Int Int) ^ 2 * (X 8 * X 8 + X 10 * X 10) ^ 3 := by
  have distinct : chained.polynomial.Distinct := by
    unfold Distinct
    decide
  have noConstant : ∀ item ∈ chained.polynomial.monomials, item.powers ≠ .one := by
    decide
  have sineReturns : ∃ result, chained.sine.outcome = .ok result := by decide +kernel
  have cosineReturns : ∃ result, chained.cosine.outcome = .ok result := by decide +kernel
  obtain ⟨sine, sineCase⟩ := sineReturns
  obtain ⟨cosine, cosineCase⟩ := cosineReturns
  obtain ⟨-, total, added, form⟩ :=
    sum_of_squares chained distinct noConstant rfl rfl sine cosine sineCase cosineCase
  refine ⟨distinct, noConstant, rfl, rfl, sine, cosine, total, sineCase, cosineCase, added, ?_⟩
  rw [form]
  change (X 10 * X 10 + X 12 * X 12) ^ 2 * (0 ^ 0 * ((X 8 * X 8 + X 10 * X 10) ^ 3 * 1)) = _
  rw [pow_zero, one_mul, mul_one]

end TrigPolynomial

end TrigAlgebra
