/-
This file proves that the sine and cosine of a sum do not depend on the order of its summands: in a
commutative ring a reordered argument is expanded too, to an equal result with the same powers.
-/

import TrigAlgebra.Proofs.Coefficients
import TrigAlgebra.Proofs.Footprints
import TrigAlgebra.Proofs.Rotations

namespace TrigAlgebra

open TrigAlgebra.Polynomial TrigPolynomial

/-- Equal maps have the same placeholders for every angle, also in different orders. -/
theorem AngleMap.find?_eq_of_same {first second : AngleMap} (same : first.same second = true) :
    first.find? = second.find? := by
  rw [AngleMap.same, Bool.and_eq_true, beq_iff_eq, List.all_eq_true] at same
  have inside : first.entries ⊆ second.entries := fun entry member =>
    find?_eq_some.1 (beq_iff_eq.1 (same.2 entry member))
  have order := (List.subperm_of_subset (first.distinct.of_map _) inside).perm_of_length_le same.1.ge
  funext angle
  apply Option.ext
  intro found
  rw [find?_eq_some, find?_eq_some, order.mem_iff]

namespace Footprint

variable {K : Type} [Coefficient K]

/-- The footprint of a monomial. A variable without placeholders has no multiple. -/
noncomputable def ofMonomial (angles : AngleMap) (item : Monomial K) : Footprint :=
  match item.powers.vars with
  | [] => constant
  | var :: _ =>
      if Coefficient.isZero item.coefficient then constant
      else
        match angles.find? var with
        | none => 1
        | some found => ofPlaceholders found ^ item.multiple.natAbs

/-- Constants leave no variable. -/
theorem ofMonomial_one {angles : AngleMap} {item : Monomial K} (powers : item.powers = .one) :
    ofMonomial angles item = constant := by
  rw [ofMonomial, powers]
  rfl

/-- Variables times zero leave no variable. -/
theorem ofMonomial_zero {angles : AngleMap} {item : Monomial K} {var : Int}
    (powers : item.powers = .ofFactor (.linear var))
    (isZero : Coefficient.isZero item.coefficient = true) : ofMonomial angles item = constant := by
  rw [ofMonomial, powers, isZero]
  rfl

/-- A multiple of an angle leaves as many placeholders as the multiple says. -/
theorem ofMonomial_linear {angles : AngleMap} {item : Monomial K} {var : Int} {found : Placeholders}
    (powers : item.powers = .ofFactor (.linear var))
    (nonzero : ¬ Coefficient.isZero item.coefficient = true)
    (known : angles.find? var = some found) :
    ofMonomial angles item = ofPlaceholders found ^ item.multiple.natAbs := by
  rw [ofMonomial, powers, Bool.eq_false_iff.2 nonzero]
  change (match angles.find? var with
    | none => 1
    | some found => ofPlaceholders found ^ item.multiple.natAbs) = _
  rw [known]

/-- The footprint of a sum is the product of those of its monomials. -/
noncomputable def ofSum (angles : AngleMap) (monomials : List (Monomial K)) : Footprint :=
  if monomials.isEmpty then constant else (monomials.map (ofMonomial angles)).prod

theorem ofSum_singleton (angles : AngleMap) (item : Monomial K) :
    ofSum angles [item] = ofMonomial angles item :=
  List.prod_singleton

/-- The first monomial and the others leave their footprints one after another. -/
theorem ofSum_cons_cons (angles : AngleMap) (head second : Monomial K) (others : List (Monomial K)) :
    ofSum angles (head :: second :: others) =
      ofSum angles [head] * ofSum angles (second :: others) := by
  rw [ofSum_singleton]
  exact List.prod_cons

/-- Footprints do not depend on the order of the summands. -/
theorem ofSum_of_perm {first second : AngleMap} (places : first.find? = second.find?)
    {monomials others : List (Monomial K)} (order : monomials.Perm others) :
    ofSum first monomials = ofSum second others := by
  have each : ofMonomial (K := K) first = ofMonomial second := by
    funext item
    unfold ofMonomial
    rw [places]
  rw [ofSum, ofSum, each, order.isEmpty_eq, (order.map _).prod_eq]

end Footprint

/-- Rotations do not depend on the order of the summands. -/
theorem Rotation.ofSum_of_perm {R : Type} [CommRing R] [Coefficient R] {first second : AngleMap}
    (places : first.find? = second.find?) {monomials others : List (Monomial R)}
    (order : monomials.Perm others) : ofSum first monomials = ofSum second others := by
  have each : ofMonomial (R := R) first = ofMonomial second := by
    funext item
    unfold ofMonomial
    rw [places]
  rw [ofSum, ofSum, each, order.isEmpty_eq, (order.map _).prod_eq]

/-- A polynomial has a text if all of its monomials have one. -/
theorem Polynomial.exists_text_iff {K : Type} [Coefficient K] {polynomial : Polynomial K} :
    (∃ shown, polynomial.text = .ok shown) ↔
      ∀ item ∈ polynomial.monomials, ∃ shown, item.text = .ok shown := by
  unfold Polynomial.text
  split
  · rename_i empty
    rw [List.isEmpty_iff.1 empty]
    exact ⟨fun _ => List.forall_mem_nil _, fun _ => ⟨_, rfl⟩⟩
  · rw [← mapM_returns_iff]
    constructor
    · rintro ⟨shown, returned⟩
      obtain ⟨texts, written, -⟩ := bind_eq_ok.1 returned
      exact ⟨texts, written⟩
    · rintro ⟨texts, written⟩
      exact ⟨_, bind_eq_ok.2 ⟨texts, written, rfl⟩⟩

namespace TrigPolynomial

section

variable {K : Type} [Coefficient K]

/-- The formula for the sum of two angles, from the sines and cosines of both. -/
def sumOfParts (function : Circular) (first rest : Circular → TrigPolynomial K) :
    Except Fault (TrigPolynomial K) :=
  match function with
  | .sine => do
      let left ← (first .sine).mul (rest .cosine)
      left.add (← (first .cosine).mul (rest .sine))
  | .cosine => do
      let left ← (first .cosine).mul (rest .cosine)
      left.sub (← (first .sine).mul (rest .sine))

/-- The sine or cosine of a sum needs both functions of both parts. -/
theorem expand_sum_eq_ok {function : Circular} {trig result : TrigPolynomial K}
    {head second : Monomial K} {others : List (Monomial K)} {first rest : Polynomial K}
    (checked : checkArgument function trig = .ok ())
    (shape : trig.polynomial.monomials = head :: second :: others)
    (firstCase : ofMonomials [head] = .ok first)
    (restCase : ofMonomials (second :: others) = .ok rest) :
    (expand function trig).outcome = .ok result ↔
      (∃ shown, trig.polynomial.text = .ok shown) ∧
        ∃ ofFirst ofRest : Circular → TrigPolynomial K,
          (∀ part, (expand part ⟨first, trig.angles⟩).outcome = .ok (ofFirst part)) ∧
          (∀ part, (expand part ⟨rest, trig.angles⟩).outcome = .ok (ofRest part)) ∧
          sumOfParts function ofFirst ofRest = .ok result := by
  rw [expand_cons_cons checked shape firstCase restCase]
  simp only [outcome_bind_eq_ok, outcome_lift_eq_ok, Traced.outcome_note, exists_const, true_and,
    exists_and_right]
  refine and_congr_right fun _ => ?_
  -- A choice of results for both functions is a pair of them.
  have chosen {part : Polynomial K} {sine cosine : TrigPolynomial K}
      (sineCase : (expand .sine ⟨part, trig.angles⟩).outcome = .ok sine)
      (cosineCase : (expand .cosine ⟨part, trig.angles⟩).outcome = .ok cosine) (function : Circular) :
      (expand function ⟨part, trig.angles⟩).outcome = .ok (Circular.rec sine cosine function) := by
    cases function with
    | sine => exact sineCase
    | cosine => exact cosineCase
  cases function with
  | sine =>
      simp only [sumFormula, sumOfParts, outcome_bind_eq_ok, outcome_lift_eq_ok, bind_eq_ok]
      constructor
      · rintro ⟨firstSine, one, restCosine, two, left, leftCase, firstCosine, three, restSine, four,
          right, rightCase, sum⟩
        exact ⟨_, _, chosen one three, chosen four two, left, leftCase, right, rightCase, sum⟩
      · rintro ⟨ofFirst, ofRest, firsts, rests, left, leftCase, right, rightCase, sum⟩
        exact ⟨_, firsts .sine, _, rests .cosine, left, leftCase, _, firsts .cosine, _, rests .sine,
          right, rightCase, sum⟩
  | cosine =>
      simp only [sumFormula, sumOfParts, outcome_bind_eq_ok, outcome_lift_eq_ok, bind_eq_ok]
      constructor
      · rintro ⟨firstCosine, one, restCosine, two, left, leftCase, firstSine, three, restSine, four,
          right, rightCase, difference⟩
        exact ⟨_, _, chosen three one, chosen four two, left, leftCase, right, rightCase, difference⟩
      · rintro ⟨ofFirst, ofRest, firsts, rests, left, leftCase, right, rightCase, difference⟩
        exact ⟨_, firsts .cosine, _, rests .cosine, left, leftCase, _, firsts .sine, _, rests .sine,
          right, rightCase, difference⟩

/-- The formula for sums multiplies footprints. -/
theorem supported_sumOfParts {function : Circular} {first rest : Circular → TrigPolynomial K}
    {result : TrigPolynomial K} {ofFirst ofRest : Footprint} {angles : AngleMap}
    (firsts : ∀ part, Supported (ofFirst.part part) angles (first part))
    (rests : ∀ part, Supported (ofRest.part part) angles (rest part))
    (returned : sumOfParts function first rest = .ok result) :
    Supported ((ofFirst * ofRest).part function) angles result := by
  rw [Footprint.part_mul]
  cases function with
  | sine =>
      simp only [sumOfParts, bind_eq_ok] at returned
      obtain ⟨left, leftCase, right, rightCase, sum⟩ := returned
      exact (((firsts .sine).mul (rests .cosine) leftCase).add
        ((firsts .cosine).mul (rests .sine) rightCase)) sum
  | cosine =>
      simp only [sumOfParts, bind_eq_ok] at returned
      obtain ⟨left, leftCase, right, rightCase, difference⟩ := returned
      exact (((firsts .cosine).mul (rests .cosine) leftCase).sub
        ((firsts .sine).mul (rests .sine) rightCase)) difference

/-- The function can be computed of the monomial. A multiple other than plus or minus one is shown in a
note, and so needs a text. -/
def Answers (function : Circular) (angles : AngleMap) (item : Monomial K) : Prop :=
  (item.powers = .one ∧ ∃ value, Coefficient.circular function item.coefficient = .ok value) ∨
    ∃ var, item.powers = .ofFactor (.linear var) ∧
      ((Coefficient.isZero item.coefficient = true ∧
          ∃ value, Coefficient.circular (K := K) function Coefficient.zero = .ok value) ∨
        (¬ Coefficient.isZero item.coefficient = true ∧ ∃ found multiple,
          angles.find? var = some found ∧
            Coefficient.integer? item.coefficient = .ok (some multiple) ∧
            (multiple.natAbs = 1 ∨ ∃ shown, item.text = .ok shown)))

/-- Whatever the expansion of an argument asks for: it does not depend on the order of the monomials. -/
structure Ready (function : Circular) (trig : TrigPolynomial K) : Prop where
  nothing : trig.polynomial.monomials = [] →
    ∃ value, Coefficient.circular (K := K) function Coefficient.zero = .ok value
  answers : ∀ item ∈ trig.polynomial.monomials, Answers function trig.angles item
  sum : 2 ≤ trig.polynomial.monomials.length → ∀ item ∈ trig.polynomial.monomials,
    (∀ part, Answers part trig.angles item) ∧ ∃ shown, item.text = .ok shown

/-- Whether all monomials are answered does not depend on their order. -/
theorem Ready.of_perm {function : Circular} {trig other : TrigPolynomial K}
    (ready : Ready function trig) (places : trig.angles.find? = other.angles.find?)
    (order : trig.polynomial.monomials.Perm other.polynomial.monomials) : Ready function other := by
  have moved {part : Circular} {item : Monomial K} (answers : Answers part trig.angles item) :
      Answers part other.angles item := by
    unfold Answers at answers ⊢
    rwa [← places]
  refine ⟨fun nothing => ready.nothing (List.perm_nil.1 (nothing ▸ order)), fun item member => ?_,
    fun long item member => ?_⟩
  · exact moved (ready.answers item (order.mem_iff.2 member))
  · obtain ⟨answers, shown⟩ := ready.sum (order.length_eq ▸ long) item (order.mem_iff.2 member)
    exact ⟨fun part => moved (answers part), shown⟩

/-- Only constants and linear monomials are answered. -/
theorem Answers.linear {function : Circular} {angles : AngleMap} {item : Monomial K}
    (answers : Answers function angles item) :
    item.powers = .one ∨ ∃ var, item.powers = .ofFactor (.linear var) := by
  rcases answers with ⟨powers, -⟩ | ⟨var, powers, -⟩
  · exact .inl powers
  · exact .inr ⟨var, powers⟩

/-- An argument that is ready passes the checks. -/
theorem Ready.checked {function : Circular} {trig : TrigPolynomial K} (ready : Ready function trig) :
    checkArgument function trig = .ok () :=
  checkArgument_eq_ok.2 fun item member => (ready.answers item member).linear

end

variable {R : Type} [CommRing R] [Coefficient R] [RingCoefficient R] {function : Circular}
  {trig result : TrigPolynomial R} {item : Monomial R}

/-- Additions of angles are returned over a ring. -/
theorem exists_addAngles (sine cosine : TrigPolynomial R) (additions : Nat) :
    ∃ pair, addAngles sine cosine additions = .ok pair := by
  induction additions with
  | zero => exact ⟨(sine, cosine), rfl⟩
  | succ additions hypothesis =>
      obtain ⟨before, beforeCase⟩ := hypothesis
      obtain ⟨sineCosine, one⟩ := exists_mul before.1 cosine
      obtain ⟨cosineSine, two⟩ := exists_mul before.2 sine
      obtain ⟨nextSine, sum⟩ := exists_add sineCosine cosineSine
      obtain ⟨cosineCosine, three⟩ := exists_mul before.2 cosine
      obtain ⟨sineSine, four⟩ := exists_mul before.1 sine
      obtain ⟨nextCosine, difference⟩ := exists_sub cosineCosine sineSine
      refine ⟨(nextSine, nextCosine), bind_eq_ok.2 ⟨before, beforeCase, ?_⟩⟩
      simp only [addAngle, bind_eq_ok, pure_eq_ok]
      exact ⟨sineCosine, one, cosineSine, two, nextSine, sum, cosineCosine, three, sineSine, four,
        nextCosine, difference, rfl⟩

theorem multipleAngle_returns (function : Circular) (angles : AngleMap) (found : Placeholders)
    (multiple : Int) (text : ∃ shown, item.text = .ok shown) :
    ∃ result, (multipleAngle function angles item found multiple).outcome = .ok result := by
  obtain ⟨shown, text⟩ := text
  have built (var : Int) : ∃ polynomial : Polynomial R,
      ofVariable var Coefficient.one = .ok polynomial := ⟨_, ofMonomials_singleton _⟩
  obtain ⟨sine, sineCase⟩ := built found.sine
  obtain ⟨cosine, cosineCase⟩ := built found.cosine
  obtain ⟨pair, pairCase⟩ := exists_addAngles ⟨sine, angles⟩ ⟨cosine, angles⟩ (multiple.natAbs - 1)
  exact ⟨_, multipleAngle_of_addAngles function text sineCase cosineCase pairCase⟩

theorem singleAngle_returns (function : Circular) (trig : TrigPolynomial R) (var : Int)
    (found : Placeholders) (multiple : Int) :
    ∃ result, singleAngle function trig var found multiple = .ok result := by
  obtain ⟨renamed, renamedCase, -⟩ := Reading.returns_mergeFrom trig.polynomial
    (Reading.covers_ring (trig.polynomial.monomials.map (Monomial.rename var (found.of function))))
  obtain ⟨scaled, scaledCase, -⟩ := Reading.returns_scale
    (Reading.covers_ring renamed.monomials) (show Reading.ring.exact (Coefficient.ofInt (-1) : R) from trivial)
  unfold singleAngle Polynomial.rename renameIn
  rw [renamedCase]
  cases function with
  | sine => exact ⟨_, rfl⟩
  | cosine =>
      by_cases negative : multiple = -1
      · refine ⟨⟨scaled, trig.angles⟩, bind_eq_ok.2 ⟨renamed, rfl, ?_⟩⟩
        simp only [negative, if_true]
        exact bind_eq_ok.2 ⟨scaled, scaledCase, rfl⟩
      · refine ⟨⟨renamed, trig.angles⟩, bind_eq_ok.2 ⟨renamed, rfl, ?_⟩⟩
        simp only [negative, if_false]
        rfl

theorem expandMonomial_returns (answers : Answers function trig.angles item) :
    ∃ result, (expandMonomial function trig item).outcome = .ok result := by
  rcases answers with ⟨powers, value, computed⟩ | ⟨var, powers, ⟨isZero, value, computed⟩ |
    ⟨nonzero, found, multiple, known, integer, small⟩⟩
  · rw [expandMonomial_one function powers, computed]
    exact ⟨_, rfl⟩
  · rw [expandMonomial_zero function powers isZero, computed]
    exact ⟨_, rfl⟩
  · rw [expandMonomial_linear function powers nonzero, placeholders_eq_ok.2 ⟨known, integer⟩]
    by_cases unit : multiple.natAbs = 1
    · obtain ⟨result, returned⟩ := singleAngle_returns function trig var found multiple
      exact ⟨result, (if_pos unit).trans returned⟩
    · obtain ⟨result, returned⟩ := multipleAngle_returns function trig.angles found multiple
        (small.resolve_left unit)
      exact ⟨result, (if_neg unit).trans returned⟩

/-- A monomial that is expanded answers, and the result has the powers of its footprint. -/
theorem answers_of_expandMonomial (shape : trig.polynomial.monomials = [item])
    (linear : item.powers = .one ∨ ∃ var, item.powers = .ofFactor (.linear var))
    (returned : (expandMonomial function trig item).outcome = .ok result) :
    Answers function trig.angles item ∧
      Supported ((Footprint.ofMonomial trig.angles item).part function) trig.angles result := by
  rcases linear with powers | ⟨var, powers⟩
  · rw [expandMonomial_one function powers, map_eq_ok] at returned
    obtain ⟨value, computed, rfl⟩ := returned
    rw [Footprint.ofMonomial_one powers, Footprint.part_constant]
    exact ⟨.inl ⟨powers, value, computed⟩, .constant value trig.angles⟩
  · by_cases isZero : Coefficient.isZero item.coefficient = true
    · rw [expandMonomial_zero function powers isZero, map_eq_ok] at returned
      obtain ⟨value, computed, rfl⟩ := returned
      rw [Footprint.ofMonomial_zero powers isZero, Footprint.part_constant]
      exact ⟨.inr ⟨var, powers, .inl ⟨isZero, value, computed⟩⟩, .constant value trig.angles⟩
    · rw [expandMonomial_linear function powers isZero, bind_eq_ok] at returned
      obtain ⟨⟨found, multiple⟩, places, returned⟩ := returned
      obtain ⟨known, integer⟩ := placeholders_eq_ok.1 places
      rw [Footprint.ofMonomial_linear powers isZero known,
        Monomial.multiple_of_not_isZero powers isZero integer]
      split at returned
      · rename_i unit
        rw [show multiple.natAbs = 1 from unit, pow_one]
        exact ⟨.inr ⟨var, powers, .inr ⟨isZero, found, multiple, known, integer, .inl unit⟩⟩,
          supported_singleAngle shape powers returned⟩
      · have turns : multiple ≠ 0 := by
          rintro rfl
          exact isZero (isZero_iff.2 ((RingCoefficient.integer_eq integer).trans Int.cast_zero))
        exact ⟨.inr ⟨var, powers, .inr ⟨isZero, found, multiple, known, integer,
          .inr (exists_text_of_multipleAngle returned)⟩⟩, supported_multipleAngle turns returned⟩

/-- An argument that is expanded is ready, and the result has the powers of its footprint. -/
theorem ready_of_expand (returned : (expand function trig).outcome = .ok result)
    (distinct : trig.polynomial.Distinct) : Ready function trig ∧
      Supported ((Footprint.ofSum trig.angles trig.polynomial.monomials).part function)
        trig.angles result := by
  induction function, trig using expand.induct generalizing result with
  | case1 function trig fault refused =>
      rw [expand, refused] at returned
      cases returned
  | case2 function trig checked shape =>
      rw [expand_nil checked shape, outcome_bind_eq_ok] at returned
      obtain ⟨value, computed, same⟩ := returned
      cases same
      rw [shape]
      refine ⟨⟨fun _ => ⟨value, computed⟩, ?_, ?_⟩, ?_⟩
      · rw [shape]
        exact List.forall_mem_nil _
      · rw [shape]
        exact fun _ => List.forall_mem_nil _
      · change Supported (Footprint.constant.part function) _ _
        rw [Footprint.part_constant]
        exact .constant value trig.angles
  | case3 function trig checked item shape =>
      rw [expand_singleton checked shape] at returned
      have linear := checkArgument_eq_ok.1 checked item (shape ▸ List.mem_singleton_self item)
      obtain ⟨answers, supported⟩ := answers_of_expandMonomial shape linear returned
      rw [shape, Footprint.ofSum_singleton]
      refine ⟨⟨fun nothing => ?_, ?_, fun long => ?_⟩, supported⟩
      · cases shape.symm.trans nothing
      · rw [shape]
        exact List.forall_mem_singleton.2 answers
      · rw [shape] at long
        exact (Nat.not_succ_le_self 1 long).elim
  | case4 function trig checked head second others shape first rest firstCase restCase ofFirst ofRest =>
      obtain ⟨texts, firstResults, restResults, firsts, rests, sum⟩ :=
        (expand_sum_eq_ok checked shape firstCase restCase).1 returned
      obtain ⟨firstShape, restShape, firstDistinct, restDistinct⟩ :=
        parts_of_distinct distinct shape firstCase restCase
      have answers : ∀ part, ∀ item ∈ trig.polynomial.monomials, Answers part trig.angles item :=
        fun part => forall_of_parts distinct shape firstCase restCase
          (ofFirst part (firsts part) firstDistinct).1.answers
          (ofRest part (rests part) restDistinct).1.answers
      refine ⟨⟨fun nothing => ?_, answers function, fun _ item member => ?_⟩, ?_⟩
      · cases shape.symm.trans nothing
      · exact ⟨fun part => answers part item member, Polynomial.exists_text_iff.1 texts item member⟩
      · rw [shape, Footprint.ofSum_cons_cons]
        refine supported_sumOfParts (fun part => ?_) (fun part => ?_) sum
        · rw [← firstShape]
          exact (ofFirst part (firsts part) firstDistinct).2
        · rw [← restShape]
          exact (ofRest part (rests part) restDistinct).2
  | case5 function trig checked head second others shape fault failed =>
      rw [ofMonomials_singleton] at failed
      cases failed
  | case6 function trig checked head second others shape fault failed _ =>
      rw [expand_rest_failed checked shape failed] at returned
      cases returned

/-- The formula for sums is returned over a ring. -/
theorem exists_sumOfParts (function : Circular) (first rest : Circular → TrigPolynomial R) :
    ∃ result, sumOfParts function first rest = .ok result := by
  cases function with
  | sine =>
      obtain ⟨left, leftCase⟩ := exists_mul (first .sine) (rest .cosine)
      obtain ⟨right, rightCase⟩ := exists_mul (first .cosine) (rest .sine)
      obtain ⟨sum, added⟩ := exists_add left right
      exact ⟨sum, bind_eq_ok.2 ⟨left, leftCase, bind_eq_ok.2 ⟨right, rightCase, added⟩⟩⟩
  | cosine =>
      obtain ⟨left, leftCase⟩ := exists_mul (first .cosine) (rest .cosine)
      obtain ⟨right, rightCase⟩ := exists_mul (first .sine) (rest .sine)
      obtain ⟨difference, subtracted⟩ := exists_sub left right
      exact ⟨difference, bind_eq_ok.2 ⟨left, leftCase, bind_eq_ok.2 ⟨right, rightCase, subtracted⟩⟩⟩

/-- An argument that is ready is expanded over a ring. -/
theorem expand_of_ready (ready : Ready function trig) (distinct : trig.polynomial.Distinct) :
    ∃ result, (expand function trig).outcome = .ok result := by
  induction function, trig using expand.induct with
  | case1 function trig fault refused => cases ready.checked.symm.trans refused
  | case2 function trig checked shape =>
      obtain ⟨value, computed⟩ := ready.nothing shape
      rw [expand_nil checked shape, outcome_bind_of_ok (outcome_lift_eq_ok.2 computed)]
      exact ⟨_, rfl⟩
  | case3 function trig checked item shape =>
      rw [expand_singleton checked shape]
      exact expandMonomial_returns (ready.answers item (shape ▸ List.mem_singleton_self item))
  | case4 function trig checked head second others shape first rest firstCase restCase ofFirst ofRest =>
      obtain ⟨firstShape, restShape, firstDistinct, restDistinct⟩ :=
        parts_of_distinct distinct shape firstCase restCase
      have long : 2 ≤ trig.polynomial.monomials.length := by
        rw [shape]
        exact Nat.le_add_left 2 others.length
      have part {monomials : List (Monomial R)} {polynomial : Polynomial R} (function : Circular)
          (same : polynomial.monomials = monomials) (nonempty : monomials ≠ [])
          (inside : monomials ⊆ trig.polynomial.monomials) : Ready function ⟨polynomial, trig.angles⟩ := by
        refine ⟨fun nothing => (nonempty (same.symm.trans nothing)).elim, fun item member => ?_,
          fun _ item member => ?_⟩
        · exact (ready.sum long item (inside (same ▸ member))).1 function
        · exact ready.sum long item (inside (same ▸ member))
      have inFirst : [head] ⊆ trig.polynomial.monomials := by
        rw [shape]
        exact List.cons_subset_cons head (List.nil_subset _)
      have inRest : second :: others ⊆ trig.polynomial.monomials := by
        rw [shape]
        exact List.subset_cons_self head _
      choose firstResults firsts using fun function =>
        ofFirst function (part function firstShape (List.cons_ne_nil _ _) inFirst) firstDistinct
      choose restResults rests using fun function =>
        ofRest function (part function restShape (List.cons_ne_nil _ _) inRest) restDistinct
      obtain ⟨result, sum⟩ := exists_sumOfParts function firstResults restResults
      have texts := Polynomial.exists_text_iff.2 fun item member => (ready.sum long item member).2
      exact ⟨result, (expand_sum_eq_ok checked shape firstCase restCase).2
        ⟨texts, firstResults, restResults, firsts, rests, sum⟩⟩
  | case5 function trig checked head second others shape fault failed =>
      rw [ofMonomials_singleton] at failed
      cases failed
  | case6 function trig checked head second others shape fault failed _ =>
      rw [Distinct, shape, powersOf, List.map_cons, List.nodup_cons] at distinct
      rw [ofMonomials_of_nodup distinct.2] at failed
      cases failed

/-- An argument with the same monomials in another order is expanded to an equal result, which has the
same powers, also those with the coefficient zero. -/
theorem expand_reordered (trig other : TrigPolynomial R) (distinct : trig.polynomial.Distinct)
    (order : other.polynomial.monomials.Perm trig.polynomial.monomials)
    (angles : other.angles.same trig.angles = true) (function : Circular) (result : TrigPolynomial R)
    (returned : (expand function trig).outcome = .ok result) :
    ∃ reordered, (expand function other).outcome = .ok reordered ∧ reordered.same result = true ∧
      ∀ product, product ∈ powersOf reordered.polynomial.monomials ↔
        product ∈ powersOf result.polynomial.monomials := by
  have places := AngleMap.find?_eq_of_same angles
  have otherDistinct : other.polynomial.Distinct := (order.map _).nodup_iff.2 distinct
  obtain ⟨ready, supported⟩ := ready_of_expand returned distinct
  obtain ⟨reordered, otherReturned⟩ := expand_of_ready (ready.of_perm places.symm order.symm) otherDistinct
  obtain ⟨-, otherSupported⟩ := ready_of_expand otherReturned otherDistinct
  rw [Footprint.ofSum_of_perm places order] at otherSupported
  have powers (product : PowerProduct) : product ∈ powersOf reordered.polynomial.monomials ↔
      product ∈ powersOf result.polynomial.monomials := by
    rw [otherSupported.mem_iff, supported.mem_iff]
  have forms : reordered.formal = result.formal := by
    rw [formal_expands (expands_of_expand otherReturned) otherDistinct,
      formal_expands (expands_of_expand returned) distinct, Rotation.ofSum_of_perm places order]
  refine ⟨reordered, otherReturned, ?_, powers⟩
  rw [same, otherSupported.angles_eq, supported.angles_eq, angles, Bool.and_true]
  exact Reading.same_of_formal_eq (Reading.covers_ring _) (Reading.covers_ring _)
    otherSupported.distinct supported.distinct powers forms

/-- Three multiples of angles in the other order, and the map of angles in the other order too. -/
def chainedBackwards : TrigPolynomial Int :=
  ⟨⟨chained.polynomial.monomials.reverse, false⟩, (AngleMap.empty.set 2 ⟨10, 12⟩).set 4 ⟨8, 10⟩⟩

theorem expand_reordered_chained : chained.polynomial.Distinct ∧
    chainedBackwards.polynomial.monomials.Perm chained.polynomial.monomials ∧
    chainedBackwards.angles.same chained.angles = true ∧
    ∃ sine cosine sine' cosine', chained.sine.outcome = .ok sine ∧ chained.cosine.outcome = .ok cosine ∧
      chainedBackwards.sine.outcome = .ok sine' ∧ chainedBackwards.cosine.outcome = .ok cosine' ∧
      sine'.same sine = true ∧ cosine'.same cosine = true := by
  have distinct : chained.polynomial.Distinct := by
    unfold Distinct
    decide
  have order := chained.polynomial.monomials.reverse_perm
  have angles : chainedBackwards.angles.same chained.angles = true := by decide
  have sineReturns : ∃ result, chained.sine.outcome = .ok result := by decide +kernel
  have cosineReturns : ∃ result, chained.cosine.outcome = .ok result := by decide +kernel
  obtain ⟨sine, sineCase⟩ := sineReturns
  obtain ⟨cosine, cosineCase⟩ := cosineReturns
  obtain ⟨sine', sineCase', sines, -⟩ :=
    expand_reordered chained chainedBackwards distinct order angles .sine sine sineCase
  obtain ⟨cosine', cosineCase', cosines, -⟩ :=
    expand_reordered chained chainedBackwards distinct order angles .cosine cosine cosineCase
  exact ⟨distinct, order, angles, sine, cosine, sine', cosine', sineCase, cosineCase, sineCase',
    cosineCase', sines, cosines⟩

end TrigPolynomial

end TrigAlgebra
