/-
This file says what the monomials of an expanded sine or cosine look like: all have the same total
degree, and their variables are placeholders of the angles.
-/

import Mathlib.Data.Finsupp.Weight
import TrigAlgebra.Proofs.AngleAddition
import TrigAlgebra.Proofs.TrigWellFormed
import TrigAlgebra.Proofs.WholeNumbers

namespace TrigAlgebra

open TrigAlgebra.Polynomial TrigPolynomial

namespace PowerProduct

/-- The sum of the powers. -/
def totalDegree (product : PowerProduct) : Nat :=
  (product.factors.map Factor.power).sum

/-- The total degree is the degree of the exponents. -/
theorem totalDegree_eq (product : PowerProduct) : product.totalDegree = product.exponents.degree := by
  unfold totalDegree exponents
  induction product.factors with
  | nil => exact (map_zero Finsupp.degree).symm
  | cons head rest hypothesis =>
      rw [List.map_cons, List.sum_cons, hypothesis, exponentsOf_cons, map_add, Finsupp.degree_single]

@[simp] theorem totalDegree_one : one.totalDegree = 0 := rfl

@[simp] theorem totalDegree_linear (var : Int) : (ofFactor (.linear var)).totalDegree = 1 := rfl

@[simp] theorem totalDegree_mul (first second : PowerProduct) :
    (first.mul second).totalDegree = first.totalDegree + second.totalDegree := by
  rw [totalDegree_eq, exponents_mul, map_add, ← totalDegree_eq, ← totalDegree_eq]

theorem rename_linear (old new : Int) :
    (ofFactor (.linear old)).rename old new = ofFactor (.linear new) := by
  apply exponents_injective
  rw [rename, exponents_ofFactors]
  change exponentsOf [Factor.rename old new (.linear old)] = exponentsOf [.linear new]
  rw [Factor.rename]
  simp only [Factor.linear, if_true]

end PowerProduct

namespace AngleMap

/-- Writing an entry that is there changes nothing. -/
theorem setEntry_of_mem {angle : Int} {found : Placeholders} {entries : List (Int × Placeholders)}
    (distinct : (entries.map Prod.fst).Nodup) (member : (angle, found) ∈ entries) :
    setEntry angle found entries = entries := by
  induction entries with
  | nil => exact (List.not_mem_nil member).elim
  | cons head rest hypothesis =>
      rw [List.map_cons, List.nodup_cons] at distinct
      rw [setEntry]
      rcases List.mem_cons.1 member with rfl | inRest
      · exact if_pos rfl
      · have different : head.1 ≠ angle := fun same =>
          distinct.1 (same ▸ List.mem_map_of_mem inRest)
        rw [if_neg different, hypothesis distinct.2 inRest]

/-- Taking over its own entries leaves a map as it is, in the same order. -/
theorem update_self (angles : AngleMap) : angles.update angles = angles := by
  have kept (entries : List (Int × Placeholders)) (inside : ∀ entry ∈ entries, entry ∈ angles.entries) :
      entries.foldl (fun angles entry => angles.set entry.1 entry.2) angles = angles := by
    induction entries with
    | nil => rfl
    | cons head rest hypothesis =>
        have unchanged : angles.set head.1 head.2 = angles := by
          obtain ⟨entries, distinct⟩ := angles
          unfold set
          congr
          exact setEntry_of_mem distinct (inside head List.mem_cons_self)
        rw [List.foldl_cons, unchanged]
        exact hypothesis fun entry member => inside entry (List.mem_cons_of_mem head member)
  exact kept angles.entries fun _ member => member

end AngleMap

namespace Monomial

variable {K : Type} [Coefficient K]

/-- The integer by which a linear monomial multiplies its variable; constants have none. -/
def multiple (item : Monomial K) : Int :=
  if item.isConstant || Coefficient.isZero item.coefficient then 0
  else
    match Coefficient.integer? item.coefficient with
    | .ok (some multiple) => multiple
    | _ => 0

theorem multiple_of_one {item : Monomial K} (powers : item.powers = .one) : item.multiple = 0 := by
  have constant : item.isConstant = true := PowerProduct.isOne_iff.2 powers
  rw [multiple, constant]
  rfl

theorem multiple_of_isZero {item : Monomial K} (isZero : Coefficient.isZero item.coefficient = true) :
    item.multiple = 0 := by
  rw [multiple, isZero, Bool.or_true]
  rfl

/-- A variable has the multiple that its coefficient is. -/
theorem multiple_of_not_isZero {item : Monomial K} {var : Int} {multiple : Int}
    (powers : item.powers = .ofFactor (.linear var))
    (nonzero : ¬ Coefficient.isZero item.coefficient = true)
    (integer : Coefficient.integer? item.coefficient = .ok (some multiple)) :
    item.multiple = multiple := by
  have linear : item.isConstant = false := by
    rw [isConstant, powers]
    rfl
  rw [Monomial.multiple, linear, Bool.eq_false_iff.2 nonzero, integer]
  rfl

/-- Also a zero coefficient is its own multiple. -/
theorem multiple_of_integer [WholeCoefficient K] {item : Monomial K} {var : Int} {multiple : Int}
    (powers : item.powers = .ofFactor (.linear var))
    (integer : Coefficient.integer? item.coefficient = .ok (some multiple)) :
    item.multiple = multiple := by
  by_cases isZero : Coefficient.isZero item.coefficient = true
  · rw [multiple_of_isZero isZero, (WholeCoefficient.isZero_iff_eq_zero integer).1 isZero]
  · exact multiple_of_not_isZero powers isZero integer

end Monomial

namespace Polynomial

variable {K : Type}

/-- All monomials have the same total degree and no variables but the given ones. -/
def Homogeneous (degree : Nat) (vars : Set Int) (polynomial : Polynomial K) : Prop :=
  ∀ powers ∈ powersOf polynomial.monomials,
    powers.totalDegree = degree ∧ ∀ var, powers.Has var → var ∈ vars

namespace Homogeneous

variable {degree : Nat} {vars : Set Int}

/-- More variables may be allowed. -/
theorem mono {others : Set Int} {polynomial : Polynomial K} (inside : vars ⊆ others)
    (homogeneous : Homogeneous degree vars polynomial) : Homogeneous degree others polynomial :=
  fun powers member =>
    ⟨(homogeneous powers member).1, fun var has => inside ((homogeneous powers member).2 var has)⟩

theorem constant (value : K) : Homogeneous 0 vars (.constant value) := by
  intro powers member
  rw [List.mem_singleton.1 member]
  exact ⟨rfl, fun var has => (PowerProduct.not_has_one has).elim⟩

theorem linear {polynomial : Polynomial K} {item : Monomial K} {var : Int}
    (shape : polynomial.monomials = [item]) (powers : item.powers = .ofFactor (.linear var))
    (inside : var ∈ vars) : Homogeneous 1 vars polynomial := by
  intro product member
  rw [shape] at member
  rw [List.mem_singleton.1 member]
  change item.powers.totalDegree = 1 ∧ ∀ other, item.powers.Has other → other ∈ vars
  rw [powers]
  exact ⟨rfl, fun other has => PowerProduct.has_ofFactor.1 has ▸ inside⟩

variable [Coefficient K]

theorem neg {polynomial : Polynomial K} (homogeneous : Homogeneous degree vars polynomial) :
    Homogeneous degree vars polynomial.neg := by
  intro powers member
  rw [Polynomial.neg, powersOf_negated] at member
  exact homogeneous powers member

/-- Merging keeps the shape of the monomials. -/
theorem mergeFrom {polynomial merged : Polynomial K} {monomials : List (Monomial K)}
    (returned : (polynomial.mergeFrom monomials).result = .ok merged)
    (each : ∀ powers ∈ powersOf monomials,
      powers.totalDegree = degree ∧ ∀ var, powers.Has var → var ∈ vars) :
    Homogeneous degree vars merged :=
  fun powers member => each powers ((mem_powersOf_merge (mergeFrom_eq_ok.1 returned).1).1 member)

/-- Sums of one degree keep it. -/
theorem add {first second sum : Polynomial K} (firstPart : Homogeneous degree vars first)
    (secondPart : Homogeneous degree vars second) (returned : first.add second = .ok sum) :
    Homogeneous degree vars sum := by
  refine mergeFrom returned fun powers member => ?_
  rw [powersOf, List.map_append, List.mem_append] at member
  exact member.elim (firstPart powers) (secondPart powers)

/-- Differences of one degree keep it. -/
theorem sub {first second difference : Polynomial K} (firstPart : Homogeneous degree vars first)
    (secondPart : Homogeneous degree vars second) (returned : first.sub second = .ok difference) :
    Homogeneous degree vars difference := by
  refine mergeFrom returned fun powers member => ?_
  rw [powersOf, List.map_append, List.mem_append] at member
  exact member.elim (firstPart powers) (secondPart.neg powers)

/-- Degrees of products are added. -/
theorem mul {degree' : Nat} {first second product : Polynomial K}
    (firstPart : Homogeneous degree vars first) (secondPart : Homogeneous degree' vars second)
    (returned : first.mul second = .ok product) :
    Homogeneous (degree + degree') vars product := by
  obtain ⟨monomials, pairs, merged, -⟩ := Polynomial.mul_eq_ok.1 returned
  intro powers member
  rw [mem_powersOf_merge merged, mem_powersOf_products pairs] at member
  obtain ⟨left, isLeft, right, isRight, rfl⟩ := member
  obtain ⟨leftDegree, leftVars⟩ := firstPart left isLeft
  obtain ⟨rightDegree, rightVars⟩ := secondPart right isRight
  refine ⟨by rw [PowerProduct.totalDegree_mul, leftDegree, rightDegree], fun var has => ?_⟩
  exact (PowerProduct.has_mul.1 has).elim (leftVars var) (rightVars var)

/-- A scalar changes no degree. -/
theorem scale {polynomial scaled : Polynomial K} {scalar : K}
    (homogeneous : Homogeneous degree vars polynomial)
    (returned : polynomial.scale scalar = .ok scaled) : Homogeneous degree vars scaled := by
  obtain ⟨monomials, written, rfl⟩ := exchange_eq_ok.1 returned
  intro powers member
  rw [powersOf_mapM (fun _ _ => powers_scaled) written] at member
  exact homogeneous powers member

end Homogeneous

end Polynomial

namespace TrigPolynomial

variable {K : Type} [Coefficient K]

/-- The sum of the sizes of all multiples. -/
def totalMultiple (trig : TrigPolynomial K) : Nat :=
  (trig.polynomial.monomials.map fun item => item.multiple.natAbs).sum

/-- The placeholders of the variables with a multiple other than zero. -/
def turned (trig : TrigPolynomial K) : Set Int :=
  {var | ∃ item ∈ trig.polynomial.monomials, ∃ angle found,
    item.powers = .ofFactor (.linear angle) ∧ item.multiple ≠ 0 ∧
      trig.angles.find? angle = some found ∧ (var = found.sine ∨ var = found.cosine)}

/-- The placeholders of a turned angle are turned. -/
theorem of_mem_turned {trig : TrigPolynomial K} {item : Monomial K} {angle : Int}
    {found : Placeholders} (member : item ∈ trig.polynomial.monomials)
    (powers : item.powers = .ofFactor (.linear angle)) (nonzero : item.multiple ≠ 0)
    (known : trig.angles.find? angle = some found) (function : Circular) :
    found.of function ∈ trig.turned := by
  refine ⟨item, member, angle, found, powers, nonzero, known, ?_⟩
  cases function with
  | sine => exact .inl rfl
  | cosine => exact .inr rfl

/-- Fewer monomials turn fewer angles. -/
theorem turned_subset {trig : TrigPolynomial K} {part : Polynomial K}
    (inside : part.monomials ⊆ trig.polynomial.monomials) :
    turned ⟨part, trig.angles⟩ ⊆ trig.turned := by
  rintro var ⟨item, member, facts⟩
  exact ⟨item, inside member, facts⟩

/-- The parts of a sum with distinct powers have the monomials of the sum. -/
theorem parts_of_distinct {trig : TrigPolynomial K} {head : Monomial K}
    {others : List (Monomial K)} {first rest : Polynomial K} (distinct : trig.polynomial.Distinct)
    (shape : trig.polynomial.monomials = head :: others) (firstCase : ofMonomials [head] = .ok first)
    (restCase : ofMonomials others = .ok rest) :
    first.monomials = [head] ∧ rest.monomials = others ∧ first.Distinct ∧ rest.Distinct := by
  unfold Distinct at distinct
  rw [shape, powersOf, List.map_cons, List.nodup_cons] at distinct
  have alone : (powersOf [head]).Nodup := List.nodup_singleton _
  rw [ofMonomials_of_nodup alone] at firstCase
  rw [ofMonomials_of_nodup distinct.2] at restCase
  cases firstCase
  cases restCase
  exact ⟨rfl, rfl, alone, distinct.2⟩

/-- What holds of the monomials of both parts holds of those of the sum. -/
theorem forall_of_parts {trig : TrigPolynomial K} {head : Monomial K} {others : List (Monomial K)}
    {first rest : Polynomial K} {property : Monomial K → Prop} (distinct : trig.polynomial.Distinct)
    (shape : trig.polynomial.monomials = head :: others) (firstCase : ofMonomials [head] = .ok first)
    (restCase : ofMonomials others = .ok rest) (ofFirst : ∀ item ∈ first.monomials, property item)
    (ofRest : ∀ item ∈ rest.monomials, property item) :
    ∀ item ∈ trig.polynomial.monomials, property item := by
  obtain ⟨firstShape, restShape, -, -⟩ := parts_of_distinct distinct shape firstCase restCase
  rw [firstShape] at ofFirst
  rw [restShape] at ofRest
  rw [shape]
  exact List.forall_mem_cons.2 ⟨ofFirst head (List.mem_singleton_self head), ofRest⟩

/-- Multiples of the parts are added, and no part turns more than the sum. -/
theorem parts_of_sum {trig : TrigPolynomial K} {head : Monomial K} {others : List (Monomial K)}
    {first rest : Polynomial K} (distinct : trig.polynomial.Distinct)
    (shape : trig.polynomial.monomials = head :: others) (firstCase : ofMonomials [head] = .ok first)
    (restCase : ofMonomials others = .ok rest) :
    first.Distinct ∧ rest.Distinct ∧
      trig.totalMultiple = totalMultiple ⟨first, trig.angles⟩ + totalMultiple ⟨rest, trig.angles⟩ ∧
      turned ⟨first, trig.angles⟩ ⊆ trig.turned ∧ turned ⟨rest, trig.angles⟩ ⊆ trig.turned := by
  obtain ⟨firstShape, restShape, firstDistinct, restDistinct⟩ :=
    parts_of_distinct distinct shape firstCase restCase
  refine ⟨firstDistinct, restDistinct, ?_, turned_subset ?_, turned_subset ?_⟩
  · simp only [totalMultiple, shape, firstShape, restShape, List.map_cons, List.map_nil,
      List.sum_cons, List.sum_nil, Nat.add_zero]
  · rw [firstShape, shape]
    exact fun item member => List.mem_cons.2 (.inl (List.mem_singleton.1 member))
  · rw [restShape, shape]
    exact List.subset_cons_self head others

/-- A polynomial of one total degree in some variables, with a given map of angles. -/
structure Shaped (degree : Nat) (vars : Set Int) (angles : AngleMap) (trig : TrigPolynomial K) :
    Prop where
  homogeneous : Homogeneous degree vars trig.polynomial
  angles_eq : trig.angles = angles

namespace Shaped

variable {degree degree' : Nat} {vars : Set Int} {angles : AngleMap}
  {first second result : TrigPolynomial K}

omit [Coefficient K] in
/-- Equal maps are joined to themselves. -/
theorem update_eq (firstPart : Shaped degree vars angles first)
    (secondPart : Shaped degree' vars angles second) :
    first.angles.update second.angles = angles := by
  rw [firstPart.angles_eq, secondPart.angles_eq, AngleMap.update_self]

omit [Coefficient K] in
theorem widen {others : Set Int} (inside : vars ⊆ others) (part : Shaped degree vars angles first) :
    Shaped degree others angles first :=
  ⟨part.homogeneous.mono inside, part.angles_eq⟩

/-- A product has the sum of both degrees, and the angles of its factors. -/
theorem mul (firstPart : Shaped degree vars angles first)
    (secondPart : Shaped degree' vars angles second) (returned : first.mul second = .ok result) :
    Shaped (degree + degree') vars angles result := by
  obtain ⟨product, joined⟩ := mul_eq_ok.1 returned
  exact ⟨firstPart.homogeneous.mul secondPart.homogeneous product,
    joined.trans (firstPart.update_eq secondPart)⟩

/-- A sum has the degree of both parts, and their angles. -/
theorem add (firstPart : Shaped degree vars angles first)
    (secondPart : Shaped degree vars angles second) (returned : first.add second = .ok result) :
    Shaped degree vars angles result := by
  obtain ⟨sum, joined⟩ := add_eq_ok.1 returned
  exact ⟨firstPart.homogeneous.add secondPart.homogeneous sum,
    joined.trans (firstPart.update_eq secondPart)⟩

/-- A difference has the degree of both parts, and their angles. -/
theorem sub (firstPart : Shaped degree vars angles first)
    (secondPart : Shaped degree vars angles second) (returned : first.sub second = .ok result) :
    Shaped degree vars angles result := by
  obtain ⟨difference, joined⟩ := sub_eq_ok.1 returned
  exact ⟨firstPart.homogeneous.sub secondPart.homogeneous difference,
    joined.trans (firstPart.update_eq secondPart)⟩

/-- Every addition of an angle raises the total degree by one. -/
theorem addAngles {sine cosine : TrigPolynomial K} (sinePart : Shaped 1 vars angles sine)
    (cosinePart : Shaped 1 vars angles cosine) {additions : Nat}
    {pair : TrigPolynomial K × TrigPolynomial K}
    (returned : TrigPolynomial.addAngles sine cosine additions = .ok pair) :
    Shaped (additions + 1) vars angles pair.1 ∧ Shaped (additions + 1) vars angles pair.2 := by
  induction additions generalizing pair with
  | zero =>
      cases returned
      exact ⟨sinePart, cosinePart⟩
  | succ additions hypothesis =>
      obtain ⟨before, beforeCase, returned⟩ := bind_eq_ok.1 returned
      obtain ⟨sineBefore, cosineBefore⟩ := hypothesis beforeCase
      simp only [addAngle, bind_eq_ok, pure_eq_ok] at returned
      obtain ⟨sineCosine, one, cosineSine, two, nextSine, sum, cosineCosine, three, sineSine, four,
        nextCosine, difference, rfl⟩ := returned
      exact ⟨((sineBefore.mul cosinePart one).add (cosineBefore.mul sinePart two)) sum,
        ((cosineBefore.mul cosinePart three).sub (sineBefore.mul sinePart four)) difference⟩

end Shaped

theorem shaped_ofVariable {vars : Set Int} {angles : AngleMap} {var : Int} {polynomial : Polynomial K}
    (inside : var ∈ vars) (returned : ofVariable var Coefficient.one = .ok polynomial) :
    Shaped 1 vars angles ⟨polynomial, angles⟩ :=
  ⟨.linear (monomials_ofVariable returned) rfl inside, rfl⟩

/-- A multiple angle has the degree of the multiple. -/
theorem shaped_multipleAngle {function : Circular} {vars : Set Int} {angles : AngleMap}
    {item : Monomial K} {found : Placeholders} {multiple : Int} {result : TrigPolynomial K}
    (nonzero : multiple ≠ 0) (inside : ∀ function, found.of function ∈ vars)
    (returned : (multipleAngle function angles item found multiple).outcome = .ok result) :
    Shaped multiple.natAbs vars angles result := by
  obtain ⟨sine, cosine, pair, sineCase, cosineCase, pairCase, rfl⟩ := multipleAngle_eq_ok returned
  obtain ⟨ofSine, ofCosine⟩ := (shaped_ofVariable (inside .sine) sineCase).addAngles
    (shaped_ofVariable (inside .cosine) cosineCase) pairCase
  have count : multiple.natAbs - 1 + 1 = multiple.natAbs := by omega
  rw [count] at ofSine ofCosine
  cases function with
  | sine =>
      unfold signed
      dsimp only
      split
      · exact ⟨ofSine.homogeneous.neg, ofSine.angles_eq⟩
      · exact ofSine
  | cosine => exact ofCosine

/-- A single angle has the first degree. -/
theorem shaped_singleAngle {function : Circular} {vars : Set Int} {trig result : TrigPolynomial K}
    {item : Monomial K} {var : Int} {found : Placeholders} {multiple : Int}
    (shape : trig.polynomial.monomials = [item]) (powers : item.powers = .ofFactor (.linear var))
    (inside : found.of function ∈ vars)
    (returned : singleAngle function trig var found multiple = .ok result) :
    Shaped 1 vars trig.angles result := by
  obtain ⟨angles, renamed, renamedCase, scaled⟩ := singleAngle_eq_ok returned
  have homogeneous : Homogeneous 1 vars renamed := by
    refine .mergeFrom renamedCase fun product member => ?_
    have linear : (item.rename var (found.of function)).powers =
        .ofFactor (.linear (found.of function)) := by
      rw [Monomial.rename, powers, PowerProduct.rename_linear]
    rw [shape, powersOf, List.map_singleton, List.map_singleton, List.mem_singleton, linear] at member
    rw [member]
    exact ⟨rfl, fun other has => PowerProduct.has_ofFactor.1 has ▸ inside⟩
  refine ⟨?_, angles⟩
  split at scaled
  · exact homogeneous.scale scaled
  · exact scaled ▸ homogeneous

/-- However the expansion comes to its result, its total degree is that of all multiples. -/
theorem shaped_expands [WholeCoefficient K] {function : Circular} {trig result : TrigPolynomial K}
    (expands : Expands function trig result) (distinct : trig.polynomial.Distinct) :
    Shaped trig.totalMultiple trig.turned trig.angles result := by
  induction expands with
  | nothing shape returned =>
      rw [totalMultiple, shape]
      exact ⟨.constant _, rfl⟩
  | constant shape powers returned =>
      rw [totalMultiple, shape, List.map_singleton, List.sum_singleton, Monomial.multiple_of_one powers]
      exact ⟨.constant _, rfl⟩
  | zero shape powers isZero returned =>
      rw [totalMultiple, shape, List.map_singleton, List.sum_singleton,
        Monomial.multiple_of_isZero isZero]
      exact ⟨.constant _, rfl⟩
  | single shape powers known integer unit returned =>
      have whole := Monomial.multiple_of_integer powers integer
      rw [totalMultiple, shape, List.map_singleton, List.sum_singleton, whole, unit]
      refine shaped_singleAngle shape powers (of_mem_turned ?_ powers ?_ known _) returned
      · exact shape ▸ List.mem_singleton_self _
      · omega
  | multiple shape powers nonzero known integer returned =>
      have whole := Monomial.multiple_of_integer powers integer
      -- A multiple of zero would leave the placeholders themselves, of total degree one.
      have turns := fun zero => nonzero ((WholeCoefficient.isZero_iff_eq_zero integer).2 zero)
      rw [totalMultiple, shape, List.map_singleton, List.sum_singleton, whole]
      refine shaped_multipleAngle turns (of_mem_turned ?_ powers (whole ▸ turns) known) returned
      exact shape ▸ List.mem_singleton_self _
  | sineOfSum shape firstCase restCase _ _ _ _ left right sum sineFirst cosineFirst sineRest cosineRest =>
      obtain ⟨firstDistinct, restDistinct, total, firstTurned, restTurned⟩ :=
        parts_of_sum distinct shape firstCase restCase
      rw [total]
      exact ((((sineFirst firstDistinct).widen firstTurned).mul
        ((cosineRest restDistinct).widen restTurned) left).add
          (((cosineFirst firstDistinct).widen firstTurned).mul
            ((sineRest restDistinct).widen restTurned) right)) sum
  | cosineOfSum shape firstCase restCase _ _ _ _ left right difference sineFirst cosineFirst sineRest
      cosineRest =>
      obtain ⟨firstDistinct, restDistinct, total, firstTurned, restTurned⟩ :=
        parts_of_sum distinct shape firstCase restCase
      rw [total]
      exact ((((cosineFirst firstDistinct).widen firstTurned).mul
        ((cosineRest restDistinct).widen restTurned) left).sub
          (((sineFirst firstDistinct).widen firstTurned).mul
            ((sineRest restDistinct).widen restTurned) right)) difference

/-- In an argument that is expanded each variable with a coefficient other than zero has placeholders,
and the coefficient is its multiple. -/
theorem multiple_of_expands {function : Circular} {trig result : TrigPolynomial K}
    (expands : Expands function trig result) (distinct : trig.polynomial.Distinct) :
    ∀ item ∈ trig.polynomial.monomials,
      item.powers ≠ .one → ¬ Coefficient.isZero item.coefficient = true →
        ∃ angle found, item.powers = .ofFactor (.linear angle) ∧
          trig.angles.find? angle = some found ∧
          Coefficient.integer? item.coefficient = .ok (some item.multiple) := by
  have alone {trig : TrigPolynomial K} {item : Monomial K} {angle : Int} {found : Placeholders}
      {multiple : Int} (shape : trig.polynomial.monomials = [item])
      (powers : item.powers = .ofFactor (.linear angle)) (known : trig.angles.find? angle = some found)
      (integer : Coefficient.integer? item.coefficient = .ok (some multiple)) :
      ∀ other ∈ trig.polynomial.monomials,
        other.powers ≠ .one → ¬ Coefficient.isZero other.coefficient = true →
          ∃ angle found, other.powers = .ofFactor (.linear angle) ∧
            trig.angles.find? angle = some found ∧
            Coefficient.integer? other.coefficient = .ok (some other.multiple) := by
    intro other member _ nonzero
    rw [shape, List.mem_singleton] at member
    subst member
    have whole := Monomial.multiple_of_not_isZero powers nonzero integer
    exact ⟨angle, found, powers, known, whole ▸ integer⟩
  induction expands with
  | nothing shape returned =>
      rw [shape]
      exact fun item member => (List.not_mem_nil member).elim
  | constant shape powers returned =>
      intro item member linear
      rw [shape, List.mem_singleton] at member
      exact (linear (member ▸ powers)).elim
  | zero shape powers isZero returned =>
      intro item member _ nonzero
      rw [shape, List.mem_singleton] at member
      exact (nonzero (member ▸ isZero)).elim
  | single shape powers known integer unit returned => exact alone shape powers known integer
  | multiple shape powers nonzero known integer returned => exact alone shape powers known integer
  | sineOfSum shape firstCase restCase _ _ _ _ left right sum sineFirst cosineFirst sineRest cosineRest =>
      obtain ⟨firstDistinct, restDistinct, -, -, -⟩ := parts_of_sum distinct shape firstCase restCase
      exact forall_of_parts distinct shape firstCase restCase (sineFirst firstDistinct)
        (sineRest restDistinct)
  | cosineOfSum shape firstCase restCase _ _ _ _ left right difference sineFirst cosineFirst sineRest
      cosineRest =>
      obtain ⟨firstDistinct, restDistinct, -, -, -⟩ := parts_of_sum distinct shape firstCase restCase
      exact forall_of_parts distinct shape firstCase restCase (sineFirst firstDistinct)
        (sineRest restDistinct)

/-- All monomials of an expanded sine or cosine have one total degree, the sum of the sizes of all
multiples, and no variables but the placeholders of variables with a multiple other than zero. The
map of angles stays, in its order. -/
theorem homogeneous_expansion [WholeCoefficient K] (trig : TrigPolynomial K)
    (distinct : trig.polynomial.Distinct) (function : Circular) (result : TrigPolynomial K)
    (returned : (expand function trig).outcome = .ok result) :
    (∀ source ∈ trig.polynomial.monomials,
      source.powers ≠ .one → ¬ Coefficient.isZero source.coefficient = true →
        ∃ angle found, source.powers = .ofFactor (.linear angle) ∧
          trig.angles.find? angle = some found ∧
          Coefficient.integer? source.coefficient = .ok (some source.multiple)) ∧
      (∀ item ∈ result.polynomial.monomials,
        item.powers.totalDegree =
            (trig.polynomial.monomials.map fun source => source.multiple.natAbs).sum ∧
          ∀ var ∈ item.powers.vars, ∃ source ∈ trig.polynomial.monomials, ∃ angle found,
            source.powers = .ofFactor (.linear angle) ∧ source.multiple ≠ 0 ∧
              trig.angles.find? angle = some found ∧ (var = found.sine ∨ var = found.cosine)) ∧
      result.angles = trig.angles := by
  have expands := expands_of_expand returned
  obtain ⟨homogeneous, angles⟩ := shaped_expands expands distinct
  refine ⟨multiple_of_expands expands distinct, fun item member => ?_, angles⟩
  obtain ⟨degree, vars⟩ := homogeneous item.powers (List.mem_map_of_mem member)
  exact ⟨degree, fun var has => vars var (PowerProduct.mem_vars.1 has)⟩

instance : WholeCoefficient Int where
  isZero_iff_eq_zero := by
    intro value integer returned
    cases returned
    exact beq_iff_eq

/-- Two angles that share a placeholder, a variable without placeholders that has no multiple, and a
constant. -/
def sharedPlaceholder : TrigPolynomial Int :=
  ⟨⟨[⟨-2, .ofFactor (.linear 2)⟩, ⟨0, .ofFactor (.linear 6)⟩, .constant 1, ⟨3, .ofFactor (.linear 4)⟩],
    false⟩, (AngleMap.empty.set 4 ⟨8, 10⟩).set 2 ⟨10, 12⟩⟩

theorem homogeneous_expansion_sharedPlaceholder : sharedPlaceholder.polynomial.Distinct ∧
    ∃ result, (expand .cosine sharedPlaceholder).outcome = .ok result ∧
      (∀ item ∈ result.polynomial.monomials, item.powers.totalDegree = 5 ∧
        ∀ var ∈ item.powers.vars, var = 8 ∨ var = 10 ∨ var = 12) ∧
      result.angles.entries = [(4, ⟨8, 10⟩), (2, ⟨10, 12⟩)] := by
  have distinct : sharedPlaceholder.polynomial.Distinct := by
    unfold Distinct
    decide
  have returns : ∃ result, (expand .cosine sharedPlaceholder).outcome = .ok result := by
    decide +kernel
  obtain ⟨result, returned⟩ := returns
  obtain ⟨-, shape, angles⟩ :=
    homogeneous_expansion sharedPlaceholder distinct .cosine result returned
  refine ⟨distinct, result, returned, fun item member => ?_, angles ▸ rfl⟩
  obtain ⟨degree, vars⟩ := shape item member
  refine ⟨degree, fun var has => ?_⟩
  obtain ⟨-, -, angle, found, -, -, known, placed⟩ := vars var has
  obtain ⟨entry, isEntry, rfl⟩ := Option.map_eq_some_iff.1 known
  have entries : entry ∈ [(4, ⟨8, 10⟩), (2, ⟨10, 12⟩)] := List.mem_of_find?_eq_some isEntry
  rcases List.mem_cons.1 entries with rfl | other
  · exact placed.elim .inl fun cosine => .inr (.inl cosine)
  · rw [List.mem_singleton] at other
    subst other
    exact .inr placed

end TrigPolynomial

end TrigAlgebra
