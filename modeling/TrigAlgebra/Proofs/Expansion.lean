/-
This file takes the expansion of sines and cosines apart: a result is reached from an argument
without monomials, from a single monomial or from the two parts of a sum.
-/

import TrigAlgebra.Proofs.Merging
import TrigAlgebra.TrigPolynomial.Expansion

namespace TrigAlgebra

/-- A single monomial needs no merging. -/
theorem Polynomial.ofMonomials_singleton {K : Type} [Coefficient K] (item : Monomial K) :
    Polynomial.ofMonomials [item] = .ok ⟨[item], Polynomial.isUnivariate [item]⟩ := by
  rw [Polynomial.ofMonomials, Polynomial.merge_singleton]
  rfl

/-- A variable is one linear monomial. -/
theorem Polynomial.monomials_ofVariable {K : Type} [Coefficient K] {var : Int} {coefficient : K}
    {polynomial : Polynomial K} (built : Polynomial.ofVariable var coefficient = .ok polynomial) :
    polynomial.monomials = [⟨coefficient, .ofFactor (.linear var)⟩] := by
  rw [Polynomial.ofVariable, Polynomial.ofMonomials_singleton] at built
  cases built
  rfl

/-- The two tests leave constants and variables to the first power. -/
theorem PowerProduct.eq_linear_iff {product : PowerProduct} :
    product.degree ≤ 1 ∧ product.factors.length ≤ 1 ↔
      product = .one ∨ ∃ var, product = .ofFactor (.linear var) := by
  constructor
  · obtain ⟨factors, increasing⟩ := product
    rintro ⟨degree, length⟩
    match factors with
    | [] => exact .inl rfl
    | [⟨var, power, positive⟩] =>
        have one : power = 1 := by
          simp only [PowerProduct.degree, isOne, List.isEmpty_cons, List.map_cons, List.map_nil,
            List.foldl_cons, List.foldl_nil] at degree
          simp only [Bool.false_eq_true, if_false] at degree
          omega
        subst one
        exact .inr ⟨var, rfl⟩
    | _ :: _ :: _ =>
        simp only [List.length_cons] at length
        omega
  · rintro (rfl | ⟨var, rfl⟩)
    · exact ⟨Nat.zero_le 1, Nat.zero_le 1⟩
    · exact ⟨Nat.le_refl 1, Nat.le_refl 1⟩

theorem foldl_max_le {numbers : List Nat} {seen bound : Nat} :
    numbers.foldl max seen ≤ bound ↔ seen ≤ bound ∧ ∀ number ∈ numbers, number ≤ bound := by
  induction numbers generalizing seen with
  | nil => simp
  | cons head rest hypothesis =>
      rw [List.foldl_cons, hypothesis, Nat.max_le, List.forall_mem_cons, and_assoc]

/-- The degree is the largest one of a monomial. -/
theorem Polynomial.degree_le_iff {K : Type} {polynomial : Polynomial K} {bound : Nat} :
    polynomial.degree ≤ bound ↔ ∀ item ∈ polynomial.monomials, item.powers.degree ≤ bound := by
  rw [Polynomial.degree, foldl_max_le, List.forall_mem_map]
  exact and_iff_right (Nat.zero_le bound)

namespace TrigPolynomial

open TrigAlgebra.Polynomial

variable {K : Type}

/-- An operation that takes over the angles succeeds when it does on the polynomials. -/
theorem joined_eq_ok {trig result : TrigPolynomial K} {edit : Edit (Polynomial K)}
    {angles : AngleMap} :
    (joined (trig.onPolynomial edit) angles).result = .ok result ↔
      edit.result = .ok result.polynomial ∧ result.angles = trig.angles.update angles := by
  obtain ⟨outcome, content⟩ := edit
  obtain ⟨polynomial, resultAngles⟩ := result
  cases outcome with
  | error fault => exact ⟨fun absurd => (nomatch absurd), fun absurd => (nomatch absurd.1)⟩
  | ok _ =>
      constructor
      · intro same
        cases same
        exact ⟨rfl, rfl⟩
      · rintro ⟨same, rfl⟩
        cases same
        rfl

variable [Coefficient K]

/-- A sum is returned if that of the polynomials is, and has the maps joined. -/
theorem add_eq_ok {first second sum : TrigPolynomial K} :
    first.add second = .ok sum ↔ first.polynomial.add second.polynomial = .ok sum.polynomial ∧
      sum.angles = first.angles.update second.angles :=
  joined_eq_ok

/-- A difference is returned if that of the polynomials is, and has the maps joined. -/
theorem sub_eq_ok {first second difference : TrigPolynomial K} :
    first.sub second = .ok difference ↔
      first.polynomial.sub second.polynomial = .ok difference.polynomial ∧
        difference.angles = first.angles.update second.angles :=
  joined_eq_ok

/-- A product is returned if that of the polynomials is, and has the maps joined. -/
theorem mul_eq_ok {first second product : TrigPolynomial K} :
    first.mul second = .ok product ↔
      first.polynomial.mul second.polynomial = .ok product.polynomial ∧
        product.angles = first.angles.update second.angles :=
  joined_eq_ok

/-- An argument is accepted when each of its monomials is constant or linear in one variable. -/
theorem checkArgument_eq_ok {function : Circular} {trig : TrigPolynomial K} :
    checkArgument function trig = .ok () ↔ ∀ item ∈ trig.polynomial.monomials,
      item.powers = .one ∨ ∃ var, item.powers = .ofFactor (.linear var) := by
  have accepted : checkArgument function trig = .ok () ↔ ¬ 1 < trig.polynomial.degree ∧
      ∀ item ∈ trig.polynomial.monomials, item.powers.factors.length ≤ 1 := by
    unfold checkArgument
    split
    · rename_i above
      exact ⟨fun absurd => (nomatch absurd), fun facts => (facts.1 above).elim⟩
    · rename_i linear
      rw [and_iff_right linear]
      split
      · rename_i item found
        have long := List.find?_some found
        have member := List.mem_of_find?_eq_some found
        simp only [decide_eq_true_eq] at long
        constructor
        · intro absurd
          cases shown : item.text <;> simp [shown, bind, Except.bind] at absurd
        · intro short
          exact (Nat.not_lt.2 (short item member) long).elim
      · rename_i none
        simpa using none
  rw [accepted, Nat.not_lt, Polynomial.degree_le_iff, ← forall₂_and]
  simp only [PowerProduct.eq_linear_iff]

/-- The sine of a multiple of an angle changes sign with the multiple. -/
def signed (function : Circular) (multiple : Int) (pair : TrigPolynomial K × TrigPolynomial K) :
    TrigPolynomial K :=
  match function with
  | .sine => if multiple < 0 then pair.1.neg else pair.1
  | .cosine => pair.2

/-- What a returned multiple angle has been computed from. -/
theorem multipleAngle_eq_ok {function : Circular} {angles : AngleMap} {item : Monomial K}
    {found : Placeholders} {multiple : Int} {result : TrigPolynomial K}
    (returned : (multipleAngle function angles item found multiple).outcome = .ok result) :
    ∃ sine cosine pair, ofVariable (K := K) found.sine Coefficient.one = .ok sine ∧
      ofVariable (K := K) found.cosine Coefficient.one = .ok cosine ∧
      addAngles ⟨sine, angles⟩ ⟨cosine, angles⟩ (multiple.natAbs - 1) = .ok pair ∧
      signed function multiple pair = result := by
  unfold multipleAngle at returned
  simp only [outcome_bind_eq_ok, outcome_lift_eq_ok, outcome_pure_eq_ok] at returned
  obtain ⟨sine, sineCase, cosine, cosineCase, -, -, -, -, pair, pairCase, same⟩ := returned
  exact ⟨sine, cosine, pair, sineCase, cosineCase, pairCase, same⟩

/-- The expansion of a multiple shows its monomial in a note. -/
theorem exists_text_of_multipleAngle {function : Circular} {angles : AngleMap} {item : Monomial K}
    {found : Placeholders} {multiple : Int} {result : TrigPolynomial K}
    (returned : (multipleAngle function angles item found multiple).outcome = .ok result) :
    ∃ shown, item.text = .ok shown := by
  unfold multipleAngle at returned
  simp only [outcome_bind_eq_ok, outcome_lift_eq_ok] at returned
  obtain ⟨-, -, -, -, shown, text, -⟩ := returned
  exact ⟨shown, text⟩

/-- A multiple angle is returned if its additions are. -/
theorem multipleAngle_of_addAngles {angles : AngleMap} {item : Monomial K} {found : Placeholders}
    {multiple : Int} {shown : String} {sine cosine : Polynomial K}
    {pair : TrigPolynomial K × TrigPolynomial K} (function : Circular) (text : item.text = .ok shown)
    (sineCase : ofVariable found.sine Coefficient.one = .ok sine)
    (cosineCase : ofVariable found.cosine Coefficient.one = .ok cosine)
    (pairCase : addAngles ⟨sine, angles⟩ ⟨cosine, angles⟩ (multiple.natAbs - 1) = .ok pair) :
    (multipleAngle function angles item found multiple).outcome = .ok (signed function multiple pair) := by
  unfold multipleAngle
  rw [outcome_bind_of_ok (outcome_lift_eq_ok.2 sineCase),
    outcome_bind_of_ok (outcome_lift_eq_ok.2 cosineCase), outcome_bind_of_ok (outcome_lift_eq_ok.2 text),
    outcome_bind_of_ok (Traced.outcome_note _), outcome_bind_of_ok (outcome_lift_eq_ok.2 pairCase)]
  rfl

/-- A returned single angle is the renamed polynomial, without the sign of a cosine. -/
theorem singleAngle_eq_ok {function : Circular} {trig result : TrigPolynomial K} {var : Int}
    {found : Placeholders} {multiple : Int}
    (returned : singleAngle function trig var found multiple = .ok result) :
    result.angles = trig.angles ∧
      ∃ renamed, trig.polynomial.rename var (found.of function) = .ok renamed ∧
        if function = .cosine ∧ multiple = -1 then
          renamed.scale (Coefficient.ofInt (-1)) = .ok result.polynomial
        else renamed = result.polynomial := by
  unfold singleAngle at returned
  obtain ⟨renamed, renamedCase, returned⟩ := bind_eq_ok.1 returned
  cases function with
  | sine =>
      cases returned
      exact ⟨rfl, renamed, renamedCase, rfl⟩
  | cosine =>
      by_cases negative : multiple = -1
      · simp only [negative, if_true, bind_eq_ok, pure_eq_ok] at returned
        obtain ⟨polynomial, scaled, rfl⟩ := returned
        exact ⟨rfl, renamed, renamedCase, by simpa [negative] using scaled⟩
      · simp only [negative, if_false] at returned
        cases returned
        exact ⟨rfl, renamed, renamedCase, by simp [negative]⟩

/-- The placeholders are those of the variable, and the coefficient is the integer. -/
theorem placeholders_eq_ok {function : Circular} {angles : AngleMap} {var : Int} {item : Monomial K}
    {found : Placeholders} {multiple : Int} :
    placeholders function angles var item = .ok (found, multiple) ↔
      angles.find? var = some found ∧ Coefficient.integer? item.coefficient = .ok (some multiple) := by
  unfold placeholders
  cases angles.find? var with
  | none =>
      cases NamingTable.render {} var <;> simp [bind, Except.bind]
  | some other =>
      cases Coefficient.integer? item.coefficient with
      | error fault => simp [bind, Except.bind]
      | ok integer =>
          cases integer with
          | none => cases item.text <;> simp [bind, Except.bind]
          | some value => simp [bind, Except.bind, pure, Except.pure]

/-- Nothing is expanded that has not passed the checks. -/
theorem checkArgument_of_expand {function : Circular} {trig result : TrigPolynomial K}
    (returned : (expand function trig).outcome = .ok result) : checkArgument function trig = .ok () := by
  cases checked : checkArgument function trig with
  | error fault =>
      rw [expand, checked] at returned
      cases returned
  | ok accepted => rfl

/-- The empty sum is expanded as zero. -/
theorem expand_nil {function : Circular} {trig : TrigPolynomial K}
    (checked : checkArgument function trig = .ok ()) (shape : trig.polynomial.monomials = []) :
    expand function trig = (do
      return .constant (← Coefficient.circular (K := K) function Coefficient.zero) trig.angles) := by
  rw [expand, checked]
  dsimp only
  split
  · rfl
  · simp_all
  · simp_all

/-- A single monomial is not taken apart. -/
theorem expand_singleton {function : Circular} {trig : TrigPolynomial K} {item : Monomial K}
    (checked : checkArgument function trig = .ok ()) (shape : trig.polynomial.monomials = [item]) :
    expand function trig = expandMonomial function trig item := by
  rw [expand, checked]
  dsimp only
  split
  · simp_all
  · simp_all
  · simp_all

/-- A sum is taken apart at its first monomial. -/
theorem expand_cons_cons {function : Circular} {trig : TrigPolynomial K} {head second : Monomial K}
    {others : List (Monomial K)} {first rest : Polynomial K}
    (checked : checkArgument function trig = .ok ())
    (shape : trig.polynomial.monomials = head :: second :: others)
    (firstCase : ofMonomials [head] = .ok first)
    (restCase : ofMonomials (second :: others) = .ok rest) :
    expand function trig = (do
      let shown ← trig.polynomial.text
      Traced.note ("Expanding " ++ function.name ++ "(" ++ shown ++ ")")
      sumFormula function (fun part => expand part ⟨first, trig.angles⟩)
        (fun part => expand part ⟨rest, trig.angles⟩)) := by
  rw [expand, checked]
  dsimp only
  split
  · simp_all
  · simp_all
  · rename_i other
    rw [shape] at other
    cases other
    split
    · simp_all
    · simp_all
    · simp_all

/-- Where the rest cannot be merged, nothing is expanded. -/
theorem expand_rest_failed {function : Circular} {trig : TrigPolynomial K}
    {head second : Monomial K}
    {others : List (Monomial K)} {fault : Fault} (checked : checkArgument function trig = .ok ())
    (shape : trig.polynomial.monomials = head :: second :: others)
    (failed : ofMonomials (second :: others) = .error fault) :
    expand function trig = .ofResult (.error fault) := by
  rw [expand, checked]
  dsimp only
  split
  · simp_all
  · simp_all
  · rename_i other
    rw [shape] at other
    cases other
    split
    · simp_all
    · rename_i absurd
      rw [ofMonomials_singleton] at absurd
      cases absurd
    · simp_all

/-- The ways in which the sine or cosine of an argument comes to a result. -/
inductive Expands : Circular → TrigPolynomial K → TrigPolynomial K → Prop
  | nothing {function : Circular} {trig : TrigPolynomial K} {value : K}
      (shape : trig.polynomial.monomials = [])
      (computed : Coefficient.circular function Coefficient.zero = .ok value) :
      Expands function trig (.constant value trig.angles)
  | constant {function : Circular} {trig : TrigPolynomial K} {item : Monomial K} {value : K}
      (shape : trig.polynomial.monomials = [item]) (powers : item.powers = .one)
      (computed : Coefficient.circular function item.coefficient = .ok value) :
      Expands function trig (.constant value trig.angles)
  | zero {function : Circular} {trig : TrigPolynomial K} {item : Monomial K} {var : Int} {value : K}
      (shape : trig.polynomial.monomials = [item]) (powers : item.powers = .ofFactor (.linear var))
      (isZero : Coefficient.isZero item.coefficient = true)
      (computed : Coefficient.circular function Coefficient.zero = .ok value) :
      Expands function trig (.constant value trig.angles)
  | single {function : Circular} {trig result : TrigPolynomial K} {item : Monomial K} {var : Int}
      {found : Placeholders} {multiple : Int}
      (shape : trig.polynomial.monomials = [item]) (powers : item.powers = .ofFactor (.linear var))
      (known : trig.angles.find? var = some found)
      (integer : Coefficient.integer? item.coefficient = .ok (some multiple))
      (unit : multiple.natAbs = 1)
      (returned : singleAngle function trig var found multiple = .ok result) :
      Expands function trig result
  | multiple {function : Circular} {trig result : TrigPolynomial K} {item : Monomial K} {var : Int}
      {found : Placeholders} {multiple : Int}
      (shape : trig.polynomial.monomials = [item]) (powers : item.powers = .ofFactor (.linear var))
      (nonzero : ¬ Coefficient.isZero item.coefficient = true)
      (known : trig.angles.find? var = some found)
      (integer : Coefficient.integer? item.coefficient = .ok (some multiple))
      (returned : (multipleAngle function trig.angles item found multiple).outcome = .ok result) :
      Expands function trig result
  | sineOfSum {trig result left right : TrigPolynomial K} {head second : Monomial K}
      {others : List (Monomial K)} {first rest : Polynomial K}
      {firstSine firstCosine restSine restCosine : TrigPolynomial K}
      (shape : trig.polynomial.monomials = head :: second :: others)
      (firstCase : ofMonomials [head] = .ok first)
      (restCase : ofMonomials (second :: others) = .ok rest)
      (sineFirst : Expands .sine ⟨first, trig.angles⟩ firstSine)
      (cosineFirst : Expands .cosine ⟨first, trig.angles⟩ firstCosine)
      (sineRest : Expands .sine ⟨rest, trig.angles⟩ restSine)
      (cosineRest : Expands .cosine ⟨rest, trig.angles⟩ restCosine)
      (leftCase : firstSine.mul restCosine = .ok left)
      (rightCase : firstCosine.mul restSine = .ok right)
      (sum : left.add right = .ok result) : Expands .sine trig result
  | cosineOfSum {trig result left right : TrigPolynomial K} {head second : Monomial K}
      {others : List (Monomial K)} {first rest : Polynomial K}
      {firstSine firstCosine restSine restCosine : TrigPolynomial K}
      (shape : trig.polynomial.monomials = head :: second :: others)
      (firstCase : ofMonomials [head] = .ok first)
      (restCase : ofMonomials (second :: others) = .ok rest)
      (sineFirst : Expands .sine ⟨first, trig.angles⟩ firstSine)
      (cosineFirst : Expands .cosine ⟨first, trig.angles⟩ firstCosine)
      (sineRest : Expands .sine ⟨rest, trig.angles⟩ restSine)
      (cosineRest : Expands .cosine ⟨rest, trig.angles⟩ restCosine)
      (leftCase : firstCosine.mul restCosine = .ok left)
      (rightCase : firstSine.mul restSine = .ok right)
      (difference : left.sub right = .ok result) : Expands .cosine trig result

/-- A constant has the sine or cosine of its coefficient. -/
theorem expandMonomial_one {trig : TrigPolynomial K} {item : Monomial K} (function : Circular)
    (powers : item.powers = .one) : (expandMonomial function trig item).outcome =
      (Coefficient.circular function item.coefficient).map fun value =>
        TrigPolynomial.constant value trig.angles := by
  have factors : item.powers.factors = [] := by rw [powers]; rfl
  unfold expandMonomial
  simp only [factors]
  exact Traced.outcome_bind _ _

/-- A variable times zero is expanded as zero. -/
theorem expandMonomial_zero {trig : TrigPolynomial K} {item : Monomial K} {var : Int}
    (function : Circular) (powers : item.powers = .ofFactor (.linear var))
    (isZero : Coefficient.isZero item.coefficient = true) :
    (expandMonomial function trig item).outcome =
      (Coefficient.circular (K := K) function Coefficient.zero).map fun value =>
        TrigPolynomial.constant value trig.angles := by
  have factors : item.powers.factors = [.linear var] := by rw [powers]; rfl
  unfold expandMonomial
  simp only [factors]
  rw [if_pos isZero]
  exact Traced.outcome_bind _ _

/-- Every other variable needs its placeholders and an integer multiple. -/
theorem expandMonomial_linear {trig : TrigPolynomial K} {item : Monomial K} {var : Int}
    (function : Circular) (powers : item.powers = .ofFactor (.linear var))
    (nonzero : ¬ Coefficient.isZero item.coefficient = true) :
    (expandMonomial function trig item).outcome =
      placeholders function trig.angles var item >>= fun place =>
        if place.2.natAbs = 1 then singleAngle function trig var place.1 place.2
        else (multipleAngle function trig.angles item place.1 place.2).outcome := by
  have factors : item.powers.factors = [.linear var] := by rw [powers]; rfl
  unfold expandMonomial
  simp only [factors]
  rw [if_neg nonzero, Traced.outcome_bind]
  refine congrArg _ (funext fun place => ?_)
  split
  · rfl
  · rfl

/-- The three kinds of monomials are the three rules for single ones. -/
theorem expands_of_expandMonomial {function : Circular} {trig result : TrigPolynomial K}
    {item : Monomial K} (shape : trig.polynomial.monomials = [item])
    (linear : item.powers = .one ∨ ∃ var, item.powers = .ofFactor (.linear var))
    (returned : (expandMonomial function trig item).outcome = .ok result) :
    Expands function trig result := by
  rcases linear with powers | ⟨var, powers⟩
  · rw [expandMonomial_one function powers, map_eq_ok] at returned
    obtain ⟨value, computed, rfl⟩ := returned
    exact .constant shape powers computed
  · by_cases isZero : Coefficient.isZero item.coefficient = true
    · rw [expandMonomial_zero function powers isZero, map_eq_ok] at returned
      obtain ⟨value, computed, rfl⟩ := returned
      exact .zero shape powers isZero computed
    · rw [expandMonomial_linear function powers isZero, bind_eq_ok] at returned
      obtain ⟨⟨found, multiple⟩, places, returned⟩ := returned
      obtain ⟨known, integer⟩ := placeholders_eq_ok.1 places
      split at returned
      · rename_i unit
        exact .single shape powers known integer unit returned
      · exact .multiple shape powers isZero known integer returned

/-- Every result of the expansion is reached in one of these ways. -/
theorem expands_of_expand {function : Circular} {trig result : TrigPolynomial K}
    (returned : (expand function trig).outcome = .ok result) : Expands function trig result := by
  induction function, trig using expand.induct generalizing result with
  | case1 function trig fault refused =>
      rw [expand, refused] at returned
      cases returned
  | case2 function trig checked shape =>
      rw [expand_nil checked shape, outcome_bind_eq_ok] at returned
      obtain ⟨value, computed, same⟩ := returned
      cases same
      exact .nothing shape computed
  | case3 function trig checked item shape =>
      rw [expand_singleton checked shape] at returned
      have linear := checkArgument_eq_ok.1 checked item (shape ▸ List.mem_singleton_self item)
      exact expands_of_expandMonomial shape linear returned
  | case4 function trig checked head second others shape first rest firstCase restCase ofFirst ofRest =>
      rw [expand_cons_cons checked shape firstCase restCase] at returned
      simp only [outcome_bind_eq_ok] at returned
      obtain ⟨-, -, -, -, returned⟩ := returned
      cases function with
      | sine =>
          simp only [sumFormula, outcome_bind_eq_ok, outcome_lift_eq_ok] at returned
          obtain ⟨firstSine, one, restCosine, two, left, leftCase, firstCosine, three, restSine, four,
            right, rightCase, sum⟩ := returned
          exact .sineOfSum shape firstCase restCase (ofFirst _ one) (ofFirst _ three) (ofRest _ four)
            (ofRest _ two) leftCase rightCase sum
      | cosine =>
          simp only [sumFormula, outcome_bind_eq_ok, outcome_lift_eq_ok] at returned
          obtain ⟨firstCosine, one, restCosine, two, left, leftCase, firstSine, three, restSine, four,
            right, rightCase, difference⟩ := returned
          exact .cosineOfSum shape firstCase restCase (ofFirst _ three) (ofFirst _ one) (ofRest _ four)
            (ofRest _ two) leftCase rightCase difference
  | case5 function trig checked head second others shape fault failed =>
      rw [ofMonomials_singleton] at failed
      cases failed
  | case6 function trig checked head second others shape fault failed _ =>
      rw [expand_rest_failed checked shape failed] at returned
      cases returned

end TrigPolynomial

end TrigAlgebra
