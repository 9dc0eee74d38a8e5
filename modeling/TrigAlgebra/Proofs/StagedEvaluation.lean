/-
This file proves that giving integers to variables in stages writes the same monomials in the same
order as giving them at once, and that values for all variables leave the value of the polynomial.
-/

import TrigAlgebra.Proofs.PartialEvaluation

namespace TrigAlgebra

open MvPolynomial

namespace Assignment

/-- Where both assignments have a value the first one counts. -/
def union {K : Type} (first second : Assignment K) : Assignment K := fun var =>
  (first var).or (second var)

/-- Substituting once more changes only the variables that had no value before. -/
theorem substitution_substitution (first second : Assignment Int) (form : MvPolynomial Int Int) :
    second.substitution (first.substitution form) = (first.union second).substitution form := by
  have images (var : Int) : bind₁ second.image (first.image var) = (first.union second).image var := by
    unfold image union
    cases first var with
    | none => exact bind₁_X_right _ _
    | some value => exact bind₁_C_right _ _
  unfold substitution
  rw [bind₁_bind₁]
  exact congrArg (bind₁ · form) (funext images)

theorem remaining_remaining (first second : Assignment Int) (product : PowerProduct) :
    second.remaining (first.remaining product) = (first.union second).remaining product := by
  unfold remaining PowerProduct.filter
  congr 1
  rw [List.filter_filter]
  apply List.filter_congr
  intro factor _
  unfold union
  cases first factor.var with
  | none => exact Bool.and_true _
  | some value => exact Bool.and_false _

/-- Assignments to different variables can be united in either order. -/
theorem union_comm {first second : Assignment Int}
    (disjoint : ∀ var, (first var).isNone ∨ (second var).isNone) :
    first.union second = second.union first := by
  funext var
  unfold union
  rcases disjoint var with unknown | unknown
  · rw [Option.isNone_iff_eq_none.1 unknown, Option.or_none, Option.none_or]
  · rw [Option.isNone_iff_eq_none.1 unknown, Option.or_none, Option.none_or]

end Assignment

namespace Polynomial

variable {polynomial : Polynomial Number}

/-- The integer that a polynomial with integer coefficients has at a point. -/
def integerValue (point : Int → Int) (polynomial : Polynomial Number) : Int :=
  (polynomial.monomials.map fun item => item.coefficient.asInteger?.getD 0 *
    (item.powers.factors.map fun factor => point factor.var ^ factor.power).prod).sum

/-- Mapping the products of a list before they are made unique changes nothing afterwards. -/
theorem foldl_appendNew_map (change : PowerProduct → PowerProduct)
    (list seen : List PowerProduct) :
    ((list.foldl appendNew seen).map change).foldl appendNew [] =
      (list.map change).foldl appendNew ((seen.map change).foldl appendNew []) := by
  induction list generalizing seen with
  | nil => rfl
  | cons head rest hypothesis =>
      rw [List.foldl_cons, hypothesis, List.map_cons, List.foldl_cons]
      congr 1
      unfold appendNew
      by_cases old : head ∈ seen
      · have kept : change head ∈ (seen.map change).foldl appendNew [] :=
          mem_foldl_appendNew.2 (.inr (List.mem_map_of_mem old))
        rw [if_pos old]
        exact (if_pos kept).symm
      · rw [if_neg old, List.map_append, List.foldl_append]
        rfl

/-- Two lists of monomials with the same powers in the same order and the same sum are equal. -/
theorem eq_of_formal_eq {first second : Polynomial Number} (firstIntegral : first.Integral)
    (secondIntegral : second.Integral)
    (powers : powersOf first.monomials = powersOf second.monomials)
    (forms : first.formal = second.formal) : first.monomials = second.monomials := by
  have stored {polynomial : Polynomial Number} (integral : polynomial.Integral)
      {item : Monomial Number} (member : item ∈ polynomial.monomials) :
      item = ⟨.integer (polynomial.coefficientAt item.powers), item.powers⟩ := by
    obtain ⟨value, coefficient⟩ := integral.integers item member
    rw [coefficientAt, coefficient?_of_mem integral.distinct member, coefficient]
    cases item
    cases coefficient
    rfl
  have rebuilt {polynomial : Polynomial Number} (integral : polynomial.Integral) :
      polynomial.monomials = (powersOf polynomial.monomials).map fun powers =>
        ⟨.integer (polynomial.coefficientAt powers), powers⟩ := by
    rw [powersOf, List.map_map]
    exact (List.map_id _).symm.trans (List.map_congr_left fun item member => stored integral member)
  have coefficients : first.coefficientAt = second.coefficientAt := by
    funext powers
    rw [← coeff_formal firstIntegral, forms, coeff_formal secondIntegral]
  rw [rebuilt firstIntegral, rebuilt secondIntegral, powers, coefficients]

theorem eq_of_monomials_eq {first second : Polynomial Number}
    (monomials : first.monomials = second.monomials)
    (firstFlag : first.univariate = isUnivariate first.monomials)
    (secondFlag : second.univariate = isUnivariate second.monomials) : first = second := by
  rw [monomials, ← secondFlag] at firstFlag
  cases first
  cases second
  cases monomials
  cases firstFlag
  rfl

/-- Values given in two stages leave what the same values leave at once. -/
theorem exists_evaluatePartial_union (first second : Assignment Int) (integral : polynomial.Integral) :
    ∃ result, polynomial.evaluatePartial (first.union second).integers = .ok result ∧
      (do (← polynomial.evaluatePartial first.integers).evaluatePartial second.integers) =
        .ok result := by
  obtain ⟨halfway, firstCase, halfwayIntegral, halfwayForm, halfwayPowers, -⟩ :=
    exists_evaluatePartial first integral
  obtain ⟨staged, secondCase, stagedIntegral, stagedForm, stagedPowers, stagedFlag⟩ :=
    exists_evaluatePartial second halfwayIntegral
  obtain ⟨result, returned, resultIntegral, form, powers, flag⟩ :=
    exists_evaluatePartial (first.union second) integral
  have order : powersOf staged.monomials = powersOf result.monomials := by
    rw [stagedPowers, halfwayPowers, foldl_appendNew_map, List.map_map, powers]
    congr 2
    exact funext fun product => Assignment.remaining_remaining first second product
  have forms : staged.formal = result.formal := by
    rw [stagedForm, halfwayForm, Assignment.substitution_substitution, form]
  have monomials := eq_of_formal_eq stagedIntegral resultIntegral order forms
  have same := eq_of_monomials_eq monomials stagedFlag flag
  exact ⟨result, returned, bind_eq_ok.2 ⟨halfway, firstCase, same ▸ secondCase⟩⟩

/-- With a value for every variable only the value of the polynomial is left. -/
theorem evaluatePartial_eq_constant {values : Assignment Int} {point : Int → Int}
    (integral : polynomial.Integral) (nonempty : polynomial.monomials ≠ [])
    (known : ∀ var ∈ polynomial.vars, values var = some (point var)) :
    polynomial.evaluatePartial values.integers =
      .ok (constant (.integer (polynomial.integerValue point))) := by
  have valued {item : Monomial Number} (member : item ∈ polynomial.monomials) {factor : Factor}
      (isFactor : factor ∈ item.powers.factors) : values factor.var = some (point factor.var) :=
    known _ (mem_vars.2 ⟨item.powers, List.mem_map_of_mem member, factor, isFactor, rfl⟩)
  obtain ⟨result, returned, resultIntegral, form, powers, flag⟩ :=
    exists_evaluatePartial values integral
  have emptied {item : Monomial Number} (member : item ∈ polynomial.monomials) :
      values.remaining item.powers = .one := by
    rw [← PowerProduct.isOne_iff, PowerProduct.isOne, List.isEmpty_iff]
    refine List.filter_eq_nil_iff.2 fun factor isFactor => ?_
    rw [valued member isFactor]
    exact Bool.false_ne_true
  have alone : powersOf result.monomials = [.one] := by
    apply List.perm_singleton.1
    rw [List.perm_ext_iff_of_nodup resultIntegral.distinct (List.nodup_singleton _)]
    intro product
    rw [powers, mem_foldl_appendNew, or_iff_right List.not_mem_nil, List.mem_singleton, powersOf,
      List.map_map, List.mem_map]
    constructor
    · rintro ⟨item, member, rfl⟩
      exact emptied member
    · rintro rfl
      obtain ⟨item, member⟩ := List.exists_mem_of_ne_nil _ nonempty
      exact ⟨item, member, emptied member⟩
  have value : result.formal = C (polynomial.integerValue point) := by
    rw [form, formal, ← formal_substitute, integerValue, map_list_sum, List.map_map]
    congr 1
    refine List.map_congr_left fun item member => ?_
    have given : values.given item.powers.factors =
        (item.powers.factors.map fun factor => point factor.var ^ factor.power).prod := by
      unfold Assignment.given
      congr 1
      refine List.map_congr_left fun factor isFactor => ?_
      rw [valued member isFactor]
      rfl
    rw [Reading.term, Assignment.substitution_monomial, emptied member, given]
    rfl
  have monomials : result.monomials = (constant (.integer (polynomial.integerValue point))).monomials :=
    eq_of_formal_eq resultIntegral (integral_constant _) alone (value.trans (formal_constant _).symm)
  rw [returned, eq_of_monomials_eq monomials flag rfl]

/-- Partial evaluation in two stages returns what partial evaluation with the united values does, the
earlier values counting; the order of the stages does not matter for different variables, and values
for all variables leave a single constant. -/
theorem evaluatePartial_stages (first second : Assignment Int) (polynomial : Polynomial Number)
    (integral : polynomial.Integral) :
    (∃ result, polynomial.evaluatePartial (first.union second).integers = .ok result ∧
      (do (← polynomial.evaluatePartial first.integers).evaluatePartial second.integers) =
        .ok result) ∧
    ((∀ var, (first var).isNone ∨ (second var).isNone) →
      Agree (do (← polynomial.evaluatePartial first.integers).evaluatePartial second.integers)
        (do (← polynomial.evaluatePartial second.integers).evaluatePartial first.integers)) ∧
    (∀ point : Int → Int,
      (∀ var ∈ polynomial.vars, (first.union second) var = some (point var)) →
      polynomial.monomials ≠ [] →
      polynomial.evaluatePartial (first.union second).integers =
        .ok (constant (.integer (polynomial.integerValue point)))) := by
  refine ⟨exists_evaluatePartial_union first second integral, fun disjoint => ?_,
    fun point known nonempty => evaluatePartial_eq_constant integral nonempty known⟩
  obtain ⟨result, returned, staged⟩ := exists_evaluatePartial_union first second integral
  obtain ⟨other, otherReturned, otherStaged⟩ := exists_evaluatePartial_union second first integral
  rw [← Assignment.union_comm disjoint, returned] at otherReturned
  cases otherReturned
  have represents := represents_evaluatePartial (first.union second) integral
  rw [returned] at represents
  rw [staged, otherStaged]
  exact represents.agree represents rfl rfl

/-- Both stages give the first variable a value, of which the earlier one counts; two other stages
have no variable in common. -/
theorem evaluatePartial_stages_difference :
    let first : Assignment Int := Assignment.empty.set 2 3
    let second : Assignment Int := (Assignment.empty.set 2 5).set 4 7
    let third : Assignment Int := Assignment.empty.set 4 7
    (binomial 1 (-1)).Integral ∧
      (∀ var ∈ (binomial 1 (-1)).vars, (first.union second) var = some (if var = 2 then 3 else 7)) ∧
      (binomial 1 (-1)).monomials ≠ [] ∧ (∀ var, (first var).isNone ∨ (third var).isNone) ∧
      (do (← (binomial 1 (-1)).evaluatePartial first.integers).evaluatePartial second.integers) =
        .ok (constant (.integer (-4))) ∧
      Agree (do (← (binomial 1 (-1)).evaluatePartial first.integers).evaluatePartial third.integers)
        (do (← (binomial 1 (-1)).evaluatePartial third.integers).evaluatePartial first.integers) := by
  have integral := integral_binomial 1 (-1)
  intro first second third
  have known : ∀ var ∈ (binomial 1 (-1)).vars,
      (first.union second) var = some (if var = 2 then 3 else 7) := by
    intro var member
    rcases List.mem_pair.1 (show var ∈ [2, 4] from member) with rfl | rfl
    · rfl
    · rfl
  have disjoint (var : Int) : (first var).isNone ∨ (third var).isNone := by
    by_cases two : var = 2
    · subst two
      exact .inr rfl
    · exact .inl (Option.isNone_iff_eq_none.2 (if_neg two))
  obtain ⟨⟨result, atOnce, staged⟩, -, constant⟩ := evaluatePartial_stages first second _ integral
  refine ⟨integral, known, List.cons_ne_nil _ _, disjoint, ?_,
    (evaluatePartial_stages first third _ integral).2.1 disjoint⟩
  rw [staged, ← atOnce, constant _ known (List.cons_ne_nil _ _)]
  rfl

end Polynomial

end TrigAlgebra
