/-
This file proves that a polynomial in one variable has the same value by its list of coefficients as
by its monomials, when the coefficients are those of a commutative ring.
-/

import TrigAlgebra.Polynomial.Dense
import TrigAlgebra.Proofs.AngleAddition
import TrigAlgebra.Proofs.OneVariable

namespace TrigAlgebra

namespace PowerProduct

theorem degree_power (var : Int) (power : Nat) : (PowerProduct.power var power).degree = power := by
  unfold PowerProduct.power
  split
  · exact Nat.one_mul power
  · rename_i zero
    exact (Nat.eq_zero_of_not_pos zero).symm

theorem prod_power {R : Type} [CommRing R] (point : R) (var : Int) (power : Nat) :
    ((PowerProduct.power var power).factors.map fun factor => point ^ factor.power).prod =
      point ^ power := by
  unfold PowerProduct.power
  split
  · exact List.prod_singleton
  · rename_i zero
    rw [Nat.eq_zero_of_not_pos zero, pow_zero]
    rfl

end PowerProduct

namespace Polynomial

section Powers

variable {K : Type} {polynomial : Polynomial K} {single : Int}

/-- The list of coefficients has a slot for every monomial. -/
theorem leadingPower_le_degree (powers : polynomial.InVariable single) {item : Monomial K}
    (member : item ∈ polynomial.monomials) : item.powers.leadingPower ≤ polynomial.degree := by
  have largest : (polynomial.monomials.map Monomial.degree).foldl max 0 ≤ polynomial.degree :=
    Nat.le_refl _
  have ofItem := (foldl_max_le.1 largest).2 _ (List.mem_map_of_mem member)
  rwa [Monomial.degree, powers item member, PowerProduct.degree_power] at ofItem

/-- Writing a slot neither adds nor removes one. -/
theorem length_denseSlots [Coefficient K] (polynomial : Polynomial K) :
    polynomial.denseSlots.length = polynomial.degree + 1 := by
  have kept (monomials : List (Monomial K)) (slots : List K) : (monomials.foldl
      (fun slots item => slots.set item.powers.leadingPower item.coefficient) slots).length =
        slots.length := by
    induction monomials generalizing slots with
    | nil => rfl
    | cons head rest hypothesis => exact (hypothesis _).trans List.length_set
  exact (kept _ _).trans List.length_replicate

end Powers

section Congruence

variable {K : Type} [Coefficient K] {values others : Assignment K}

theorem evaluateFactors_congr {factors : List Factor} (result : K)
    (same : ∀ factor ∈ factors, values factor.var = others factor.var) :
    Monomial.evaluateFactors values result factors = Monomial.evaluateFactors others result factors := by
  induction factors generalizing result with
  | nil => rfl
  | cons head rest hypothesis =>
      rw [List.forall_mem_cons] at same
      unfold Monomial.evaluateFactors
      rw [same.1]
      simp only [hypothesis _ same.2]

theorem sumValues_congr {monomials : List (Monomial K)} (result : K)
    (same : ∀ item ∈ monomials, ∀ factor ∈ item.powers.factors, values factor.var = others factor.var) :
    sumValues values result monomials = sumValues others result monomials := by
  induction monomials generalizing result with
  | nil => rfl
  | cons head rest hypothesis =>
      rw [List.forall_mem_cons] at same
      unfold sumValues Monomial.evaluate
      rw [evaluateFactors_congr _ same.1]
      simp only [hypothesis _ same.2]

/-- Only the values of its own variables matter to a polynomial. -/
theorem evaluate_congr {polynomial : Polynomial K}
    (same : ∀ var ∈ polynomial.vars, values var = others var) :
    polynomial.evaluate values = polynomial.evaluate others := by
  have missing : (polynomial.vars.filter fun var => (values var).isNone) =
      polynomial.vars.filter fun var => (others var).isNone :=
    List.filter_congr fun var member => by rw [same var member]
  unfold evaluate
  rw [missing, sumValues_congr]
  intro item isItem factor isFactor
  exact same _ (mem_vars.2 (occurs_powersOf.2 ⟨item, isItem, factor, isFactor, rfl⟩))

end Congruence

end Polynomial

namespace Horner

/-- The value of a list of coefficients, the constant one first. -/
def value {R : Type} [CommRing R] (point : R) (coefficients : List R) : R :=
  coefficients.foldr (fun coefficient result => result * point + coefficient) 0

variable {R : Type} [CommRing R] {point : R}

theorem value_replicate (count : Nat) : value point (List.replicate count 0) = 0 := by
  induction count with
  | zero => rfl
  | succ count hypothesis =>
      rw [List.replicate_succ]
      change value point (List.replicate count 0) * point + 0 = 0
      rw [hypothesis, zero_mul, add_zero]

/-- A coefficient that is written over a zero counts with the power of its slot. -/
theorem value_set {slots : List R} {index : Nat} (free : slots[index]? = some 0) (coefficient : R) :
    value point (slots.set index coefficient) = value point slots + coefficient * point ^ index := by
  induction slots generalizing index with
  | nil => cases free
  | cons head rest hypothesis =>
      cases index with
      | zero =>
          cases free
          change value point rest * point + coefficient = value point rest * point + 0 + coefficient * point ^ 0
          ring
      | succ index =>
          change value point (rest.set index coefficient) * point + head =
            value point rest * point + head + coefficient * point ^ (index + 1)
          rw [hypothesis free]
          ring

variable [Coefficient R] [RingCoefficient R]

theorem step_eq (point result coefficient : R) :
    step point result coefficient = .ok (result * point + coefficient) := by
  unfold step
  rw [RingCoefficient.mul_eq]
  exact RingCoefficient.add_eq _ _

/-- The walk from the highest slot down to the lowest one is a fold from the right. -/
theorem fromStart_eq (start : R) (coefficients : List R) : fromStart start point coefficients =
    .ok (coefficients.foldr (fun coefficient result => result * point + coefficient) start) := by
  unfold fromStart
  induction coefficients with
  | nil => rfl
  | cons head rest hypothesis =>
      rw [List.reverse_cons, List.foldlM_append, hypothesis]
      change step point _ head >>= pure = _
      rw [bind_pure, step_eq]
      rfl

/-- An accumulator of zero only takes over the leading coefficient. -/
theorem fromLeading_eq {coefficients : List R} (nonempty : coefficients ≠ []) :
    fromLeading point coefficients = some (fromStart 0 point coefficients) := by
  unfold fromLeading fromStart
  split
  · rename_i none
    exact (nonempty (List.reverse_eq_nil_iff.1 none)).elim
  · rename_i leading lower shape
    rw [shape, List.foldlM_cons, step_eq, zero_mul, zero_add]
    rfl

end Horner

namespace Polynomial

variable {R : Type} [CommRing R] {point : R}

/-- As long as the slots that are still to be written hold zeros, each monomial adds its term. -/
theorem value_foldl_set {monomials : List (Monomial R)} {slots : List R}
    (distinct : (monomials.map fun item => item.powers.leadingPower).Nodup)
    (free : ∀ item ∈ monomials, slots[item.powers.leadingPower]? = some 0) :
    Horner.value point (monomials.foldl
        (fun slots item => slots.set item.powers.leadingPower item.coefficient) slots) =
      Horner.value point slots +
        (monomials.map fun item => item.coefficient * point ^ item.powers.leadingPower).sum := by
  induction monomials generalizing slots with
  | nil => exact (add_zero _).symm
  | cons head rest hypothesis =>
      rw [List.map_cons, List.nodup_cons] at distinct
      rw [List.forall_mem_cons] at free
      have stillFree : ∀ item ∈ rest,
          (slots.set head.powers.leadingPower head.coefficient)[item.powers.leadingPower]? = some 0 := by
        intro item member
        have other : head.powers.leadingPower ≠ item.powers.leadingPower :=
          fun same => distinct.1 (same ▸ List.mem_map_of_mem member)
        rw [List.getElem?_set_ne other]
        exact free.2 item member
      rw [List.foldl_cons, hypothesis distinct.2 stillFree, Horner.value_set free.1, List.map_cons,
        List.sum_cons, add_assoc]

variable [Coefficient R] [RingCoefficient R]

theorem value_denseSlots {polynomial : Polynomial R} {single : Int} (distinct : polynomial.Distinct)
    (powers : polynomial.InVariable single) :
    Horner.value point polynomial.denseSlots =
      (polynomial.monomials.map fun item => item.coefficient * point ^ item.powers.leadingPower).sum := by
  have free : ∀ item ∈ polynomial.monomials,
      (List.replicate (polynomial.degree + 1) (0 : R))[item.powers.leadingPower]? = some 0 := by
    intro item member
    have room := leadingPower_le_degree powers member
    rw [List.getElem?_replicate, if_pos (Nat.lt_succ_of_le room)]
  unfold denseSlots
  rw [RingCoefficient.zero_eq, value_foldl_set (nodup_leadingPowers distinct powers) free,
    Horner.value_replicate, zero_add]

theorem valueAt_eq_sum {polynomial : Polynomial R} {single : Int}
    (powers : polynomial.InVariable single) :
    polynomial.valueAt (fun _ => point) =
      (polynomial.monomials.map fun item => item.coefficient * point ^ item.powers.leadingPower).sum := by
  unfold valueAt Reading.formal
  rw [map_list_sum, List.map_map]
  congr 1
  apply List.map_congr_left
  intro item member
  have power := PowerProduct.prod_power point single item.powers.leadingPower
  rw [← powers item member] at power
  rw [Function.comp_apply, Reading.eval_term, power]
  rfl

/-- A polynomial in one variable has the same value by its listed coefficients, walked down from zero
or from the leading one, as by its monomials: the sum of all coefficients times powers of the
point. -/
theorem evaluate_dense (polynomial : Polynomial R) (reachable : polynomial.Reachable)
    (named : noVariable ∉ polynomial.vars) (univariate : polynomial.univariate = true) (point : R)
    (values : Assignment R) (given : ∀ var ∈ polynomial.vars, values var = some point) :
    ∃ slots value, polynomial.dense = .ok slots ∧
      value = (polynomial.monomials.map fun item =>
        item.coefficient * point ^ item.powers.leadingPower).sum ∧
      Horner.fromStart Coefficient.zero point slots = .ok value ∧
      Horner.fromLeading point slots = some (.ok value) ∧
      polynomial.evaluate values = .ok value := by
  have wellFormed := reachable.settled.wellFormed fun occurs => named (mem_vars.2 occurs)
  obtain ⟨single, powers⟩ := exists_inVariable wellFormed univariate
  have walked : Horner.fromStart 0 point polynomial.denseSlots =
      .ok (Horner.value point polynomial.denseSlots) := Horner.fromStart_eq 0 _
  rw [value_denseSlots wellFormed.distinct powers] at walked
  have dense : polynomial.dense = .ok polynomial.denseSlots := by
    rw [Polynomial.dense, requireUnivariate, if_pos univariate]
    rfl
  refine ⟨polynomial.denseSlots, _, dense, rfl, ?_, ?_, ?_⟩
  · rw [RingCoefficient.zero_eq, walked]
  · rw [Horner.fromLeading_eq (List.ne_nil_of_length_eq_add_one polynomial.length_denseSlots), walked]
  · rw [evaluate_congr given, evaluate_eq, valueAt_eq_sum powers]

/-- Two powers are missing and the highest one has the coefficient zero. -/
def gappedQuintic : Polynomial Int :=
  ⟨[⟨0, .power 2 5⟩, ⟨2, .power 2 3⟩, .constant 7, ⟨-1, .power 2 1⟩], true⟩

theorem evaluate_dense_gappedQuintic : gappedQuintic.dense = .ok [7, -1, 0, 2, 0, 0] ∧
    Horner.fromStart Coefficient.zero (3 : Int) [7, -1, 0, 2, 0, 0] = .ok 58 ∧
    Horner.fromLeading (3 : Int) [7, -1, 0, 2, 0, 0] = some (.ok 58) ∧
    gappedQuintic.evaluate (Assignment.empty.set 2 3) = .ok 58 := by
  have merged : ofMonomials gappedQuintic.monomials = .ok gappedQuintic := rfl
  have vars : gappedQuintic.vars = [2] := by decide +kernel
  have named : noVariable ∉ gappedQuintic.vars := by
    rw [vars]
    decide
  have given : ∀ var ∈ gappedQuintic.vars, Assignment.empty.set 2 (3 : Int) var = some 3 := by
    rw [vars]
    exact List.forall_mem_singleton.2 rfl
  obtain ⟨slots, value, dense, sum, start, leading, sparse⟩ :=
    evaluate_dense gappedQuintic (.ofMonomials merged) named rfl 3 (Assignment.empty.set 2 3) given
  have listed : slots = [7, -1, 0, 2, 0, 0] := (Except.ok.inj dense).symm
  have total : value = 58 := sum.trans (by decide +kernel)
  rw [listed] at dense start leading
  rw [total] at start leading sparse
  exact ⟨dense, start, leading, sparse⟩

end Polynomial

end TrigAlgebra
