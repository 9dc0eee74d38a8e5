/-
This file reads lists of monomials as formal polynomials over a ring, wherever the arithmetic of the
coefficients is exact: the operations on polynomials then are those of the formal ones.
-/

import Mathlib.Algebra.MvPolynomial.Eval
import TrigAlgebra.Proofs.Variables

namespace TrigAlgebra

/-- The products of all pairs add up to the product of the sums. -/
theorem sum_map_pairs {A S : Type} [NonUnitalNonAssocSemiring S] (value : A → S) (first second : List A) :
    ((first.flatMap fun left => second.map fun right => (left, right)).map
      fun pair => value pair.1 * value pair.2).sum = (first.map value).sum * (second.map value).sum := by
  induction first with
  | nil => exact (zero_mul _).symm
  | cons head rest hypothesis =>
      have row : ((second.map fun right => (head, right)).map
          fun pair => value pair.1 * value pair.2).sum = value head * (second.map value).sum := by
        rw [List.map_map, ← List.sum_map_mul_left]
        rfl
      rw [List.flatMap_cons, List.map_append, List.sum_append, row, hypothesis, List.map_cons,
        List.sum_cons, add_mul]

/-- Some coefficients stand for elements of a ring, and their sums and products are exact. -/
structure Reading (K R : Type) [Coefficient K] [CommRing R] where
  exact : K → Prop
  value : K → R
  exact_add : ∀ {first second}, exact first → exact second → ∃ sum,
    Coefficient.add first second = .ok sum ∧ exact sum ∧ value sum = value first + value second
  exact_mul : ∀ {first second}, exact first → exact second → ∃ product,
    Coefficient.mul first second = .ok product ∧ exact product ∧
      value product = value first * value second
  exact_neg : ∀ {number}, exact number → exact (Coefficient.neg number)
  value_neg : ∀ {number}, exact number → value (Coefficient.neg number) = -value number
  same_iff : ∀ {first second}, exact first → exact second →
    (Coefficient.same first second = true ↔ value first = value second)

namespace Reading

open MvPolynomial TrigAlgebra.Polynomial

variable {K R : Type} [Coefficient K] [CommRing R] (reading : Reading K R)

/-- All coefficients stand for elements of the ring. -/
def Covers (monomials : List (Monomial K)) : Prop :=
  ∀ monomial ∈ monomials, reading.exact monomial.coefficient

/-- A monomial as a polynomial over the ring. -/
noncomputable def term (item : Monomial K) : MvPolynomial Int R :=
  monomial item.powers.exponents (reading.value item.coefficient)

/-- The sum of all monomials of the list. -/
noncomputable def formal (monomials : List (Monomial K)) : MvPolynomial Int R :=
  (monomials.map reading.term).sum

/-- The computation returns monomials that stand for a formal polynomial. -/
def Yields (result : Except Fault (List (Monomial K))) (form : MvPolynomial Int R) : Prop :=
  ∃ monomials, result = .ok monomials ∧ reading.Covers monomials ∧ reading.formal monomials = form

/-- The computation returns a polynomial that stands for a formal one. -/
def Returns (result : Except Fault (Polynomial K)) (form : MvPolynomial Int R) : Prop :=
  ∃ polynomial, result = .ok polynomial ∧ reading.Covers polynomial.monomials ∧
    reading.formal polynomial.monomials = form

variable {reading}

/-- What has been returned is covered and has the form. -/
theorem Returns.of_ok {polynomial : Polynomial K} {form : MvPolynomial Int R}
    (returns : reading.Returns (.ok polynomial) form) :
    reading.Covers polynomial.monomials ∧ reading.formal polynomial.monomials = form := by
  obtain ⟨other, same, facts⟩ := returns
  cases same
  exact facts

theorem covers_nil : reading.Covers [] :=
  fun _ member => (List.not_mem_nil member).elim

theorem covers_cons {item : Monomial K} {rest : List (Monomial K)} :
    reading.Covers (item :: rest) ↔ reading.exact item.coefficient ∧ reading.Covers rest :=
  List.forall_mem_cons

/-- Lists are covered together if each of them is. -/
theorem covers_append {first second : List (Monomial K)} (firstCovered : reading.Covers first)
    (secondCovered : reading.Covers second) : reading.Covers (first ++ second) :=
  List.forall_mem_append.2 ⟨firstCovered, secondCovered⟩

@[simp] theorem formal_nil : reading.formal [] = 0 := rfl

@[simp] theorem formal_cons (item : Monomial K) (rest : List (Monomial K)) :
    reading.formal (item :: rest) = reading.term item + reading.formal rest := rfl

@[simp] theorem formal_append (first second : List (Monomial K)) :
    reading.formal (first ++ second) = reading.formal first + reading.formal second := by
  rw [formal, List.map_append, List.sum_append]
  rfl

/-- Absorbing a monomial adds its term. -/
theorem yields_absorb {sum : List (Monomial K)} {item : Monomial K} (covered : reading.Covers sum)
    (exact : reading.exact item.coefficient) :
    reading.Yields (absorb sum item) (reading.formal sum + reading.term item) := by
  induction sum with
  | nil =>
      refine ⟨[item], rfl, covers_cons.2 ⟨exact, covers_nil⟩, ?_⟩
      rw [formal_cons, add_comm]
  | cons head rest hypothesis =>
      rw [covers_cons] at covered
      simp only [absorb]
      split
      · rename_i same
        obtain ⟨coefficient, returned, sumExact, valueSum⟩ := reading.exact_add covered.1 exact
        refine ⟨⟨coefficient, head.powers⟩ :: rest, map_eq_ok.2 ⟨coefficient, returned, rfl⟩,
          covers_cons.2 ⟨sumExact, covered.2⟩, ?_⟩
        rw [formal_cons, formal_cons, term, valueSum, map_add, term, term, same, add_right_comm]
      · obtain ⟨merged, returned, mergedCovered, mergedFormal⟩ := hypothesis covered.2
        refine ⟨head :: merged, map_eq_ok.2 ⟨merged, returned, rfl⟩,
          covers_cons.2 ⟨covered.1, mergedCovered⟩, ?_⟩
        rw [formal_cons, mergedFormal, formal_cons, add_assoc]

theorem yields_foldlM_absorb {monomials sum : List (Monomial K)} (sumCovered : reading.Covers sum)
    (covered : reading.Covers monomials) :
    reading.Yields (monomials.foldlM absorb sum) (reading.formal sum + reading.formal monomials) := by
  induction monomials generalizing sum with
  | nil => exact ⟨sum, rfl, sumCovered, (add_zero _).symm⟩
  | cons head rest hypothesis =>
      rw [covers_cons] at covered
      obtain ⟨next, returned, nextCovered, nextFormal⟩ := yields_absorb sumCovered covered.1
      obtain ⟨merged, mergedReturned, mergedCovered, mergedFormal⟩ := hypothesis nextCovered covered.2
      refine ⟨merged, ?_, mergedCovered, ?_⟩
      · rw [List.foldlM_cons, bind_eq_ok]
        exact ⟨next, returned, mergedReturned⟩
      · rw [mergedFormal, nextFormal, formal_cons, add_assoc]

/-- Merging changes no sum. -/
theorem yields_merge {monomials : List (Monomial K)} (covered : reading.Covers monomials) :
    reading.Yields (merge monomials) (reading.formal monomials) := by
  have yields := yields_foldlM_absorb covers_nil covered
  rwa [formal_nil, zero_add] at yields

/-- A polynomial is the sum of the monomials that it is made of. -/
theorem returns_ofMonomials {monomials : List (Monomial K)} (covered : reading.Covers monomials) :
    reading.Returns (ofMonomials monomials) (reading.formal monomials) := by
  obtain ⟨merged, returned, facts⟩ := yields_merge covered
  exact ⟨⟨merged, isUnivariate merged⟩, map_eq_ok.2 ⟨merged, returned, rfl⟩, facts⟩

/-- What is written and merged afterwards is returned by the operation on a copy. -/
theorem returns_mergeFrom (polynomial : Polynomial K) {monomials : List (Monomial K)}
    (covered : reading.Covers monomials) :
    reading.Returns (polynomial.mergeFrom monomials).result (reading.formal monomials) := by
  obtain ⟨merged, returned, facts⟩ := yields_merge covered
  refine ⟨⟨merged, isUnivariate merged⟩, ?_, facts⟩
  rw [mergeFrom, returned]
  rfl

/-- The list that is exchanged for the old one decides the form. -/
theorem returns_exchange (polynomial : Polynomial K) {result : Except Fault (List (Monomial K))}
    {form : MvPolynomial Int R} (yields : reading.Yields result form) :
    reading.Returns (polynomial.exchange result).result form := by
  obtain ⟨monomials, rfl, facts⟩ := yields
  exact ⟨{ polynomial with monomials := monomials }, rfl, facts⟩

/-- Sums are sums of forms. -/
theorem returns_add {first second : Polynomial K} (firstCovered : reading.Covers first.monomials)
    (secondCovered : reading.Covers second.monomials) :
    reading.Returns (first.add second)
      (reading.formal first.monomials + reading.formal second.monomials) := by
  rw [← formal_append]
  exact returns_mergeFrom first (covers_append firstCovered secondCovered)

/-- The negative of a covered coefficient is covered. -/
theorem covers_negated {monomials : List (Monomial K)} (covered : reading.Covers monomials) :
    reading.Covers (negated monomials) := by
  intro item member
  obtain ⟨old, isOld, rfl⟩ := List.mem_map.1 member
  exact reading.exact_neg (covered old isOld)

/-- Negation negates the form. -/
theorem formal_negated {monomials : List (Monomial K)} (covered : reading.Covers monomials) :
    reading.formal (negated monomials) = -reading.formal monomials := by
  induction monomials with
  | nil => exact neg_zero.symm
  | cons head rest hypothesis =>
      rw [covers_cons] at covered
      have headTerm : reading.term head.neg = -reading.term head := by
        change monomial head.powers.exponents (reading.value (Coefficient.neg head.coefficient)) = _
        rw [reading.value_neg covered.1, map_neg]
        rfl
      change reading.term head.neg + reading.formal (negated rest) = _
      rw [headTerm, hypothesis covered.2, formal_cons, neg_add]

/-- Differences are differences of forms. -/
theorem returns_sub {first second : Polynomial K} (firstCovered : reading.Covers first.monomials)
    (secondCovered : reading.Covers second.monomials) :
    reading.Returns (first.sub second)
      (reading.formal first.monomials - reading.formal second.monomials) := by
  rw [sub_eq_add_neg, ← formal_negated secondCovered, ← formal_append]
  exact returns_mergeFrom first (covers_append firstCovered (covers_negated secondCovered))

/-- Products of monomials multiply their terms. -/
theorem exact_monomial_mul {first second : Monomial K}
    (firstExact : reading.exact first.coefficient)
    (secondExact : reading.exact second.coefficient) :
    ∃ product, first.mul second = .ok product ∧ reading.exact product.coefficient ∧
      reading.term product = reading.term first * reading.term second := by
  obtain ⟨coefficient, returned, exact, value⟩ := reading.exact_mul firstExact secondExact
  refine ⟨⟨coefficient, first.powers.mul second.powers⟩,
    map_eq_ok.2 ⟨coefficient, returned, rfl⟩, exact, ?_⟩
  rw [term, value, PowerProduct.exponents_mul, term, term, monomial_mul]

/-- A list that is computed item by item is the sum of what the items are. -/
theorem yields_mapM {A : Type} {list : List A} {step : A → Except Fault (Monomial K)}
    {form : A → MvPolynomial Int R} (each : ∀ part ∈ list, ∃ item, step part = .ok item ∧
      reading.exact item.coefficient ∧ reading.term item = form part) :
    reading.Yields (list.mapM step) (list.map form).sum := by
  induction list with
  | nil => exact ⟨[], rfl, covers_nil, rfl⟩
  | cons head rest hypothesis =>
      obtain ⟨item, itemReturned, exact, itemTerm⟩ := each head List.mem_cons_self
      obtain ⟨items, restReturned, covered, restFormal⟩ :=
        hypothesis fun part member => each part (List.mem_cons_of_mem head member)
      refine ⟨item :: items, ?_, covers_cons.2 ⟨exact, covered⟩, ?_⟩
      · rw [List.mapM_cons, itemReturned, restReturned]
        rfl
      · rw [formal_cons, itemTerm, restFormal, List.map_cons, List.sum_cons]

/-- All pairs together make the product of the sums. -/
theorem sum_pairs (first second : List (Monomial K)) :
    ((first.flatMap fun left => second.map fun right => (left, right)).map
      fun pair => reading.term pair.1 * reading.term pair.2).sum =
        reading.formal first * reading.formal second :=
  sum_map_pairs reading.term first second

/-- The list of all products is the product of both forms. -/
theorem yields_products {first second : List (Monomial K)} (firstCovered : reading.Covers first)
    (secondCovered : reading.Covers second) :
    reading.Yields (products first second) (reading.formal first * reading.formal second) := by
  rw [← sum_pairs]
  apply yields_mapM
  rintro ⟨left, right⟩ member
  obtain ⟨leftItem, isLeft, member⟩ := List.mem_flatMap.1 member
  obtain ⟨rightItem, isRight, same⟩ := List.mem_map.1 member
  cases same
  exact exact_monomial_mul (firstCovered left isLeft) (secondCovered right isRight)

/-- Products are products of forms. -/
theorem returns_mul {first second : Polynomial K} (firstCovered : reading.Covers first.monomials)
    (secondCovered : reading.Covers second.monomials) :
    reading.Returns (first.mul second)
      (reading.formal first.monomials * reading.formal second.monomials) := by
  obtain ⟨monomials, returned, covered, form⟩ := yields_products firstCovered secondCovered
  rw [← form, Polynomial.mul, multiplyBy, returned]
  exact returns_mergeFrom first covered

/-- A scalar multiplies the form as a constant. -/
theorem returns_scale {polynomial : Polynomial K} {scalar : K}
    (covered : reading.Covers polynomial.monomials) (exact : reading.exact scalar) :
    reading.Returns (polynomial.scale scalar)
      (reading.formal polynomial.monomials * C (reading.value scalar)) := by
  have form : reading.formal polynomial.monomials * C (reading.value scalar) =
      (polynomial.monomials.map fun item => reading.term item * C (reading.value scalar)).sum :=
    (List.sum_map_mul_right polynomial.monomials reading.term _).symm
  rw [form]
  apply returns_exchange
  apply yields_mapM
  intro item member
  obtain ⟨coefficient, returned, productExact, value⟩ :=
    reading.exact_mul (covered item member) exact
  refine ⟨item.withCoefficient coefficient, map_eq_ok.2 ⟨coefficient, returned, rfl⟩,
    productExact, ?_⟩
  change monomial item.powers.exponents (reading.value coefficient) = _
  rw [value, mul_comm (term reading item), term, C_mul_monomial, mul_comm]

/-- The value of a product of powers at a point. -/
theorem prod_exponentsOf (point : Int → R) (factors : List Factor) :
    (exponentsOf factors).prod (fun var power => point var ^ power) =
      (factors.map fun factor => point factor.var ^ factor.power).prod := by
  induction factors with
  | nil => exact Finsupp.prod_zero_index
  | cons head rest hypothesis =>
      have single : (Finsupp.single head.var head.power).prod (fun var power => point var ^ power) =
          point head.var ^ head.power := Finsupp.prod_single_index (pow_zero _)
      rw [exponentsOf_cons, Finsupp.prod_add_index' (fun _ => pow_zero _) (fun _ _ _ => pow_add _ _ _),
        single, hypothesis, List.map_cons, List.prod_cons]

/-- The value of a monomial at a point. -/
theorem eval_term (point : Int → R) (item : Monomial K) :
    eval point (reading.term item) = reading.value item.coefficient *
      (item.powers.factors.map fun factor => point factor.var ^ factor.power).prod := by
  rw [term, eval_monomial, PowerProduct.exponents, prod_exponentsOf]

end Reading

end TrigAlgebra
