/-
This file looks up the coefficients of polynomials with distinct powers, and decides equality by
them.
-/

import TrigAlgebra.Proofs.FormalPolynomial

namespace TrigAlgebra.Polynomial

variable {K : Type}

/-- Distinct monomials are known by their products. -/
theorem eq_of_powers_eq {monomials : List (Monomial K)} (distinct : (powersOf monomials).Nodup)
    {first second : Monomial K} (isFirst : first ∈ monomials) (isSecond : second ∈ monomials)
    (same : first.powers = second.powers) : first = second :=
  List.inj_on_of_nodup_map distinct isFirst isSecond same

/-- A coefficient is missing if the product does not occur. -/
theorem coefficient?_eq_none {polynomial : Polynomial K} {powers : PowerProduct} [Coefficient K] :
    polynomial.coefficient? powers = none ↔ powers ∉ powersOf polynomial.monomials := by
  unfold coefficient? powersOf
  rw [Option.map_eq_none_iff, List.find?_eq_none, List.mem_map]
  simp only [List.mem_reverse, beq_iff_eq, not_exists, not_and]

/-- In a polynomial with distinct powers every monomial is found by its powers. -/
theorem coefficient?_of_mem [Coefficient K] {polynomial : Polynomial K}
    (distinct : polynomial.Distinct)
    {item : Monomial K} (member : item ∈ polynomial.monomials) :
    polynomial.coefficient? item.powers = some item.coefficient := by
  unfold coefficient?
  cases found : polynomial.monomials.reverse.find? fun monomial => monomial.powers == item.powers with
  | none =>
      have absurd := List.find?_eq_none.1 found item (List.mem_reverse.2 member)
      exact (absurd (beq_self_eq_true _)).elim
  | some other =>
      have test := List.find?_some found
      have same : other.powers = item.powers := beq_iff_eq.1 test
      have isOther := List.mem_reverse.1 (List.mem_of_find?_eq_some found)
      rw [eq_of_powers_eq distinct isOther member same]
      rfl

/-- Polynomials with distinct powers are equal if each monomial of one has a counterpart in the
other. -/
theorem same_of_counterparts [Coefficient K] {first second : Polynomial K}
    (distinct : first.Distinct) (distinct' : second.Distinct)
    (forward : ∀ item ∈ first.monomials, ∃ other ∈ second.monomials,
      other.powers = item.powers ∧ Coefficient.same item.coefficient other.coefficient = true)
    (back : ∀ other ∈ second.monomials, other.powers ∈ powersOf first.monomials) :
    first.same second = true := by
  rw [same, Bool.and_eq_true, List.all_eq_true, covers, List.all_eq_true]
  constructor
  · intro item member
    obtain ⟨other, isOther, powers, equal⟩ := forward item member
    have found := coefficient?_of_mem distinct' isOther
    rw [powers] at found
    rw [coefficient?_of_mem distinct member, found]
    exact equal
  · intro other member
    rw [Option.isSome_iff_ne_none, ne_eq, coefficient?_eq_none, not_not]
    exact back other member

end TrigAlgebra.Polynomial

namespace TrigAlgebra.Reading

open MvPolynomial TrigAlgebra.Polynomial

variable {K R : Type} [Coefficient K] [CommRing R] {reading : Reading K R}

/-- A term has one coefficient. -/
theorem coeff_term (item : Monomial K) (powers : PowerProduct) :
    coeff powers.exponents (reading.term item) =
      if item.powers = powers then reading.value item.coefficient else 0 := by
  rw [term, coeff_monomial]
  simp only [PowerProduct.exponents_injective.eq_iff]

/-- A product that does not occur has the coefficient zero. -/
theorem coeff_formal_of_not_mem {monomials : List (Monomial K)} {powers : PowerProduct}
    (absent : powers ∉ powersOf monomials) :
    coeff powers.exponents (reading.formal monomials) = 0 := by
  induction monomials with
  | nil => exact coeff_zero _
  | cons head rest hypothesis =>
      simp only [powersOf, List.map_cons, List.mem_cons, not_or] at absent
      rw [formal_cons, coeff_add, coeff_term, if_neg (Ne.symm absent.1), hypothesis absent.2, add_zero]

/-- A monomial has its own coefficient where products are distinct. -/
theorem coeff_formal_of_mem {monomials : List (Monomial K)} (distinct : (powersOf monomials).Nodup)
    {item : Monomial K} (member : item ∈ monomials) :
    coeff item.powers.exponents (reading.formal monomials) = reading.value item.coefficient := by
  induction monomials with
  | nil => exact (List.not_mem_nil member).elim
  | cons head rest hypothesis =>
      rw [powersOf, List.map_cons, List.nodup_cons] at distinct
      rw [formal_cons, coeff_add, coeff_term]
      rcases List.mem_cons.1 member with rfl | inRest
      · rw [if_pos rfl, coeff_formal_of_not_mem distinct.1, add_zero]
      · have different : head.powers ≠ item.powers := fun same =>
          distinct.1 (same ▸ List.mem_map_of_mem inRest)
        rw [if_neg different, zero_add, hypothesis distinct.2 inRest]

/-- The coefficient that is found, or zero, is that of the formal polynomial. -/
theorem coeff_formal {polynomial : Polynomial K} (distinct : polynomial.Distinct)
    (powers : PowerProduct) :
    coeff powers.exponents (reading.formal polynomial.monomials) =
      ((polynomial.coefficient? powers).map reading.value).getD 0 := by
  by_cases present : powers ∈ powersOf polynomial.monomials
  · obtain ⟨item, member, rfl⟩ := List.mem_map.1 present
    rw [coeff_formal_of_mem distinct member, coefficient?_of_mem distinct member]
    rfl
  · rw [coeff_formal_of_not_mem present, coefficient?_eq_none.2 present]
    rfl

/-- Polynomials with the same powers that stand for the same formal polynomial are equal. -/
theorem same_of_formal_eq {first second : Polynomial K}
    (firstCovered : reading.Covers first.monomials)
    (secondCovered : reading.Covers second.monomials)
    (firstDistinct : first.Distinct) (secondDistinct : second.Distinct)
    (powers : ∀ product, product ∈ powersOf first.monomials ↔ product ∈ powersOf second.monomials)
    (equal : reading.formal first.monomials = reading.formal second.monomials) :
    first.same second = true := by
  refine same_of_counterparts firstDistinct secondDistinct (fun item member => ?_) fun other isOther =>
    (powers other.powers).2 (List.mem_map_of_mem isOther)
  obtain ⟨other, isOther, same⟩ := List.mem_map.1 ((powers item.powers).1 (List.mem_map_of_mem member))
  refine ⟨other, isOther, same, ?_⟩
  apply (reading.same_iff (firstCovered item member) (secondCovered other isOther)).2
  rw [← coeff_formal_of_mem firstDistinct member, equal, ← same,
    coeff_formal_of_mem secondDistinct isOther]

end TrigAlgebra.Reading
