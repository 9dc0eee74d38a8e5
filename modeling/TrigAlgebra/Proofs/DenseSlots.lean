/-
This file proves that the list of coefficients of a polynomial in one variable is faithful: each slot
holds the coefficient of its power, or zero, and the polynomial is found again from the slots.
-/

import TrigAlgebra.Proofs.RoundTrip
import TrigAlgebra.Proofs.StoredIntegers

namespace TrigAlgebra

namespace Polynomial

section Powers

variable {K : Type} {polynomial : Polynomial K} {single : Int}

/-- The largest power of any variable in any monomial, zero without variables. -/
def largestPower (polynomial : Polynomial K) : Nat :=
  (polynomial.monomials.flatMap fun item => item.powers.factors.map Factor.power).foldl max 0

theorem largestPower_le_iff {bound : Nat} : polynomial.largestPower ≤ bound ↔
    ∀ item ∈ polynomial.monomials, ∀ factor ∈ item.powers.factors, factor.power ≤ bound := by
  unfold largestPower
  rw [foldl_max_le, and_iff_right (Nat.zero_le bound)]
  simp only [List.forall_mem_flatMap, List.forall_mem_map]

theorem largestPower_of_vars (none : polynomial.vars = []) : polynomial.largestPower = 0 := by
  rw [← Nat.le_zero, largestPower_le_iff]
  intro item member factor isFactor
  have occurs : factor.var ∈ polynomial.vars :=
    mem_vars.2 (occurs_powersOf.2 ⟨item, member, factor, isFactor, rfl⟩)
  rw [none] at occurs
  exact (List.not_mem_nil occurs).elim

theorem factors_power_le_iff {exponent bound : Nat} :
    (∀ factor ∈ (PowerProduct.power single exponent).factors, factor.power ≤ bound) ↔ exponent ≤ bound := by
  unfold PowerProduct.power
  split
  · exact List.forall_mem_singleton
  · rename_i zero
    rw [Nat.eq_zero_of_not_pos zero]
    exact iff_of_true (List.forall_mem_nil _) (Nat.zero_le bound)

/-- In one variable the product of the powers of a monomial is its only power. -/
theorem degree_eq_largestPower (powers : polynomial.InVariable single) :
    polynomial.degree = polynomial.largestPower := by
  apply eq_of_forall_ge_iff
  intro bound
  rw [degree, foldl_max_le, and_iff_right (Nat.zero_le bound), List.forall_mem_map, largestPower_le_iff]
  refine forall₂_congr fun item member => ?_
  rw [Monomial.degree, powers item member, PowerProduct.degree_power, factors_power_le_iff]

end Powers

section Slots

variable {K : Type} {polynomial : Polynomial K} {var : Int} {slots : List K}

/-- Each slot stands before the power of the variable that is its place. -/
def monomialsOf (var : Int) (slots : List K) : List (Monomial K) :=
  slots.zipIdx.map fun slot => ⟨slot.1, .power var slot.2⟩

theorem mem_monomialsOf {item : Monomial K} : item ∈ monomialsOf var slots ↔
    ∃ power, slots[power]? = some item.coefficient ∧ item.powers = .power var power := by
  unfold monomialsOf
  rw [List.mem_map]
  constructor
  · rintro ⟨⟨coefficient, power⟩, member, rfl⟩
    exact ⟨power, List.mk_mem_zipIdx_iff_getElem?.1 member, rfl⟩
  · rintro ⟨power, held, powers⟩
    exact ⟨(item.coefficient, power), List.mk_mem_zipIdx_iff_getElem?.2 held,
      congrArg (Monomial.mk item.coefficient) powers.symm⟩

theorem nodup_monomialsOf (var : Int) (slots : List K) : (powersOf (monomialsOf var slots)).Nodup := by
  have powers : powersOf (monomialsOf var slots) =
      (slots.zipIdx.map Prod.snd).map (PowerProduct.power var) := by
    rw [powersOf, monomialsOf, List.map_map, List.map_map]
    rfl
  rw [powers, List.zipIdx_map_snd]
  exact List.Nodup.map (PowerProduct.power_injective var) List.nodup_range'

variable [Coefficient K]

/-- In one variable the coefficient of a power is that of the monomial with this power. -/
theorem coefficientOf?_eq (distinct : polynomial.Distinct) (powers : polynomial.InVariable var) (power : Nat) :
    polynomial.coefficientOf? power = polynomial.coefficient? (.power var power) := by
  cases found : polynomial.coefficientOf? power with
  | none =>
      symm
      rw [coefficient?_eq_none]
      intro occurs
      obtain ⟨item, member, same⟩ := List.mem_map.1 occurs
      have held := coefficientOf?_isSome member
      rw [same, PowerProduct.leadingPower_power, found] at held
      cases held
  | some coefficient =>
      obtain ⟨item, member, rfl, rfl⟩ := exists_of_coefficientOf? found
      rw [← powers item member, coefficient?_of_mem distinct member]

theorem getElem?_denseSlots (distinct : polynomial.Distinct) (powers : polynomial.InVariable var) {power : Nat}
    (inside : power < polynomial.denseSlots.length) : polynomial.denseSlots[power]? =
      some ((polynomial.coefficient? (.power var power)).getD Coefficient.zero) := by
  rw [length_denseSlots] at inside
  rw [denseSlots_eq distinct powers, List.getElem?_map, List.getElem?_range inside, Option.map_some,
    coefficientOf?_eq distinct powers]

/-- Every monomial has a slot. -/
theorem leadingPower_lt_length (powers : polynomial.InVariable var) {item : Monomial K}
    (member : item ∈ polynomial.monomials) : item.powers.leadingPower < polynomial.denseSlots.length := by
  rw [length_denseSlots]
  exact Nat.lt_succ_of_le (leadingPower_le_degree powers member)

theorem getElem?_denseSlots_of_mem (distinct : polynomial.Distinct) (powers : polynomial.InVariable var)
    {item : Monomial K} (member : item ∈ polynomial.monomials) :
    polynomial.denseSlots[item.powers.leadingPower]? = some item.coefficient := by
  rw [getElem?_denseSlots distinct powers (leadingPower_lt_length powers member), ← powers item member,
    coefficient?_of_mem distinct member]
  rfl

/-- A slot that does not hold a zero was written by a monomial. -/
theorem mem_of_getElem?_denseSlots (zero : Coefficient.isZero (Coefficient.zero : K) = true)
    (distinct : polynomial.Distinct) (powers : polynomial.InVariable var) {power : Nat} {coefficient : K}
    (held : polynomial.denseSlots[power]? = some coefficient)
    (nonzero : Coefficient.isZero coefficient = false) :
    ⟨coefficient, .power var power⟩ ∈ polynomial.monomials := by
  have inside : power < polynomial.denseSlots.length := (List.getElem?_eq_some_iff.1 held).1
  rw [getElem?_denseSlots distinct powers inside, Option.some_inj] at held
  cases found : polynomial.coefficient? (.power var power) with
  | none =>
      rw [← held, found] at nonzero
      cases zero.symm.trans nonzero
  | some written =>
      rw [← coefficientOf?_eq distinct powers] at found
      obtain ⟨item, member, rfl, rfl⟩ := exists_of_coefficientOf? found
      rw [coefficientOf?_eq distinct powers] at found
      rw [found] at held
      rw [← held, ← powers item member]
      exact member

/-- Up to zeros and their order, the monomials of the slots are those that were written into them. -/
theorem perm_nonzeros_monomialsOf (zero : Coefficient.isZero (Coefficient.zero : K) = true)
    (distinct : polynomial.Distinct) (powers : polynomial.InVariable var) :
    (nonzeros (monomialsOf var polynomial.denseSlots)).Perm (nonzeros polynomial.monomials) := by
  have apart {monomials : List (Monomial K)} (distinct : (powersOf monomials).Nodup) :
      (nonzeros monomials).Nodup := (List.Nodup.of_map _ distinct).filter _
  rw [List.perm_ext_iff_of_nodup (apart (nodup_monomialsOf var _)) (apart distinct)]
  intro item
  rw [nonzeros, nonzeros, List.mem_filter, List.mem_filter, mem_monomialsOf]
  refine and_congr_left fun nonzero => ⟨?_, fun member => ?_⟩
  · rintro ⟨power, held, same⟩
    have written := mem_of_getElem?_denseSlots zero distinct powers held (by simpa using nonzero)
    rwa [← same] at written
  · exact ⟨item.powers.leadingPower, getElem?_denseSlots_of_mem distinct powers member, powers item member⟩

/-- The polynomial that is built from the slots has the monomials of the first one, up to zeros. -/
theorem ofMonomials_monomialsOf (zero : Coefficient.isZero (Coefficient.zero : K) = true)
    (distinct : polynomial.Distinct) (powers : polynomial.InVariable var) :
    ∃ rebuilt, ofMonomials (monomialsOf var polynomial.denseSlots) = .ok rebuilt ∧ rebuilt.Distinct ∧
      rebuilt.withoutZeros.monomials.Perm polynomial.withoutZeros.monomials :=
  ⟨_, ofMonomials_of_nodup (nodup_monomialsOf var _), nodup_monomialsOf var _,
    perm_nonzeros_monomialsOf zero distinct powers⟩

theorem distinct_withoutZeros (distinct : polynomial.Distinct) : polynomial.withoutZeros.Distinct :=
  distinct.sublist (List.filter_sublist.map Monomial.powers)

/-- Polynomials with the same monomials are equal if each coefficient equals itself. -/
theorem same_of_perm {first second : Polynomial K} (distinct : first.Distinct) (distinct' : second.Distinct)
    (order : first.monomials.Perm second.monomials)
    (ordinary : ∀ item ∈ second.monomials, Coefficient.same item.coefficient item.coefficient = true) :
    first.same second = true := by
  refine same_of_counterparts distinct distinct' (fun item member => ?_) fun other member => ?_
  · have inSecond := order.mem_iff.1 member
    exact ⟨item, inSecond, rfl, ordinary item inSecond⟩
  · exact List.mem_map_of_mem (order.mem_iff.2 member)

end Slots

/-- The slots hold the polynomial in the variable: one for each power up to the largest one, and every
monomial writes one of its own. The rebuilt polynomial has the very coefficients of the first one, so
that the two are equal unless one of them is not a number and differs from itself. -/
structure HeldIn (polynomial : Polynomial Number) (var : Int) (slots : List Number) : Prop where
  length : slots.length = 1 + polynomial.largestPower
  constant : polynomial.vars = [] → slots.length = 1
  inside : ∀ item ∈ polynomial.monomials, item.powers.leadingPower < slots.length
  apart : (polynomial.monomials.map fun item => item.powers.leadingPower).Nodup
  written : ∀ item ∈ polynomial.monomials, item.powers = .power var item.powers.leadingPower ∧
    slots[item.powers.leadingPower]? = some item.coefficient
  unwritten : ∀ power < slots.length, .power var power ∉ powersOf polynomial.monomials →
    slots[power]? = some (.real 0.0)
  rebuilt : ∃ rebuilt, ofMonomials (monomialsOf var slots) = .ok rebuilt ∧
    rebuilt.withoutZeros.monomials.Perm polynomial.withoutZeros.monomials ∧
    ((∀ item ∈ polynomial.monomials, Coefficient.same item.coefficient item.coefficient = true) →
      rebuilt.withoutZeros.same polynomial.withoutZeros = true)

/-- The coefficients of a reachable polynomial in one variable, listed by power, hold the polynomial in
this variable; a constant is held in every variable. -/
theorem dense_heldIn (polynomial : Polynomial Number) (reachable : polynomial.Reachable)
    (named : noVariable ∉ polynomial.vars) (univariate : polynomial.univariate = true) :
    ∃ slots, polynomial.dense = .ok slots ∧ (∃ single, ∀ var ∈ polynomial.vars, var = single) ∧
      ∀ single, (∀ var ∈ polynomial.vars, var = single) → polynomial.HeldIn single slots := by
  have zero : Coefficient.isZero (Coefficient.zero : Number) = true := by decide
  obtain ⟨known, oneVariable⟩ := exists_oneVariable reachable named univariate
  have distinct := oneVariable.distinct
  have length : polynomial.denseSlots.length = 1 + polynomial.largestPower := by
    rw [length_denseSlots, degree_eq_largestPower oneVariable.powers, Nat.add_comm]
  refine ⟨_, dense_of_univariate univariate, ⟨known, fun var => oneVariable.powers.var_eq⟩, ?_⟩
  intro single only
  have powers : polynomial.InVariable single := inVariable_of_vars only
  obtain ⟨rebuilt, returned, distinct', order⟩ := ofMonomials_monomialsOf zero distinct powers
  exact {
    length
    constant := fun none => by rw [length, largestPower_of_vars none]
    inside := fun _ => leadingPower_lt_length powers
    apart := nodup_leadingPowers distinct powers
    written := fun item member => ⟨powers item member, getElem?_denseSlots_of_mem distinct powers member⟩
    unwritten := fun power inside missing => by
      rw [getElem?_denseSlots distinct powers inside, coefficient?_eq_none.2 missing]
      rfl
    rebuilt := ⟨rebuilt, returned, order, fun ordinary =>
      same_of_perm (distinct_withoutZeros distinct') (distinct_withoutZeros distinct) order
        fun item member => ordinary item (List.mem_of_mem_filter member)⟩ }

/-- The powers are not in order, one is missing, and a coefficient is zero. -/
def shuffledCubic : Polynomial Number :=
  ⟨[⟨.integer 4, .power 2 3⟩, ⟨.real 2.5, .one⟩, ⟨.integer 0, .power 2 1⟩], true⟩

theorem dense_heldIn_shuffledCubic : shuffledCubic.Reachable ∧ noVariable ∉ shuffledCubic.vars ∧
    shuffledCubic.univariate = true ∧
      shuffledCubic.dense = .ok [.real 2.5, .integer 0, .real 0.0, .integer 4] ∧
      shuffledCubic.HeldIn 2 [.real 2.5, .integer 0, .real 0.0, .integer 4] := by
  have merged : ofMonomials shuffledCubic.monomials = .ok shuffledCubic := rfl
  have reachable : shuffledCubic.Reachable := .ofMonomials merged
  have vars : shuffledCubic.vars = [2] := by decide +kernel
  have named : noVariable ∉ shuffledCubic.vars := by
    rw [vars]
    decide
  obtain ⟨slots, listed, -, held⟩ := dense_heldIn shuffledCubic reachable named rfl
  have same : shuffledCubic.dense = .ok [.real 2.5, .integer 0, .real 0.0, .integer 4] := rfl
  obtain rfl := Except.ok.inj (same.symm.trans listed)
  refine ⟨reachable, named, rfl, same, held 2 ?_⟩
  rw [vars]
  exact fun _ => List.mem_singleton.1

end Polynomial

end TrigAlgebra
