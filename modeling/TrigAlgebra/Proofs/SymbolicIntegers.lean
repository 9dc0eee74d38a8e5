/-
This file gives symbolic sums of integer multiples of powers of symbols their formal polynomials, in
which all spellings of a variable are one, and follows the arithmetic of these sums.
-/

import TrigAlgebra.Proofs.FormalPolynomial
import TrigAlgebra.Proofs.SymbolicMonomials

namespace TrigAlgebra

open MvPolynomial

namespace Symbolic

namespace Scalar

/-- The scalar is an exact integer. -/
def IsWhole (scalar : Scalar) : Prop := ∃ value, scalar = .ofInt value

/-- The integer that an exact number is. -/
def whole : Scalar → Int
  | .exact re _ => re.num
  | _ => 0

@[simp] theorem whole_ofInt (value : Int) : (ofInt value).whole = value := Rat.num_intCast value

theorem isWhole_ofInt (value : Int) : (ofInt value).IsWhole := ⟨value, rfl⟩

theorem isExactZero_ofInt {value : Int} : (ofInt value).isExactZero = true ↔ value = 0 :=
  beq_iff_eq.trans ⟨ofInt_injective, fun zero => zero ▸ rfl⟩

theorem cleared_ofInt (value : Int) : Sum.cleared (ofInt value) = ofInt value := by
  unfold Sum.cleared
  split
  · rename_i zero
    rw [isZero_ofInt.1 zero]
    rfl
  · rfl

end Scalar

/-- The variable of which an atom is a spelling. -/
def Atom.var : Atom → Int
  | .variable name => (NamingTable.variableOf {} name).toOption.getD noVariable
  | .compound _ => noVariable

/-- A symbol that is the name of a variable stands for that variable. -/
theorem Atom.var_eq {name : String} {var : Int} (known : NamingTable.variableOf {} name = .ok var) :
    (Atom.variable name).var = var := by
  rw [Atom.var, known]
  rfl

/-- The atom is a symbol spelled as the name of a variable. -/
def Atom.IsSpelling : Atom → Prop
  | .variable name => ∃ var, NamingTable.variableOf {} name = .ok var
  | .compound _ => False

/-- A positive integer. -/
def IsExponent (exponent : Rat) : Prop := ∃ natural : Nat, 0 < natural ∧ exponent = natural

/-- The positive integer that an exponent is. -/
def natural (exponent : Rat) : Nat := exponent.num.toNat

@[simp] theorem natural_natCast (exponent : Nat) : natural exponent = exponent := by
  rw [natural, Rat.num_natCast, Int.toNat_natCast]

/-- Exponents are added as natural numbers. -/
theorem IsExponent.add {first second : Rat} (isExponent : IsExponent first) (isExponent' : IsExponent second) :
    IsExponent (first + second) ∧ natural (first + second) = natural first + natural second := by
  obtain ⟨natural, positive, rfl⟩ := isExponent
  obtain ⟨natural', positive', rfl⟩ := isExponent'
  rw [← Nat.cast_add, natural_natCast, natural_natCast, natural_natCast]
  exact ⟨⟨natural + natural', Nat.add_pos_left positive _, rfl⟩, rfl⟩

theorem IsExponent.ne_zero {exponent : Rat} (isExponent : IsExponent exponent) : exponent ≠ 0 := by
  obtain ⟨natural, positive, rfl⟩ := isExponent
  exact Nat.cast_ne_zero.2 positive.ne'

namespace Powers

/-- Powers of spelled variables with positive integers as exponents. -/
def Natural (powers : Powers) : Prop :=
  ∀ power ∈ powers, power.1.IsSpelling ∧ IsExponent power.2

/-- The exponents of the variables; those of different spellings add up. -/
noncomputable def exponents (powers : Powers) : Int →₀ Nat :=
  (powers.map fun power => Finsupp.single power.1.var (natural power.2)).sum

variable {powers first second : Powers} {atom : Atom} {exponent : Rat}

theorem exponents_cons (head : Atom × Rat) (rest : Powers) :
    exponents (head :: rest) = Finsupp.single head.1.var (natural head.2) + exponents rest := List.sum_cons

/-- One more power of a variable is added to its exponent. -/
theorem Natural.insert (isNatural : powers.Natural) (spelling : atom.IsSpelling)
    (isExponent : IsExponent exponent) : (insert atom exponent powers).Natural ∧
      (insert atom exponent powers).exponents =
        powers.exponents + Finsupp.single atom.var (natural exponent) := by
  induction powers with
  | nil =>
      rw [Powers.insert, if_neg isExponent.ne_zero, exponents_cons, add_comm]
      exact ⟨List.forall_mem_singleton.2 ⟨spelling, isExponent⟩, rfl⟩
  | cons head rest hypothesis =>
      obtain ⟨⟨headSpelling, headExponent⟩, restNatural⟩ := List.forall_mem_cons.1 isNatural
      rw [Powers.insert]
      split
      · rename_i same
        obtain ⟨isSum, value⟩ := headExponent.add isExponent
        rw [if_neg isSum.ne_zero, exponents_cons, exponents_cons, value, Finsupp.single_add, same,
          add_right_comm]
        exact ⟨List.forall_mem_cons.2 ⟨⟨spelling, isSum⟩, restNatural⟩, rfl⟩
      · split
        · rw [if_neg isExponent.ne_zero, exponents_cons (atom, exponent), add_comm]
          exact ⟨List.forall_mem_cons.2 ⟨⟨spelling, isExponent⟩, isNatural⟩, rfl⟩
        · obtain ⟨inserted, value⟩ := hypothesis restNatural
          rw [exponents_cons, exponents_cons, value, add_assoc]
          exact ⟨List.forall_mem_cons.2 ⟨⟨headSpelling, headExponent⟩, inserted⟩, rfl⟩

/-- Powers are multiplied by adding all exponents. -/
theorem Natural.mul (isNatural : first.Natural) (isNatural' : second.Natural) :
    (mul first second).Natural ∧ (mul first second).exponents = first.exponents + second.exponents := by
  unfold Powers.mul
  induction second generalizing first with
  | nil => exact ⟨isNatural, (add_zero _).symm⟩
  | cons head rest hypothesis =>
      obtain ⟨⟨spelling, isExponent⟩, restNatural⟩ := List.forall_mem_cons.1 isNatural'
      obtain ⟨inserted, value⟩ := isNatural.insert spelling isExponent
      obtain ⟨multiplied, total⟩ := hypothesis inserted restNatural
      rw [List.foldl_cons, total, value, exponents_cons, add_assoc]
      exact ⟨multiplied, rfl⟩

end Powers

/-- Integer multiples other than zero of natural powers. -/
def Integral (terms : List (Powers × Scalar)) : Prop :=
  ∀ term ∈ terms, term.1.Natural ∧ ∃ value, value ≠ 0 ∧ term.2 = .ofInt value

/-- A term as a polynomial with integer coefficients. -/
noncomputable def termFormal (term : Powers × Scalar) : MvPolynomial Int Int :=
  monomial term.1.exponents term.2.whole

/-- The sum of all terms. -/
noncomputable def termsFormal (terms : List (Powers × Scalar)) : MvPolynomial Int Int :=
  (terms.map termFormal).sum

/-- The sum of the sizes of all coefficients. -/
def termsWeight (terms : List (Powers × Scalar)) : Nat :=
  (terms.map fun term => term.2.whole.natAbs).sum

/-- Terms with integer coefficients of a bounded total size that add up to a formal polynomial. -/
structure Totals (terms : List (Powers × Scalar)) (form : MvPolynomial Int Int) (bound : Nat) : Prop where
  integral : Integral terms
  formal : termsFormal terms = form
  small : termsWeight terms ≤ bound

variable {terms others : List (Powers × Scalar)} {form form' : MvPolynomial Int Int} {bound bound' : Nat}
  {powers : Powers} {value : Int}

theorem termFormal_ofInt (powers : Powers) (value : Int) :
    termFormal (powers, .ofInt value) = monomial powers.exponents value := by
  rw [termFormal, Scalar.whole_ofInt]

theorem totals_nil : Totals [] 0 0 := ⟨nofun, rfl, Nat.le_refl 0⟩

/-- One more term adds its monomial and its size. -/
theorem totals_cons (isNatural : powers.Natural) (nonzero : value ≠ 0) (totals : Totals terms form bound) :
    Totals ((powers, .ofInt value) :: terms) (form + monomial powers.exponents value)
      (bound + value.natAbs) where
  integral := List.forall_mem_cons.2 ⟨⟨isNatural, value, nonzero, rfl⟩, totals.integral⟩
  formal := by
    rw [termsFormal, List.map_cons, List.sum_cons, termFormal_ofInt, add_comm, ← totals.formal]
    rfl
  small := by
    rw [termsWeight, List.map_cons, List.sum_cons, Scalar.whole_ofInt, Nat.add_comm]
    exact Nat.add_le_add_right totals.small _

/-- The first term of some that add up to a formal polynomial, and the others. -/
theorem Totals.of_cons {head : Powers × Scalar} (totals : Totals (head :: terms) form bound) :
    ∃ powers value rest restBound, head = (powers, .ofInt value) ∧ powers.Natural ∧ value ≠ 0 ∧
      Totals terms rest restBound ∧ form = rest + monomial powers.exponents value ∧
        restBound + value.natAbs ≤ bound := by
  obtain ⟨powers, scalar⟩ := head
  obtain ⟨⟨isNatural, value, nonzero, rfl⟩, integral⟩ := List.forall_mem_cons.1 totals.integral
  refine ⟨powers, value, termsFormal terms, termsWeight terms, rfl, isNatural, nonzero,
    ⟨integral, rfl, Nat.le_refl _⟩, ?_, ?_⟩
  · rw [← totals.formal, termsFormal, List.map_cons, List.sum_cons, termFormal_ofInt, add_comm]
    rfl
  · have small := totals.small
    rw [termsWeight, List.map_cons, List.sum_cons, Scalar.whole_ofInt, Nat.add_comm] at small
    exact small

/-- The bound may be weakened. -/
theorem Totals.mono (totals : Totals terms form bound) (order : bound ≤ bound') : Totals terms form bound' :=
  ⟨totals.integral, totals.formal, totals.small.trans order⟩

/-- A term with the coefficient zero is left out, and the formal polynomial loses nothing by it. -/
theorem Totals.put (totals : Totals terms form bound) (isNatural : powers.Natural) (value : Int) :
    Totals (if (Scalar.ofInt value).isZero then terms else (powers, .ofInt value) :: terms)
      (form + monomial powers.exponents value) (bound + value.natAbs) := by
  split
  · rename_i zero
    rw [Scalar.isZero_ofInt.1 zero, map_zero, add_zero]
    exact totals
  · rename_i notZero
    exact totals_cons isNatural (mt Scalar.isZero_ofInt.2 notZero) totals

/-- Inserting a term adds its monomial, also where it is merged or cancels. -/
theorem Totals.insertTerm (totals : Totals terms form bound) (isNatural : powers.Natural) (value : Int) :
    Totals (Sum.insertTerm powers (.ofInt value) terms) (form + monomial powers.exponents value)
      (bound + value.natAbs) := by
  induction terms generalizing form bound with
  | nil => exact totals.put isNatural value
  | cons head rest hypothesis =>
      obtain ⟨others, coefficient, restForm, restBound, rfl, othersNatural, nonzero, restTotals, rfl, small⟩ :=
        totals.of_cons
      simp only [Sum.insertTerm]
      split
      · rename_i same
        have grown := Int.natAbs_add_le coefficient value
        rw [Scalar.ofInt_add, same, add_assoc, ← map_add]
        exact (restTotals.put isNatural _).mono (by omega)
      · split
        · exact totals.put isNatural value
        · rw [add_right_comm]
          exact (totals_cons othersNatural nonzero (hypothesis restTotals)).mono (by omega)

/-- Inserting all terms of a list adds their sum. -/
theorem Totals.foldl_insertTerm (totals : Totals terms form bound) (totals' : Totals others form' bound') :
    Totals (others.foldl (fun terms term => Sum.insertTerm term.1 term.2 terms) terms) (form + form')
      (bound + bound') := by
  -- The bound of the terms so far takes over the size of each term that is inserted.
  induction others generalizing terms form form' bound bound' with
  | nil =>
      rw [← totals'.formal, termsFormal, List.map_nil, List.sum_nil, add_zero]
      exact totals.mono (Nat.le_add_right _ _)
  | cons head rest hypothesis =>
      obtain ⟨powers, value, restForm, restBound, rfl, isNatural, -, restTotals, rfl, small⟩ :=
        totals'.of_cons
      rw [List.foldl_cons, ← add_assoc, add_right_comm]
      exact (hypothesis (totals.insertTerm isNatural value) restTotals).mono (by omega)

namespace Sum

/-- The symbolic sum as a polynomial with integer coefficients. -/
noncomputable def formal (sum : Sum) : MvPolynomial Int Int :=
  C sum.constant.whole + termsFormal sum.terms

/-- The sum of the sizes of all coefficients. -/
def weight (sum : Sum) : Nat := sum.constant.whole.natAbs + termsWeight sum.terms

/-- A sum with integer coefficients of a bounded total size that stands for a formal polynomial. -/
structure Counts (sum : Sum) (form : MvPolynomial Int Int) (bound : Nat) : Prop where
  constant : sum.constant.IsWhole
  integral : Integral sum.terms
  formal : sum.formal = form
  small : sum.weight ≤ bound

variable {sum first second : Sum}

theorem Counts.mono (counts : sum.Counts form bound) (order : bound ≤ bound') : sum.Counts form bound' :=
  ⟨counts.constant, counts.integral, counts.formal, counts.small.trans order⟩

theorem counts_mk (value : Int) (totals : Totals terms form bound) :
    Counts ⟨.ofInt value, terms⟩ (C value + form) (value.natAbs + bound) where
  constant := Scalar.isWhole_ofInt value
  integral := totals.integral
  formal := by rw [Sum.formal, Scalar.whole_ofInt, totals.formal]
  small := by
    rw [weight, Scalar.whole_ofInt]
    exact Nat.add_le_add_left totals.small _

/-- The constant and the terms of a sum that stands for a formal polynomial. -/
theorem Counts.parts (counts : sum.Counts form bound) : ∃ value rest restBound,
    sum.constant = .ofInt value ∧ Totals sum.terms rest restBound ∧ form = C value + rest ∧
      value.natAbs + restBound ≤ bound := by
  obtain ⟨⟨value, isConstant⟩, integral, rfl, small⟩ := counts
  rw [weight, isConstant, Scalar.whole_ofInt] at small
  refine ⟨value, termsFormal sum.terms, termsWeight sum.terms, isConstant,
    ⟨integral, rfl, Nat.le_refl _⟩, ?_, small⟩
  rw [Sum.formal, isConstant, Scalar.whole_ofInt]

/-- A scalar is a constant. -/
theorem counts_ofScalar (value : Int) : (ofScalar (.ofInt value)).Counts (C value) value.natAbs := by
  have counts := counts_mk value totals_nil
  rwa [AddMonoid.add_zero, Nat.add_zero] at counts

/-- A power of a symbol is the power of its variable. -/
theorem counts_ofAtom {atom : Atom} (spelling : atom.IsSpelling) {exponent : Nat} (positive : 0 < exponent) :
    (ofAtom atom exponent).Counts (X atom.var ^ exponent) 1 := by
  have isNatural : Powers.Natural [(atom, (exponent : Rat))] :=
    List.forall_mem_singleton.2 ⟨spelling, exponent, positive, rfl⟩
  have counts := counts_mk 0 (totals_cons isNatural one_ne_zero totals_nil)
  have exponents : Powers.exponents [(atom, (exponent : Rat))] = Finsupp.single atom.var exponent := by
    rw [Powers.exponents, List.map_singleton, List.sum_singleton, natural_natCast]
  rw [map_zero, AddMonoid.zero_add, AddMonoid.zero_add, exponents, ← X_pow_eq_monomial] at counts
  rw [ofAtom, if_neg (Nat.cast_ne_zero.2 positive.ne')]
  exact counts

/-- All terms of a sum add up to what it stands for. -/
theorem Counts.allTerms (counts : sum.Counts form bound) : Totals sum.allTerms form bound := by
  obtain ⟨value, rest, restBound, isConstant, totals, rfl, small⟩ := counts.parts
  unfold Sum.allTerms
  rw [isConstant]
  split
  · rename_i zero
    rw [Scalar.isExactZero_ofInt.1 zero, map_zero, AddMonoid.zero_add]
    exact totals.mono (by omega)
  · rename_i notZero
    have empty : Powers.Natural [] := nofun
    have joined := totals_cons empty (mt Scalar.isExactZero_ofInt.2 notZero) totals
    rw [add_comm]
    exact joined.mono (by omega)

/-- Bounds of sums are added. -/
theorem Counts.add (counts : first.Counts form bound) (counts' : second.Counts form' bound') :
    (first.add second).Counts (form + form') (bound + bound') := by
  obtain ⟨value, rest, restBound, isConstant, totals, rfl, small⟩ := counts.parts
  obtain ⟨value', rest', restBound', isConstant', totals', rfl, small'⟩ := counts'.parts
  have grown := Int.natAbs_add_le value value'
  rw [Sum.add, isConstant, isConstant', Scalar.ofInt_add, Scalar.cleared_ofInt, add_add_add_comm, ← map_add]
  exact (counts_mk _ (totals.foldl_insertTerm totals')).mono (by omega)

/-- One more product of atoms adds its monomial. -/
theorem Counts.addProduct (counts : sum.Counts form bound) (isNatural : powers.Natural) (value : Int) :
    (sum.addProduct powers (.ofInt value)).Counts (form + monomial powers.exponents value)
      (bound + value.natAbs) := by
  obtain ⟨constant, rest, restBound, isConstant, totals, rfl, small⟩ := counts.parts
  unfold Sum.addProduct
  split
  · have grown := Int.natAbs_add_le constant value
    have joined : C constant + rest + monomial (Powers.exponents []) value = C (constant + value) + rest := by
      rw [map_add, add_right_comm]
      rfl
    rw [isConstant, Scalar.ofInt_add, joined]
    exact (counts_mk _ totals).mono (by omega)
  · rw [isConstant, add_assoc]
    exact (counts_mk _ (totals.insertTerm isNatural value)).mono (by omega)

/-- Every term is multiplied by the scalar. -/
theorem totals_scaled (totals : Totals terms form bound) {value : Int} (nonzero : value ≠ 0) :
    Totals (terms.map fun term => (term.1, (Scalar.ofInt value).mul term.2)) (C value * form)
      (value.natAbs * bound) := by
  induction terms generalizing form bound with
  | nil =>
      rw [← totals.formal]
      exact (mul_zero (C value : MvPolynomial Int Int)).symm ▸ totals_nil.mono (Nat.zero_le _)
  | cons head rest hypothesis =>
      obtain ⟨powers, coefficient, restForm, restBound, rfl, isNatural, coefficientNonzero, restTotals,
        rfl, small⟩ := totals.of_cons
      have joined := totals_cons isNatural (Int.mul_ne_zero nonzero coefficientNonzero) (hypothesis restTotals)
      rw [List.map_cons, Scalar.ofInt_mul, mul_add, C_mul_monomial]
      refine joined.mono ?_
      rw [Int.natAbs_mul, ← Nat.mul_add]
      exact Nat.mul_le_mul_left _ small

/-- Scaling multiplies form and bound. -/
theorem Counts.scale (counts : sum.Counts form bound) (value : Int) :
    (sum.scale (.ofInt value)).Counts (C value * form) (value.natAbs * bound) := by
  obtain ⟨constant, rest, restBound, isConstant, totals, rfl, small⟩ := counts.parts
  unfold Sum.scale
  rw [isConstant]
  split
  · rename_i zero
    obtain rfl := Scalar.isZero_ofInt.1 zero
    have none : (Scalar.ofInt 0).mul (if sum.terms.isEmpty then Scalar.ofInt constant else .one) = .ofInt 0 := by
      split
      · rw [Scalar.ofInt_mul, Int.zero_mul]
      · exact Scalar.ofInt_mul 0 1
    rw [none, map_zero, zero_mul]
    have counts := counts_ofScalar 0
    rw [map_zero] at counts
    exact counts.mono (Nat.zero_le _)
  · rename_i notZero
    rw [Scalar.ofInt_mul, mul_add, ← map_mul]
    refine (counts_mk _ (totals_scaled totals (mt Scalar.isZero_ofInt.2 notZero))).mono ?_
    rw [Int.natAbs_mul, ← Nat.mul_add]
    exact Nat.mul_le_mul_left _ small

/-- Without terms only the constant is left. -/
theorem Counts.of_isEmpty (counts : sum.Counts form bound) (empty : sum.terms.isEmpty = true) :
    ∃ value, sum.constant = .ofInt value ∧ form = C value ∧ value.natAbs ≤ bound := by
  obtain ⟨value, rest, restBound, isConstant, totals, rfl, small⟩ := counts.parts
  rw [List.isEmpty_iff.1 empty] at totals
  obtain rfl : 0 = rest := totals.formal
  exact ⟨value, isConstant, AddMonoid.add_zero _, by omega⟩

/-- All products of terms are added one by one. -/
theorem Counts.foldl_addProduct {pairs : List ((Powers × Scalar) × (Powers × Scalar))}
    (counts : sum.Counts form bound)
    (each : ∀ pair ∈ pairs,
      (pair.1.1.Natural ∧ pair.1.2.IsWhole) ∧ pair.2.1.Natural ∧ pair.2.2.IsWhole) :
    (pairs.foldl (fun sum pair =>
        sum.addProduct (Powers.mul pair.1.1 pair.2.1) (pair.1.2.mul pair.2.2)) sum).Counts
      (form + (pairs.map fun pair => termFormal pair.1 * termFormal pair.2).sum)
      (bound + (pairs.map fun pair => pair.1.2.whole.natAbs * pair.2.2.whole.natAbs).sum) := by
  induction pairs generalizing sum form bound with
  | nil =>
      rw [List.map_nil, List.map_nil, List.sum_nil, List.sum_nil, AddMonoid.add_zero, Nat.add_zero]
      exact counts
  | cons head rest hypothesis =>
      obtain ⟨⟨powers, scalar⟩, powers', scalar'⟩ := head
      obtain ⟨⟨⟨isNatural, value, rfl⟩, isNatural', value', rfl⟩, eachRest⟩ :=
        List.forall_mem_cons.1 each
      obtain ⟨multiplied, exponents⟩ := isNatural.mul isNatural'
      have next := hypothesis (counts.addProduct multiplied (value * value')) eachRest
      rw [exponents, ← monomial_mul, ← termFormal_ofInt, ← termFormal_ofInt, add_assoc, Int.natAbs_mul,
        Nat.add_assoc] at next
      rw [List.foldl_cons, List.map_cons, List.map_cons, List.sum_cons, List.sum_cons, Scalar.whole_ofInt,
        Scalar.whole_ofInt, Scalar.ofInt_mul]
      exact next

theorem Counts.cleared (counts : sum.Counts form bound) :
    Counts { sum with constant := cleared sum.constant } form bound := by
  obtain ⟨value, rest, restBound, isConstant, totals, rfl, small⟩ := counts.parts
  rw [isConstant, Scalar.cleared_ofInt]
  exact (counts_mk value totals).mono small

/-- Bounds of products are multiplied. -/
theorem Counts.mul (counts : first.Counts form bound) (counts' : second.Counts form' bound') :
    (first.mul second).Counts (form * form') (bound * bound') := by
  unfold Sum.mul
  split
  · rename_i empty
    obtain ⟨value, isConstant, rfl, small⟩ := counts.of_isEmpty empty
    rw [isConstant]
    exact (counts'.scale value).mono (Nat.mul_le_mul_right _ small)
  · split
    · rename_i empty
      obtain ⟨value, isConstant, rfl, small⟩ := counts'.of_isEmpty empty
      rw [isConstant, mul_comm, Nat.mul_comm]
      exact (counts.scale value).mono (Nat.mul_le_mul_right _ small)
    · have totals := counts.allTerms
      have totals' := counts'.allTerms
      have each (pair : (Powers × Scalar) × (Powers × Scalar)) (member : pair ∈
          first.allTerms.flatMap fun left => second.allTerms.map fun right => (left, right)) :
          (pair.1.1.Natural ∧ pair.1.2.IsWhole) ∧ pair.2.1.Natural ∧ pair.2.2.IsWhole := by
        obtain ⟨left, isLeft, inMap⟩ := List.mem_flatMap.1 member
        obtain ⟨right, isRight, rfl⟩ := List.mem_map.1 inMap
        obtain ⟨isNatural, value, -, isInteger⟩ := totals.integral left isLeft
        obtain ⟨isNatural', value', -, isInteger'⟩ := totals'.integral right isRight
        exact ⟨⟨isNatural, value, isInteger⟩, isNatural', value', isInteger'⟩
      have multiplied := (counts_ofScalar 0).foldl_addProduct each
      rw [sum_map_pairs termFormal, sum_map_pairs fun term : Powers × Scalar => term.2.whole.natAbs, map_zero,
        AddMonoid.zero_add, Int.natAbs_zero, Nat.zero_add] at multiplied
      rw [← termsFormal, ← termsFormal, totals.formal, totals'.formal] at multiplied
      have product := multiplied.mono (Nat.mul_le_mul totals.small totals'.small)
      dsimp only
      split
      · exact product
      · exact product.cleared

/-- Repeated products are powers. -/
theorem Counts.product (counts : sum.Counts form bound) (exponent : Nat) :
    (sum.product exponent).Counts (form ^ exponent) (bound ^ exponent) := by
  induction exponent using Sum.product.induct with
  | case1 =>
      rw [pow_zero, Nat.pow_zero]
      exact counts_ofScalar 1
  | case2 =>
      rw [pow_one, Nat.pow_one]
      exact counts
  | case3 exponent several hypothesis =>
      rw [Sum.product, pow_succ, Nat.pow_succ]
      · exact hypothesis.mul counts
      · exact several

/-- Powers of sums are expanded without loss. -/
theorem Counts.pow (counts : sum.Counts form bound) (any : sum.terms ≠ []) (exponent : Nat) :
    (sum.pow exponent).Counts (form ^ exponent) (bound ^ exponent) := by
  rw [Sum.pow, if_neg (List.isEmpty_iff.not.2 any)]
  exact counts.product exponent

end Sum

end Symbolic

end TrigAlgebra
