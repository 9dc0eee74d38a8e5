/-
This file proves that multiplying out symbolic products of powers of sums, with integers and symbols
at the bottom, computes the formal polynomials they stand for.
-/

import TrigAlgebra.Proofs.SymbolicIntegers

namespace TrigAlgebra.Symbolic

open MvPolynomial

namespace Scalar

/-- Integer powers are exact unless both the integer and the exponent are large. -/
theorem powInt_ofInt {value : Int} {exponent : Nat}
    (cheap : value.natAbs ≤ 1 ∨ exponent < exponentBound) :
    (ofInt value).powInt exponent = ofInt (value ^ exponent) := by
  have bounded : (!isCyclic value 0 && decide (exponentBound ≤ (exponent : Int).natAbs)) = false := by
    rcases cheap with small | few
    · have cyclic : isCyclic value 0 = true := by
        rw [isCyclic, Rat.den_intCast, Rat.num_intCast]
        exact decide_eq_true small
      rw [cyclic]
      rfl
    · have below : ¬ exponentBound ≤ (exponent : Int).natAbs := Nat.not_le.2 few
      rw [decide_eq_false below, Bool.and_false]
  unfold ofInt Scalar.powInt
  dsimp only
  rw [bounded, if_neg Bool.false_ne_true, if_pos (Int.natCast_nonneg exponent)]
  exact powNat_ofInt value exponent

end Scalar

namespace Sum

/-- A sum with integer coefficients that is more than a number. -/
structure IsBase (sum : Sum) : Prop where
  counts : sum.Counts sum.formal sum.weight
  any : sum.terms ≠ []

variable {sum : Sum} {form : MvPolynomial Int Int} {bound : Nat}

/-- What counts as a sum may be the base of a power. -/
theorem Counts.isBase (counts : sum.Counts form bound) (any : sum.terms ≠ []) : sum.IsBase :=
  ⟨⟨counts.constant, counts.integral, rfl, Nat.le_refl _⟩, any⟩

theorem IsBase.weight_pos (isBase : sum.IsBase) : 0 < sum.weight := by
  obtain ⟨head, rest, shape⟩ := List.exists_cons_of_ne_nil isBase.any
  have member : head ∈ sum.terms := shape ▸ List.mem_cons_self
  obtain ⟨-, value, nonzero, isValue⟩ := isBase.counts.integral head member
  rw [weight, termsWeight, shape, List.map_cons, List.sum_cons, isValue, Scalar.whole_ofInt]
  omega

/-- A symbol may be the base of a power. -/
theorem isBase_ofAtom {atom : Atom} (spelling : atom.IsSpelling) : (ofAtom atom 1).IsBase := by
  have counts := counts_ofAtom spelling Nat.one_pos
  rw [Nat.cast_one] at counts
  exact counts.isBase (List.cons_ne_nil _ _)

/-- A symbol stands for its variable. -/
theorem formal_ofAtom {atom : Atom} (spelling : atom.IsSpelling) : (ofAtom atom 1).formal = X atom.var := by
  have counts := counts_ofAtom spelling Nat.one_pos
  rw [Nat.cast_one, pow_one] at counts
  exact counts.formal

theorem weight_ofAtom (atom : Atom) : (ofAtom atom 1).weight = 1 := rfl

/-- What is taken for an atom is one. -/
theorem eq_ofAtom {atom : Atom} (found : Product.atom? sum = some atom) : sum = ofAtom atom 1 := by
  obtain ⟨constant, terms⟩ := sum
  unfold Product.atom? at found
  split at found
  · rename_i other exponent coefficient shape
    dsimp only at shape
    split at found
    · rename_i unit
      cases found
      rw [Bool.and_eq_true, Bool.and_eq_true] at unit
      obtain ⟨⟨zero, one⟩, one'⟩ := unit
      obtain rfl : constant = .zero := beq_iff_eq.1 zero
      obtain rfl : exponent = 1 := beq_iff_eq.1 one
      obtain rfl : coefficient = .one := beq_iff_eq.1 one'
      rw [shape]
      rfl
    · cases found
  · cases found

theorem IsBase.spelling {atom : Atom} (isBase : (ofAtom atom 1).IsBase) : atom.IsSpelling :=
  ((isBase.counts.integral _ List.mem_cons_self).1 _ List.mem_cons_self).1

/-- A power of a base is the power of what the base stands for. -/
theorem IsBase.expandPower (isBase : sum.IsBase) {exponent : Rat} (isExponent : IsExponent exponent) :
    (Product.expandPower sum exponent).Counts (sum.formal ^ natural exponent)
      (sum.weight ^ natural exponent) := by
  obtain ⟨power, positive, rfl⟩ := isExponent
  rw [natural_natCast]
  unfold Product.expandPower
  split
  · rename_i atom found
    obtain rfl := eq_ofAtom found
    have spelling := isBase.spelling
    rw [formal_ofAtom spelling, weight_ofAtom, Nat.one_pow]
    exact counts_ofAtom spelling positive
  · obtain ⟨whole, least⟩ := natCast_natural positive
    rw [if_pos ⟨whole, least.le⟩, Rat.num_natCast, Int.toNat_natCast]
    exact isBase.counts.pow isBase.any power

end Sum

namespace Product

section Values

variable {M : Type} [CommMonoid M]

/-- The product of some powers when their bases have values. -/
def powersValue (value : Sum → M) (powers : List (Sum × Rat)) : M :=
  (powers.map fun power => value power.1 ^ natural power.2).prod

variable (value : Sum → M) {powers others : List (Sum × Rat)}

theorem powersValue_cons (head : Sum × Rat) (rest : List (Sum × Rat)) :
    powersValue value (head :: rest) = value head.1 ^ natural head.2 * powersValue value rest :=
  List.prod_cons

/-- One more power multiplies the value. -/
theorem powersValue_insertPower (exponents : ∀ power ∈ powers, IsExponent power.2) (base : Sum)
    {exponent : Rat} (isExponent : IsExponent exponent) :
    powersValue value (insertPower base exponent powers) =
      powersValue value powers * value base ^ natural exponent := by
  induction powers with
  | nil =>
      rw [insertPower, powersValue_cons, mul_comm]
  | cons head rest hypothesis =>
      obtain ⟨headExponent, restExponents⟩ := List.forall_mem_cons.1 exponents
      rw [insertPower]
      split
      · rename_i same
        rw [powersValue_cons, powersValue_cons, (headExponent.add isExponent).2, pow_add, same, mul_right_comm]
      · rw [powersValue_cons, powersValue_cons, hypothesis restExponents, mul_assoc]

end Values

/-- Powers of bases with positive integers as exponents. -/
def Integral (powers : List (Sum × Rat)) : Prop :=
  ∀ power ∈ powers, power.1.IsBase ∧ IsExponent power.2

theorem Integral.exponents {powers : List (Sum × Rat)} (integral : Integral powers) :
    ∀ power ∈ powers, IsExponent power.2 :=
  fun power member => (integral power member).2

/-- A list of bases and exponents stays one when a power is inserted. -/
theorem Integral.insertPower {powers : List (Sum × Rat)} (integral : Integral powers) {base : Sum}
    {exponent : Rat} (isBase : base.IsBase) (isExponent : IsExponent exponent) :
    Integral (insertPower base exponent powers) := by
  induction powers with
  | nil => exact List.forall_mem_singleton.2 ⟨isBase, isExponent⟩
  | cons head rest hypothesis =>
      obtain ⟨⟨headBase, headExponent⟩, restIntegral⟩ := List.forall_mem_cons.1 integral
      rw [Product.insertPower]
      split
      · exact List.forall_mem_cons.2 ⟨⟨isBase, (headExponent.add isExponent).1⟩, restIntegral⟩
      · exact List.forall_mem_cons.2 ⟨⟨headBase, headExponent⟩, hypothesis restIntegral⟩

/-- A list of bases and exponents stays one when many powers are inserted. -/
theorem Integral.foldl_insertPower {powers others : List (Sum × Rat)} (integral : Integral powers)
    (integral' : Integral others) :
    Integral (others.foldl (fun powers power => Product.insertPower power.1 power.2 powers) powers) ∧
      ∀ {M : Type} [CommMonoid M] (value : Sum → M),
        powersValue value (others.foldl (fun powers power => Product.insertPower power.1 power.2 powers) powers) =
          powersValue value powers * powersValue value others := by
  induction others generalizing powers with
  | nil => exact ⟨integral, fun value => (mul_one _).symm⟩
  | cons head rest hypothesis =>
      obtain ⟨⟨isBase, isExponent⟩, restIntegral⟩ := List.forall_mem_cons.1 integral'
      obtain ⟨collected, values⟩ := hypothesis (integral.insertPower isBase isExponent) restIntegral
      refine ⟨collected, fun value => ?_⟩
      rw [List.foldl_cons, values, powersValue_insertPower value integral.exponents _ isExponent,
        powersValue_cons, mul_assoc]

/-- An integer times powers of bases that stands for a formal polynomial, with a bounded total size. -/
structure Counts (product : Product) (form : MvPolynomial Int Int) (bound : Nat) : Prop where
  coefficient : product.coefficient.IsWhole
  integral : Integral product.powers
  formal : C product.coefficient.whole * powersValue Sum.formal product.powers = form
  small : product.coefficient.whole.natAbs * powersValue Sum.weight product.powers ≤ bound

variable {form form' : MvPolynomial Int Int} {bound bound' : Nat} {product first second : Product}
  {powers : List (Sum × Rat)}

/-- A product of a scalar and powers of bases. -/
theorem counts_mk (value : Int) (integral : Integral powers) :
    Counts ⟨.ofInt value, powers⟩ (C value * powersValue Sum.formal powers)
      (value.natAbs * powersValue Sum.weight powers) where
  coefficient := Scalar.isWhole_ofInt value
  integral := integral
  formal := by rw [Scalar.whole_ofInt]
  small := by rw [Scalar.whole_ofInt]

/-- The coefficient and the powers of a product that stands for a formal polynomial. -/
theorem Counts.parts (counts : product.Counts form bound) : ∃ value, product.coefficient = .ofInt value ∧
    Integral product.powers ∧ form = C value * powersValue Sum.formal product.powers ∧
      value.natAbs * powersValue Sum.weight product.powers ≤ bound := by
  obtain ⟨⟨value, isCoefficient⟩, integral, rfl, small⟩ := counts
  rw [isCoefficient, Scalar.whole_ofInt] at small ⊢
  exact ⟨value, rfl, integral, rfl, small⟩

/-- The bound may be weakened. -/
theorem Counts.mono (counts : product.Counts form bound) (order : bound ≤ bound') :
    product.Counts form bound' :=
  ⟨counts.coefficient, counts.integral, counts.formal, counts.small.trans order⟩

/-- A scalar is a constant. -/
theorem counts_ofScalar (value : Int) : (ofScalar (.ofInt value)).Counts (C value) value.natAbs := by
  have none : Integral [] := nofun
  have counts := counts_mk value none
  rwa [powersValue, powersValue, List.map_nil, List.map_nil, List.prod_nil, List.prod_nil, mul_one,
    Nat.mul_one] at counts

/-- A base is the first power of itself. -/
theorem counts_power {sum : Sum} (isBase : sum.IsBase) : Counts ⟨.one, [(sum, 1)]⟩ sum.formal sum.weight := by
  have one : IsExponent 1 := ⟨1, Nat.one_pos, Nat.cast_one.symm⟩
  have single : Integral [(sum, 1)] := List.forall_mem_singleton.2 ⟨isBase, one⟩
  have counts := counts_mk 1 single
  have unit : natural 1 = 1 := natural_natCast 1
  rwa [powersValue, powersValue, List.map_singleton, List.map_singleton, List.prod_singleton,
    List.prod_singleton, unit, pow_one, pow_one, map_one, one_mul, Int.natAbs_one, Nat.one_mul] at counts

/-- A symbol is a variable. -/
theorem counts_ofAtom {atom : Atom} (spelling : atom.IsSpelling) : (ofAtom atom).Counts (X atom.var) 1 := by
  have counts := counts_power (Sum.isBase_ofAtom spelling)
  rwa [Sum.formal_ofAtom spelling, Sum.weight_ofAtom] at counts

/-- Bounds of products are multiplied. -/
theorem Counts.mul (counts : first.Counts form bound) (counts' : second.Counts form' bound') :
    (first.mul second).Counts (form * form') (bound * bound') := by
  obtain ⟨value, isValue, integral, rfl, small⟩ := counts.parts
  obtain ⟨value', isValue', integral', rfl, small'⟩ := counts'.parts
  obtain ⟨collected, values⟩ := integral.foldl_insertPower integral'
  have counts := counts_mk (value * value') collected
  rw [values, values, map_mul, mul_mul_mul_comm, Int.natAbs_mul, Nat.mul_mul_mul_comm] at counts
  rw [Product.mul, isValue, isValue', Scalar.ofInt_mul]
  exact counts.mono (Nat.mul_le_mul small small')

/-- Every base counts at least one. -/
theorem powersValue_weight_pos (integral : Integral powers) : 0 < powersValue Sum.weight powers := by
  unfold powersValue
  refine List.prod_pos fun weight member => ?_
  obtain ⟨power, isPower, rfl⟩ := List.mem_map.1 member
  exact Nat.pow_pos (integral power isPower).1.weight_pos

/-- Raising multiplies all exponents. -/
theorem Integral.raised (integral : Integral powers) {exponent : Nat} (positive : 0 < exponent) :
    Integral (powers.map fun power => (power.1, power.2 * ((exponent : Int) : Rat))) ∧
      ∀ {M : Type} [CommMonoid M] (value : Sum → M),
        powersValue value (powers.map fun power => (power.1, power.2 * ((exponent : Int) : Rat))) =
          powersValue value powers ^ exponent := by
  induction powers with
  | nil => exact ⟨nofun, fun value => (one_pow exponent).symm⟩
  | cons head rest hypothesis =>
      obtain ⟨base, _⟩ := head
      obtain ⟨⟨isBase, power, powerPositive, rfl⟩, restIntegral⟩ := List.forall_mem_cons.1 integral
      obtain ⟨raised, values⟩ := hypothesis restIntegral
      have multiplied : (power : Rat) * ((exponent : Int) : Rat) = ((power * exponent : Nat) : Rat) := by
        push_cast
        rfl
      rw [List.map_cons, multiplied]
      refine ⟨List.forall_mem_cons.2 ⟨⟨isBase, _, Nat.mul_pos powerPositive positive, rfl⟩, raised⟩,
        fun value => ?_⟩
      rw [powersValue_cons, powersValue_cons, values, natural_natCast, natural_natCast, pow_mul, mul_pow]

/-- A power of at least two that is at most 2 ^ 53 has a small exponent. -/
theorem exponent_lt {bound exponent : Nat} (several : 2 ≤ bound) (small : bound ^ exponent ≤ 2 ^ 53) :
    exponent < Scalar.exponentBound := by
  have few : exponent ≤ 53 :=
    (Nat.pow_le_pow_iff_right (by decide)).1 ((Nat.pow_le_pow_left several exponent).trans small)
  exact few.trans_lt (by decide)

/-- Bounds of powers are powers. -/
theorem Counts.powInt (counts : product.Counts form bound) {exponent : Nat}
    (small : bound ^ exponent ≤ 2 ^ 53) :
    (product.powInt exponent).Counts (form ^ exponent) (bound ^ exponent) := by
  obtain ⟨value, isValue, integral, rfl, total⟩ := counts.parts
  rcases Nat.eq_zero_or_pos exponent with rfl | positive
  · rw [pow_zero, Nat.pow_zero]
    exact counts_ofScalar 1
  · -- A bound of one leaves only minus one, zero and one as coefficients, and their powers repeat.
    have least := powersValue_weight_pos integral
    have cheap : value.natAbs ≤ 1 ∨ exponent < Scalar.exponentBound := by
      rcases Nat.lt_or_ge 1 bound with several | one
      · exact .inr (exponent_lt several small)
      · exact .inl ((Nat.le_mul_of_pos_right _ least).trans (total.trans one))
    obtain ⟨raised, values⟩ := integral.raised positive
    have counts := counts_mk (value ^ exponent) raised
    rw [values, values, map_pow, ← mul_pow, Int.natAbs_pow, ← Nat.mul_pow] at counts
    rw [Product.powInt, if_neg (Int.natCast_ne_zero.2 positive.ne'), isValue, Scalar.powInt_ofInt cheap]
    exact counts.mono (Nat.pow_le_pow_left total exponent)

/-- Multiplying out one power after another loses nothing. -/
theorem counts_foldl_expandPower {sum : Sum} (counts : sum.Counts form bound) (integral : Integral powers) :
    (powers.foldl (fun sum power => sum.mul (expandPower power.1 power.2)) sum).Counts
      (form * powersValue Sum.formal powers) (bound * powersValue Sum.weight powers) := by
  induction powers generalizing sum form bound with
  | nil =>
      rw [powersValue, powersValue, List.map_nil, List.map_nil, List.prod_nil, List.prod_nil, mul_one,
        Nat.mul_one]
      exact counts
  | cons head rest hypothesis =>
      obtain ⟨⟨isBase, isExponent⟩, restIntegral⟩ := List.forall_mem_cons.1 integral
      rw [List.foldl_cons, powersValue_cons, powersValue_cons, ← mul_assoc, ← Nat.mul_assoc]
      exact hypothesis (counts.mul (isBase.expandPower isExponent)) restIntegral

/-- A product is multiplied out to a sum that stands for the same formal polynomial. -/
theorem Counts.expand (counts : product.Counts form bound) : product.expand.Counts form bound := by
  obtain ⟨value, isValue, integral, rfl, small⟩ := counts.parts
  unfold Product.expand
  rw [isValue]
  split
  · rename_i zero
    obtain rfl := Scalar.isZero_ofInt.1 zero
    have counts := Sum.counts_ofScalar 0
    rw [map_zero] at counts ⊢
    rw [zero_mul]
    exact counts.mono (Nat.zero_le _)
  · have multiplied := (counts_foldl_expandPower (Sum.counts_ofScalar 1) integral).scale value
    rw [map_one, one_mul, Int.natAbs_one, Nat.one_mul] at multiplied
    exact multiplied.mono small

/-- The powers of atoms in a term have the exponents of the term. -/
theorem powersValue_formal_atoms {powers : Powers} (isNatural : powers.Natural) :
    powersValue Sum.formal (powers.map fun power => (Sum.ofAtom power.1 1, power.2)) =
      monomial powers.exponents 1 := by
  induction powers with
  | nil => rfl
  | cons head rest hypothesis =>
      obtain ⟨⟨spelling, -⟩, restNatural⟩ := List.forall_mem_cons.1 isNatural
      rw [List.map_cons, powersValue_cons, hypothesis restNatural, Sum.formal_ofAtom spelling,
        X_pow_eq_monomial, monomial_mul, Powers.exponents_cons, mul_one]

theorem powersValue_weight_atoms (powers : Powers) :
    powersValue Sum.weight (powers.map fun power => (Sum.ofAtom power.1 1, power.2)) = 1 := by
  induction powers with
  | nil => rfl
  | cons head rest hypothesis =>
      rw [List.map_cons, powersValue_cons, hypothesis, Sum.weight_ofAtom, Nat.one_pow, Nat.one_mul]

/-- A sum falls into a coefficient and powers that stand for the same formal polynomial. -/
theorem counts_ofSum {sum : Sum} (counts : sum.Counts form bound) : (ofSum sum).Counts form bound := by
  have totals := counts.allTerms
  unfold ofSum
  split
  · rename_i shape
    rw [shape] at totals
    obtain rfl : 0 = form := totals.formal
    have zero := counts_ofScalar 0
    rw [map_zero] at zero
    exact zero.mono (Nat.zero_le _)
  · rename_i powers coefficient shape
    rw [shape] at totals
    obtain ⟨_, value, rest, restBound, same, isNatural, -, restTotals, rfl, small⟩ := totals.of_cons
    cases same
    obtain rfl : 0 = rest := restTotals.formal
    have atoms : Integral (powers.map fun power => (Sum.ofAtom power.1 1, power.2)) := by
      intro power member
      obtain ⟨atom, isAtom, rfl⟩ := List.mem_map.1 member
      exact ⟨Sum.isBase_ofAtom (isNatural atom isAtom).1, (isNatural atom isAtom).2⟩
    have counts := counts_mk value atoms
    rw [powersValue_formal_atoms isNatural, powersValue_weight_atoms, C_mul_monomial, mul_one,
      Nat.mul_one] at counts
    rw [zero_add]
    exact counts.mono (by omega)
  · rename_i notNone notOne
    have any : sum.terms ≠ [] := by
      intro none
      unfold Sum.allTerms at notNone notOne
      rw [none] at notNone notOne
      split at notNone
      · exact notNone rfl
      · exact notOne _ _ (by rw [if_neg (by assumption)])
    have base := counts.isBase any
    rw [← counts.formal]
    exact (counts_power base).mono counts.small

end Product

end TrigAlgebra.Symbolic
