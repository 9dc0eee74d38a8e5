/-
This file compares powers of polynomials with integer coefficients, which are products that start from a
rounded one, with products of integers: they have the same powers of the variables, and the same
coefficients as long as nothing has to be rounded.
-/

import TrigAlgebra.Proofs.ArithmeticFaults
import TrigAlgebra.Proofs.FloatOrder
import TrigAlgebra.Proofs.IntegerArithmetic
import TrigAlgebra.Proofs.WholePolynomials

namespace TrigAlgebra

open Binary64
open scoped Pointwise

namespace Number

variable {number : Number}

theorem add_real (first second : Float) :
    Number.add (.real first) (.real second) = .ok (.real (first + second)) :=
  mixed_of_elementary addition trivial trivial

/-- A number of a bounded kind is rounded before it is multiplied by a rounded one. -/
theorem mul_real (rounded : Float) (elementary : number.Elementary) :
    Number.mul (.real rounded) number = number.toFloat.map fun factor => .real (rounded * factor) := by
  have isReal : (Number.real rounded).Elementary := trivial
  have mixed := mixed_of_elementary multiplication isReal elementary
  have same : Number.mul (.real rounded) number = multiplication.mixed (.real rounded) number := by
    cases number <;> rfl
  rw [same, mixed]
  cases number.toFloat <;> rfl

end Number

namespace Polynomial

section Rounded

variable {monomials others items : List (Monomial Number)} {first second product polynomial : Polynomial Number}

/-- All coefficients are rounded numbers. -/
def Rounded (monomials : List (Monomial Number)) : Prop :=
  ∀ item ∈ monomials, ∃ value, item.coefficient = .real value

/-- All coefficients are of a bounded kind. -/
def Bounded (monomials : List (Monomial Number)) : Prop :=
  ∀ item ∈ monomials, item.coefficient.Elementary

/-- Rounded monomials are absorbed without a fault. -/
theorem absorb_rounded {sum : List (Monomial Number)} (rounded : Rounded sum) {item : Monomial Number}
    (isRounded : ∃ value, item.coefficient = .real value) :
    ∃ merged, absorb sum item = .ok merged ∧ Rounded merged := by
  induction sum with
  | nil => exact ⟨[item], rfl, List.forall_mem_singleton.2 isRounded⟩
  | cons head rest hypothesis =>
      obtain ⟨headRounded, restRounded⟩ := List.forall_mem_cons.1 rounded
      unfold absorb
      split
      · obtain ⟨value, isValue⟩ := headRounded
        obtain ⟨value', isValue'⟩ := isRounded
        rw [isValue, isValue']
        refine ⟨⟨.real (value + value'), head.powers⟩ :: rest, ?_, List.forall_mem_cons.2 ⟨⟨_, rfl⟩, restRounded⟩⟩
        exact map_eq_ok.2 ⟨_, Number.add_real value value', rfl⟩
      · obtain ⟨merged, returned, mergedRounded⟩ := hypothesis restRounded
        exact ⟨head :: merged, map_eq_ok.2 ⟨merged, returned, rfl⟩,
          List.forall_mem_cons.2 ⟨headRounded, mergedRounded⟩⟩

theorem foldlM_absorb_rounded {sum : List (Monomial Number)} (rounded : Rounded sum)
    (others : Rounded monomials) : ∃ merged, monomials.foldlM absorb sum = .ok merged ∧ Rounded merged := by
  induction monomials generalizing sum with
  | nil => exact ⟨sum, rfl, rounded⟩
  | cons head rest hypothesis =>
      obtain ⟨headRounded, restRounded⟩ := List.forall_mem_cons.1 others
      obtain ⟨next, absorbed, nextRounded⟩ := absorb_rounded rounded headRounded
      obtain ⟨merged, returned, mergedRounded⟩ := hypothesis nextRounded restRounded
      exact ⟨merged, by rw [List.foldlM_cons, bind_eq_ok]; exact ⟨next, absorbed, returned⟩, mergedRounded⟩

/-- Rounded monomials are merged without a fault. -/
theorem merge_rounded (rounded : Rounded monomials) :
    ∃ merged, merge monomials = .ok merged ∧ Rounded merged :=
  foldlM_absorb_rounded (List.forall_mem_nil _) rounded

/-- The product of two monomials is rounded where it returns. -/
theorem mul_rounded {left right : Monomial Number} (rounded : ∃ value, left.coefficient = .real value)
    (elementary : right.coefficient.Elementary) :
    ((∃ item, left.mul right = .ok item) ↔ ∃ factor, right.coefficient.toFloat = .ok factor) ∧
      ∀ item, left.mul right = .ok item → ∃ value, item.coefficient = .real value := by
  obtain ⟨value, isValue⟩ := rounded
  have product : left.mul right = right.coefficient.toFloat.map fun factor =>
      ⟨.real (value * factor), left.powers.mul right.powers⟩ := by
    change (Number.mul left.coefficient right.coefficient).map _ = _
    rw [isValue, Number.mul_real value elementary]
    cases right.coefficient.toFloat <;> rfl
  rw [product]
  cases right.coefficient.toFloat with
  | ok factor => exact ⟨iff_of_true ⟨_, rfl⟩ ⟨_, rfl⟩, fun item returned => by cases returned; exact ⟨_, rfl⟩⟩
  | error fault => exact ⟨iff_of_false nofun nofun, nofun⟩

/-- A rounded list and one that can be rounded have rounded products. -/
theorem products_rounded (rounded : Rounded monomials) (bounded : Bounded others)
    (returned : products monomials others = .ok items) : Rounded items := by
  intro item member
  obtain ⟨pair, isPair, multiplied⟩ := exists_of_mem_mapM returned member
  obtain ⟨left, isLeft, inMap⟩ := List.mem_flatMap.1 isPair
  obtain ⟨right, isRight, rfl⟩ := List.mem_map.1 inMap
  exact (mul_rounded (rounded left isLeft) (bounded right isRight)).2 item multiplied

theorem products_returns_iff (rounded : Rounded monomials) (bounded : Bounded others) :
    (∃ items, products monomials others = .ok items) ↔
      ∀ left ∈ monomials, ∀ right ∈ others, ∃ factor, right.coefficient.toFloat = .ok factor := by
  unfold products
  rw [mapM_returns_iff]
  constructor
  · intro each left isLeft right isRight
    rw [← (mul_rounded (rounded left isLeft) (bounded right isRight)).1]
    exact each (left, right) (List.mem_flatMap.2 ⟨left, isLeft, List.mem_map.2 ⟨right, isRight, rfl⟩⟩)
  · intro each pair isPair
    obtain ⟨left, isLeft, inMap⟩ := List.mem_flatMap.1 isPair
    obtain ⟨right, isRight, rfl⟩ := List.mem_map.1 inMap
    exact (mul_rounded (rounded left isLeft) (bounded right isRight)).1.2 (each left isLeft right isRight)

theorem rounded_of_mul (rounded : Rounded first.monomials) (bounded : Bounded second.monomials)
    (returned : first.mul second = .ok product) : Rounded product.monomials := by
  obtain ⟨items, written, merged, -⟩ := mul_eq_ok.1 returned
  obtain ⟨sum, same, sumRounded⟩ := merge_rounded (products_rounded rounded bounded written)
  cases same.symm.trans merged
  exact sumRounded

/-- A rounded polynomial can be multiplied by one whose coefficients can all be rounded. -/
theorem mul_returns_iff (rounded : Rounded first.monomials) (bounded : Bounded second.monomials) :
    (∃ product, first.mul second = .ok product) ↔
      ∀ left ∈ first.monomials, ∀ right ∈ second.monomials,
        ∃ factor, right.coefficient.toFloat = .ok factor := by
  rw [← products_returns_iff rounded bounded]
  constructor
  · rintro ⟨product, returned⟩
    obtain ⟨items, written, -⟩ := mul_eq_ok.1 returned
    exact ⟨items, written⟩
  · rintro ⟨items, written⟩
    obtain ⟨sum, merged, -⟩ := merge_rounded (products_rounded rounded bounded written)
    exact ⟨⟨sum, isUnivariate sum⟩, mul_eq_ok.2 ⟨items, written, merged, rfl⟩⟩

theorem support_mul (returned : first.mul second = .ok product) :
    product.support = first.support * second.support := by
  obtain ⟨items, written, merged, -⟩ := mul_eq_ok.1 returned
  ext powers
  rw [mem_support, mem_powersOf_merge merged, mem_powersOf_products written, Finset.mem_mul]
  simp only [mem_support]
  rfl

end Rounded

/-- A polynomial is multiplied so many times by another one. -/
def timesPower (start polynomial : Polynomial Number) : Nat → Except Fault (Polynomial Number)
  | 0 => .ok start
  | exponent + 1 => do (← timesPower start polynomial exponent).mul polynomial

/-- The product of so many polynomials that are all the same, one of them after the other. -/
def selfProduct (polynomial : Polynomial Number) (exponent : Nat) : Except Fault (Polynomial Number) :=
  timesPower (constant (.integer 1)) polynomial exponent

section Powers

variable {start polynomial result : Polynomial Number} {exponent : Nat}

theorem pow_eq_timesPower (polynomial : Polynomial Number) (exponent : Nat) :
    polynomial.pow exponent = timesPower (constant Coefficient.one) polynomial exponent := by
  induction exponent with
  | zero => rfl
  | succ exponent hypothesis => rw [pow, timesPower, hypothesis]

theorem support_timesPower (returned : timesPower start polynomial exponent = .ok result) :
    result.support = start.support * polynomial.support ^ exponent := by
  induction exponent generalizing result with
  | zero =>
      cases returned
      rw [pow_zero, mul_one]
  | succ exponent hypothesis =>
      obtain ⟨power, earlier, multiplied⟩ := bind_eq_ok.1 returned
      rw [support_mul multiplied, hypothesis earlier, pow_succ, mul_assoc]

theorem distinct_timesPower (distinct : start.Distinct)
    (returned : timesPower start polynomial exponent = .ok result) : result.Distinct := by
  cases exponent with
  | zero =>
      cases returned
      exact distinct
  | succ exponent =>
      obtain ⟨power, -, multiplied⟩ := bind_eq_ok.1 returned
      obtain ⟨items, -, merged, -⟩ := mul_eq_ok.1 multiplied
      exact nodup_merge merged

theorem distinct_constant (value : Number) : (constant value).Distinct :=
  List.nodup_singleton _

theorem support_constant (value : Number) : (constant value).support = 1 := by
  ext powers
  rw [mem_support, Finset.mem_one]
  exact List.mem_singleton

theorem support_pow (returned : polynomial.pow exponent = .ok result) :
    result.support = polynomial.support ^ exponent := by
  rw [pow_eq_timesPower] at returned
  rw [support_timesPower returned, support_constant, one_mul]

theorem support_selfProduct (returned : polynomial.selfProduct exponent = .ok result) :
    result.support = polynomial.support ^ exponent := by
  rw [support_timesPower returned, support_constant, one_mul]

theorem rounded_pow (bounded : Bounded polynomial.monomials)
    (returned : polynomial.pow exponent = .ok result) : Rounded result.monomials := by
  induction exponent generalizing result with
  | zero =>
      cases returned
      exact List.forall_mem_singleton.2 ⟨1.0, rfl⟩
  | succ exponent hypothesis =>
      obtain ⟨power, earlier, multiplied⟩ := bind_eq_ok.1 returned
      exact rounded_of_mul (hypothesis earlier) bounded multiplied

/-- A power of a polynomial has a monomial if the polynomial has one. -/
theorem exists_mem_of_pow (nonempty : polynomial.support.Nonempty)
    (returned : polynomial.pow exponent = .ok result) : ∃ item, item ∈ result.monomials := by
  have some : result.support.Nonempty := by
    rw [support_pow returned]
    exact nonempty.pow
  obtain ⟨powers, member⟩ := some
  obtain ⟨item, isItem, -⟩ := List.mem_map.1 (mem_support.1 member)
  exact ⟨item, isItem⟩

/-- A power returns when it is the zeroth one, or else when all coefficients can be rounded. -/
theorem pow_returns_iff (bounded : Bounded polynomial.monomials) :
    (∃ power, polynomial.pow exponent = .ok power) ↔
      exponent = 0 ∨ ∀ item ∈ polynomial.monomials, ∃ factor, item.coefficient.toFloat = .ok factor := by
  induction exponent with
  | zero => exact iff_of_true ⟨_, rfl⟩ (.inl rfl)
  | succ exponent hypothesis =>
      rw [or_iff_right (Nat.succ_ne_zero exponent)]
      constructor
      · rintro ⟨product, returned⟩ item member
        obtain ⟨power, earlier, multiplied⟩ := bind_eq_ok.1 returned
        have nonempty : polynomial.support.Nonempty := ⟨_, mem_support.2 (List.mem_map_of_mem member)⟩
        obtain ⟨left, isLeft⟩ := exists_mem_of_pow nonempty earlier
        exact (mul_returns_iff (rounded_pow bounded earlier) bounded).1 ⟨product, multiplied⟩ left isLeft
          item member
      · intro each
        obtain ⟨power, earlier⟩ := hypothesis.2 (.inr each)
        obtain ⟨product, multiplied⟩ :=
          (mul_returns_iff (rounded_pow bounded earlier) bounded).2 fun _ _ => each
        exact ⟨product, bind_eq_ok.2 ⟨power, earlier, multiplied⟩⟩

theorem Integral.bounded (integral : polynomial.Integral) : Bounded polynomial.monomials := by
  intro item member
  obtain ⟨value, isInteger⟩ := integral.integers item member
  rw [isInteger]
  trivial

/-- Repeated products of a polynomial with integer coefficients stand for its formal powers. -/
theorem represents_selfProduct (integral : polynomial.Integral) (exponent : Nat) :
    Represents (polynomial.selfProduct exponent) (polynomial.formal ^ exponent)
      (polynomial.support ^ exponent) := by
  induction exponent with
  | zero =>
      have one : (constant (.integer 1)).formal = 1 := formal_constant 1
      rw [pow_zero, pow_zero, ← one, ← support_constant (.integer 1)]
      exact (integral_constant 1).represents
  | succ exponent hypothesis =>
      rw [pow_succ, pow_succ]
      exact hypothesis.mul integral.represents

end Powers

section Exact

open MvPolynomial

variable {first second start polynomial : Polynomial Number} {form form' : MvPolynomial Int Int}
  {bound bound' exponent : Nat}

theorem pow_small {lower upper : Nat} (order : lower ≤ upper) (small : bound ^ upper ≤ 2 ^ 53) :
    bound ^ lower ≤ 2 ^ 53 := by
  rcases Nat.eq_zero_or_pos bound with rfl | positive
  · exact (pow_le_one₀ (Nat.le_refl 0) (Nat.zero_le 1)).trans Nat.one_le_two_pow
  · exact (Nat.pow_le_pow_right positive order).trans small

/-- Repeated products are not rounded as long as the sizes of all coefficients stay small. -/
theorem Counts.timesPower (counts : Counts start.monomials 1 1) (counts' : Counts polynomial.monomials form bound)
    (small : bound ^ exponent ≤ 2 ^ 53) : ∃ power, timesPower start polynomial exponent = .ok power ∧
      Counts power.monomials (form ^ exponent) (bound ^ exponent) := by
  induction exponent with
  | zero =>
      refine ⟨start, rfl, ?_⟩
      rw [pow_zero, pow_zero]
      exact counts
  | succ exponent hypothesis =>
      have smaller := pow_small (Nat.le_succ exponent) small
      have single := pow_small (Nat.le_add_left 1 exponent) small
      rw [pow_one] at single
      obtain ⟨power, earlier, countsPower⟩ := hypothesis smaller
      obtain ⟨product, multiplied, countsProduct⟩ := countsPower.mul counts' smaller single small
      refine ⟨product, bind_eq_ok.2 ⟨power, earlier, multiplied⟩, ?_⟩
      rw [pow_succ, pow_succ]
      exact countsProduct

/-- Polynomials that stand for one formal polynomial and have the same powers are equal. -/
theorem Counts.same (counts : Counts first.monomials form bound) (counts' : Counts second.monomials form bound')
    (distinct : first.Distinct) (distinct' : second.Distinct) (small : bound ≤ 2 ^ 53)
    (small' : bound' ≤ 2 ^ 53) (support : first.support = second.support) : first.same second = true := by
  have powers {product : PowerProduct} :
      product ∈ powersOf first.monomials ↔ product ∈ powersOf second.monomials := by
    rw [← mem_support, ← mem_support, support]
  refine same_of_counterparts distinct distinct' (fun item member => ?_) fun other isOther =>
    powers.2 (List.mem_map_of_mem isOther)
  obtain ⟨other, isOther, same⟩ := List.mem_map.1 (powers.1 (List.mem_map_of_mem member))
  have value : coeff item.powers.exponents form = item.coefficient.whole := by
    rw [← counts.formal]
    exact Reading.coeff_formal_of_mem distinct member
  have value' : coeff other.powers.exponents form = other.coefficient.whole := by
    rw [← counts'.formal]
    exact Reading.coeff_formal_of_mem distinct' isOther
  obtain ⟨plain, known⟩ := (counts.whole item member).plain ((counts.member_le member).trans small)
  obtain ⟨plain', known'⟩ := (counts'.whole other isOther).plain ((counts'.member_le isOther).trans small')
  rw [← value', same, value] at known'
  exact ⟨other, isOther, same, Number.same_of_value plain plain' known known'⟩

theorem Integral.counts (integral : polynomial.Integral) :
    Counts polynomial.monomials (Reading.wholes.formal polynomial.monomials) (magnitude polynomial.monomials) where
  whole item member := by
    obtain ⟨value, isInteger⟩ := integral.integers item member
    rw [isInteger]
    trivial
  formal := rfl
  small := Nat.le_refl _

theorem counts_integer_one : Counts (constant (.integer 1)).monomials 1 1 :=
  counts_constant 1

end Exact

/-- Powers of a polynomial with integer coefficients that are small enough are products of integers, and
can be split. -/
theorem agree_pow {polynomial : Polynomial Number} (integral : polynomial.Integral) {exponent : Nat}
    (small : magnitude polynomial.monomials ^ exponent ≤ 2 ^ 53) :
    Agree (polynomial.pow exponent) (polynomial.selfProduct exponent) := by
  obtain ⟨power, returned, counts⟩ := counts_one.timesPower integral.counts small
  obtain ⟨product, returned', counts'⟩ := counts_integer_one.timesPower integral.counts small
  have distinct := distinct_timesPower (distinct_constant _) returned
  have distinct' := distinct_timesPower (distinct_constant _) returned'
  rw [← pow_eq_timesPower] at returned
  refine ⟨power, product, returned, returned', counts.same counts' distinct distinct' small small ?_⟩
  rw [support_pow returned, support_selfProduct returned']

theorem agree_pow_add {polynomial : Polynomial Number} (integral : polynomial.Integral) {first second : Nat}
    (small : magnitude polynomial.monomials ^ (first + second) ≤ 2 ^ 53) :
    Agree (polynomial.pow (first + second)) (do (← polynomial.pow first).mul (← polynomial.pow second)) := by
  have smallFirst := pow_small (Nat.le_add_right first second) small
  have smallSecond := pow_small (Nat.le_add_left second first) small
  obtain ⟨power, returned, counts⟩ := counts_one.timesPower integral.counts small
  obtain ⟨left, returnedLeft, countsLeft⟩ := counts_one.timesPower integral.counts smallFirst
  obtain ⟨right, returnedRight, countsRight⟩ := counts_one.timesPower integral.counts smallSecond
  rw [pow_add] at small
  obtain ⟨product, multiplied, countsProduct⟩ := countsLeft.mul countsRight smallFirst smallSecond small
  rw [pow_add, pow_add] at counts
  have distinct := distinct_timesPower (distinct_constant _) returned
  obtain ⟨items, -, merged, -⟩ := mul_eq_ok.1 multiplied
  rw [← pow_eq_timesPower] at returned returnedLeft returnedRight
  refine ⟨power, product, returned, ?_, counts.same countsProduct distinct (nodup_merge merged) small small ?_⟩
  · exact bind_eq_ok.2 ⟨left, returnedLeft, bind_eq_ok.2 ⟨right, returnedRight, multiplied⟩⟩
  · rw [support_pow returned, support_mul multiplied, support_pow returnedLeft, support_pow returnedRight, pow_add]

section First

variable {polynomial : Polynomial Number}

/-- The monomial with its coefficient rounded. -/
def roundedMonomial (item : Monomial Number) : Monomial Number :=
  ⟨.real (ofInt item.coefficient.whole), item.powers⟩

theorem isFinite_of_toFloat {value : Int} {rounded : Float}
    (returned : (Number.integer value).toFloat = .ok rounded) : (ofInt value).isFinite = true :=
  (Number.floatOfInt_eq_ok.1 returned).1

/-- Rounding coefficients changes no product. -/
theorem distinct_rounded (distinct : polynomial.Distinct) (flag : Bool) :
    Distinct ⟨polynomial.monomials.map roundedMonomial, flag⟩ := by
  change (powersOf (polynomial.monomials.map roundedMonomial)).Nodup
  rw [powersOf, List.map_map]
  exact distinct

/-- The first power of an integer polynomial has rounded coefficients. -/
theorem pow_one_eq (integral : polynomial.Integral)
    (finite : ∀ item ∈ polynomial.monomials, (ofInt item.coefficient.whole).isFinite = true) :
    polynomial.pow 1 = .ok ⟨polynomial.monomials.map roundedMonomial,
      isUnivariate (polynomial.monomials.map roundedMonomial)⟩ := by
  have multiplied (item : Monomial Number) (member : item ∈ polynomial.monomials) :
      (Monomial.constant (.real 1.0)).mul item = .ok (roundedMonomial item) := by
    obtain ⟨value, isInteger⟩ := integral.integers item member
    have bounded := finite item member
    rw [isInteger] at bounded
    have converted : (Number.integer value).toFloat = .ok (ofInt value) := if_pos bounded
    have elementary : (Number.integer value).Elementary := trivial
    change (Number.mul (.real 1.0) item.coefficient).map _ = _
    rw [roundedMonomial, isInteger, Number.mul_real 1.0 elementary, converted]
    change Except.ok (Monomial.mk (Number.real (1.0 * ofInt value)) (1 * item.powers)) = _
    rw [one_mul_eq, one_mul]
    rfl
  have written : products [Monomial.constant (.real 1.0)] polynomial.monomials =
      .ok (polynomial.monomials.map roundedMonomial) := by
    rw [products, List.flatMap_singleton, List.mapM_map, mapM_eq_ok, List.forall₂_map_right_iff,
      List.forall₂_same]
    exact multiplied
  change (constant (.real 1.0)).mul polynomial = _
  rw [mul_eq_bind]
  change products [Monomial.constant (.real 1.0)] polynomial.monomials >>= ofMonomials = _
  rw [written]
  exact ofMonomials_of_nodup (distinct_rounded integral.distinct true)

/-- A rounded number equals the integer that it stands for. -/
theorem same_real_integer {rounded : Float} {value : Int} (finite : rounded.isFinite = true) :
    Coefficient.same (Number.real rounded) (Number.integer value) = true ↔ exactValue rounded = some (value : Rat) := by
  obtain ⟨number, known⟩ := isFinite_iff.1 finite
  have imaginary : (BigFloat.ofInt 0).same (BigFloat.ofInt 0) = true := rfl
  change ((BigFloat.ofFloat rounded).same (BigFloat.ofInt value) &&
    (BigFloat.ofInt 0).same (BigFloat.ofInt 0)) = true ↔ _
  rw [imaginary, Bool.and_true, BigFloat.same_iff known (BigFloat.exactValue_ofInt value), known, Option.some_inj]

/-- Rounding keeps a polynomial equal just when no coefficient is rounded. -/
theorem same_rounded_iff (integral : polynomial.Integral) (flag : Bool)
    (finite : ∀ item ∈ polynomial.monomials, (ofInt item.coefficient.whole).isFinite = true) :
    same ⟨polynomial.monomials.map roundedMonomial, flag⟩ polynomial = true ↔
      ∀ item ∈ polynomial.monomials, IsExact item.coefficient.whole := by
  have distinct := distinct_rounded integral.distinct flag
  have equal (item : Monomial Number) (member : item ∈ polynomial.monomials) :
      Coefficient.same (roundedMonomial item).coefficient item.coefficient = true ↔
        IsExact item.coefficient.whole := by
    have bounded := finite item member
    obtain ⟨value, isInteger⟩ := integral.integers item member
    rw [isInteger] at bounded
    rw [roundedMonomial, isInteger]
    exact same_real_integer bounded
  constructor
  · intro same item member
    rw [Polynomial.same, Bool.and_eq_true, covers, List.all_eq_true] at same
    have covered := same.1 (roundedMonomial item) (List.mem_map_of_mem member)
    have found := coefficient?_of_mem distinct (List.mem_map_of_mem member)
    rw [found, show (roundedMonomial item).powers = item.powers from rfl,
      coefficient?_of_mem integral.distinct member] at covered
    exact (equal item member).1 covered
  · intro exact
    refine same_of_counterparts distinct integral.distinct (fun rounded isRounded => ?_) fun item member => ?_
    · obtain ⟨item, member, rfl⟩ := List.mem_map.1 isRounded
      exact ⟨item, member, rfl, (equal item member).2 (exact item member)⟩
    · exact List.mem_map.2 ⟨roundedMonomial item, List.mem_map_of_mem member, rfl⟩

/-- The first power is the polynomial itself just when none of its coefficients is rounded. -/
theorem agree_pow_one_iff (integral : polynomial.Integral) :
    Agree (polynomial.pow 1) (.ok polynomial) ↔
      ∀ item ∈ polynomial.monomials, IsExact item.coefficient.whole := by
  constructor
  · rintro ⟨power, other, returned, isOther, same⟩
    cases isOther
    have finite : ∀ item ∈ polynomial.monomials, (ofInt item.coefficient.whole).isFinite = true := by
      intro item member
      have all := ((pow_returns_iff integral.bounded).1 ⟨power, returned⟩).resolve_left Nat.one_ne_zero
      obtain ⟨factor, converted⟩ := all item member
      obtain ⟨value, isInteger⟩ := integral.integers item member
      rw [isInteger] at converted ⊢
      exact isFinite_of_toFloat converted
    cases (pow_one_eq integral finite).symm.trans returned
    exact (same_rounded_iff integral _ finite).1 same
  · intro exact
    have finite : ∀ item ∈ polynomial.monomials, (ofInt item.coefficient.whole).isFinite = true :=
      fun item member => isFinite_iff.2 ⟨_, exact item member⟩
    exact ⟨_, polynomial, pow_one_eq integral finite, rfl, (same_rounded_iff integral _ finite).2 exact⟩

end First

/-- A power of a polynomial with integer coefficients returns unless one of them is too large for a rounded
number. It has the powers of the variables that the product of integers has, and is equal to it as long as
the sizes of the coefficients are small enough; then powers can be split. The first power is equal to the
polynomial just when no coefficient is rounded. -/
theorem integer_powers (polynomial : Polynomial Number) (integral : polynomial.Integral) :
    (∀ exponent, (∃ power, polynomial.pow exponent = .ok power) ↔
      exponent = 0 ∨ ∀ item ∈ polynomial.monomials, ∃ factor, item.coefficient.toFloat = .ok factor) ∧
    (∀ exponent power, polynomial.pow exponent = .ok power →
      ∃ product, polynomial.selfProduct exponent = .ok product ∧ power.support = product.support) ∧
    (∀ exponent, magnitude polynomial.monomials ^ exponent ≤ 2 ^ 53 →
      Agree (polynomial.pow exponent) (polynomial.selfProduct exponent)) ∧
    (∀ first second, magnitude polynomial.monomials ^ (first + second) ≤ 2 ^ 53 →
      Agree (polynomial.pow (first + second)) (do (← polynomial.pow first).mul (← polynomial.pow second))) ∧
    (Agree (polynomial.pow 1) (.ok polynomial) ↔
      ∀ item ∈ polynomial.monomials, IsExact item.coefficient.whole) := by
  refine ⟨fun exponent => pow_returns_iff integral.bounded, fun exponent power returned => ?_,
    fun exponent => agree_pow integral, fun first second => agree_pow_add integral,
    agree_pow_one_iff integral⟩
  obtain ⟨product, returned', -, -, support⟩ := represents_selfProduct integral exponent
  exact ⟨product, returned', by rw [support_pow returned, support]⟩

/-- The least positive integer that is rounded, times a variable. -/
def roundedLine : Polynomial Number :=
  ⟨[⟨.integer (2 ^ 53 + 1), .ofFactor (.linear 2)⟩], true⟩

theorem integer_powers_roundedLine :
    (∃ power, roundedLine.pow 1 = .ok power) ∧ ¬ Agree (roundedLine.pow 1) (.ok roundedLine) := by
  have integral : roundedLine.Integral :=
    ⟨List.forall_mem_singleton.2 ⟨2 ^ 53 + 1, rfl⟩, List.nodup_singleton _⟩
  obtain ⟨returns, -, -, -, first⟩ := integer_powers roundedLine integral
  have converted : (Number.integer (2 ^ 53 + 1)).toFloat = .ok (ofInt (2 ^ 53 + 1)) := by
    rw [Number.toFloat, Number.floatOfInt, if_pos (isFinite_ofInt (by decide : _ < 2 ^ 54) (by decide))]
  have decoded : decode (ofInt (2 ^ 53 + 1)) = .finite false (2 ^ 52) 1 := rfl
  refine ⟨(returns 1).2 (.inr (List.forall_mem_singleton.2 ⟨_, converted⟩)), fun agrees => ?_⟩
  have exact := first.1 agrees
  rw [roundedLine, List.forall_mem_singleton, Number.whole, IsExact, exactValue_of_decode decoded,
    Option.some_inj, BigFloat.signedNat] at exact
  norm_num at exact

end Polynomial

end TrigAlgebra
