/-
This file follows polynomials whose coefficients are integers, kept as such or as rounded numbers. As
long as the sizes of the coefficients add up to at most 2 ^ 53, sums, products and powers are those of
the formal polynomials, with nothing rounded.
-/

import TrigAlgebra.Proofs.ExactArithmetic
import TrigAlgebra.Proofs.IntegerGrowth
import TrigAlgebra.Proofs.RoundTrip

namespace TrigAlgebra

namespace Number

open Binary64

/-- The integer that a number equals, if it equals one. -/
def whole : Number → Int
  | .integer value => value
  | .real value => (Binary64.integer? value).getD 0
  | _ => 0

variable {number first second : Number} {value : Int}

theorem whole_real {rounded : Float} (known : exactValue rounded = some (value : Rat)) :
    (Number.real rounded).whole = value := by
  rw [whole, integer?_eq_some.2 known]
  rfl

theorem isWhole_real {rounded : Float} (known : exactValue rounded = some (value : Rat)) :
    (Number.real rounded).IsWhole ∧ (Number.real rounded).whole = value :=
  ⟨⟨value, known⟩, whole_real known⟩

theorem IsWhole.elementary (isWhole : number.IsWhole) : number.Elementary := by
  cases number <;> trivial

/-- Small whole numbers are rounded to themselves. -/
theorem IsWhole.toFloat (isWhole : number.IsWhole) (small : number.whole.natAbs ≤ 2 ^ 53) :
    ∃ rounded, number.toFloat = .ok rounded ∧ exactValue rounded = some (number.whole : Rat) := by
  cases number with
  | integer value =>
      have known := exactValue_ofInt small
      exact ⟨ofInt value, if_pos (isFinite_iff.2 ⟨_, known⟩), known⟩
  | real rounded =>
      obtain ⟨value, known⟩ := isWhole
      exact ⟨rounded, rfl, by rw [whole_real known, known]⟩
  | _ => exact isWhole.elim

/-- An operation that is exact on the rounded numbers of two integers is exact on the integers. -/
theorem IsWhole.mixed {operation : Operation} (isWhole : first.IsWhole) (isWhole' : second.IsWhole)
    (small : first.whole.natAbs ≤ 2 ^ 53) (small' : second.whole.natAbs ≤ 2 ^ 53)
    (exact : ∀ left right, exactValue left = some (first.whole : Rat) →
      exactValue right = some (second.whole : Rat) →
        ∃ result, operation.real left right = .ok result ∧ exactValue result = some (value : Rat)) :
    ∃ result, operation.mixed first second = .ok result ∧ result.IsWhole ∧ result.whole = value := by
  obtain ⟨left, isLeft, known⟩ := isWhole.toFloat small
  obtain ⟨right, isRight, known'⟩ := isWhole'.toFloat small'
  obtain ⟨result, returned, knownResult⟩ := exact left right known known'
  refine ⟨.real result, ?_, isWhole_real knownResult⟩
  rw [mixed_of_elementary operation isWhole.elementary isWhole'.elementary, isLeft, isRight]
  change (operation.real left right >>= fun value => Except.ok (Number.real value)) = _
  rw [returned]
  rfl

/-- Small sums of whole numbers are exact. -/
theorem IsWhole.add (isWhole : first.IsWhole) (isWhole' : second.IsWhole)
    (small : first.whole.natAbs + second.whole.natAbs ≤ 2 ^ 53) :
    ∃ sum, first.add second = .ok sum ∧ sum.IsWhole ∧ sum.whole = first.whole + second.whole := by
  have mixed : ∃ sum, addition.mixed first second = .ok sum ∧ sum.IsWhole ∧
      sum.whole = first.whole + second.whole := by
    refine isWhole.mixed isWhole' (by omega) (by omega) fun left right known known' => ?_
    have isValue : exactValue (ofInt (first.whole + second.whole)) = some (first.whole + second.whole : Rat) := by
      rw [exactValue_ofInt ((Int.natAbs_add_le _ _).trans small), Int.cast_add]
    exact ⟨left + right, rfl, by rw [exactValue_add known known' isValue, Int.cast_add]⟩
  cases first with
  | integer value =>
      cases second with
      | integer value' => exact ⟨.integer (value + value'), rfl, trivial, rfl⟩
      | _ => exact mixed
  | _ => exact mixed

/-- Small products of whole numbers are exact. -/
theorem IsWhole.mul (isWhole : first.IsWhole) (isWhole' : second.IsWhole)
    (small : first.whole.natAbs ≤ 2 ^ 53) (small' : second.whole.natAbs ≤ 2 ^ 53)
    (smallProduct : first.whole.natAbs * second.whole.natAbs ≤ 2 ^ 53) :
    ∃ product, first.mul second = .ok product ∧ product.IsWhole ∧
      product.whole = first.whole * second.whole := by
  have mixed : ∃ product, multiplication.mixed first second = .ok product ∧ product.IsWhole ∧
      product.whole = first.whole * second.whole := by
    refine isWhole.mixed isWhole' small small' fun left right known known' => ?_
    have isValue : exactValue (ofInt (first.whole * second.whole)) = some (first.whole * second.whole : Rat) := by
      rw [exactValue_ofInt ((Int.natAbs_mul _ _).le.trans smallProduct), Int.cast_mul]
    exact ⟨left * right, rfl, by rw [exactValue_mul known known' isValue, Int.cast_mul]⟩
  cases first with
  | integer value =>
      cases second with
      | integer value' => exact ⟨.integer (value * value'), rfl, trivial, rfl⟩
      | _ => exact mixed
  | _ => exact mixed

/-- A small whole number is read as the scalar of that value. -/
theorem IsWhole.plain (isWhole : number.IsWhole) (small : number.whole.natAbs ≤ 2 ^ 53) :
    number.Plain ∧ number.toScalar.Denotes (number.whole, 0) := by
  cases number with
  | integer value => exact ⟨small, .exact small⟩
  | real rounded =>
      obtain ⟨value, known⟩ := isWhole
      rw [whole_real known]
      exact plain_real known
  | _ => exact isWhole.elim

end Number

/-- Every number that equals an integer stands for it; exact for certain are the integers themselves. -/
def Reading.wholes : Reading Number Int where
  exact := Number.IsInteger
  value := Number.whole
  exact_add := by
    rintro _ _ ⟨first, rfl⟩ ⟨second, rfl⟩
    exact ⟨.integer (first + second), rfl, ⟨_, rfl⟩, rfl⟩
  exact_mul := by
    rintro _ _ ⟨first, rfl⟩ ⟨second, rfl⟩
    exact ⟨.integer (first * second), rfl, ⟨_, rfl⟩, rfl⟩
  exact_neg := by
    rintro _ ⟨value, rfl⟩
    exact ⟨-value, rfl⟩
  value_neg := by
    rintro _ ⟨value, rfl⟩
    rfl
  same_iff := by
    rintro _ _ ⟨first, rfl⟩ ⟨second, rfl⟩
    change (first == second) = true ↔ first = second
    exact beq_iff_eq

namespace Polynomial

open MvPolynomial Number Reading

/-- The sum of the sizes of all coefficients. -/
def magnitude (monomials : List (Monomial Number)) : Nat :=
  (monomials.map fun item => item.coefficient.whole.natAbs).sum

/-- Monomials with integer coefficients of a bounded total size that add up to a formal polynomial. -/
structure Counts (monomials : List (Monomial Number)) (form : MvPolynomial Int Int) (bound : Nat) :
    Prop where
  whole : ∀ item ∈ monomials, item.coefficient.IsWhole
  formal : wholes.formal monomials = form
  small : magnitude monomials ≤ bound

variable {monomials others : List (Monomial Number)} {form form' : MvPolynomial Int Int}
  {bound bound' : Nat} {first second : Polynomial Number}

theorem magnitude_cons (head : Monomial Number) (rest : List (Monomial Number)) :
    magnitude (head :: rest) = head.coefficient.whole.natAbs + magnitude rest := List.sum_cons

theorem counts_nil : Counts [] 0 0 := ⟨nofun, formal_nil, Nat.le_refl 0⟩

/-- One more monomial adds its term and its size. -/
theorem counts_cons {item : Monomial Number} (isWhole : item.coefficient.IsWhole)
    (counts : Counts monomials form bound) : Counts (item :: monomials) (wholes.term item + form)
      (item.coefficient.whole.natAbs + bound) where
  whole := List.forall_mem_cons.2 ⟨isWhole, counts.whole⟩
  formal := by rw [formal_cons, counts.formal]
  small := by
    rw [magnitude_cons]
    exact Nat.add_le_add_left counts.small _

theorem counts_singleton {item : Monomial Number} (isWhole : item.coefficient.IsWhole) :
    Counts [item] (wholes.term item) item.coefficient.whole.natAbs := by
  have counts := counts_cons isWhole counts_nil
  rwa [add_zero, Nat.add_zero] at counts

/-- The bound may be weakened. -/
theorem Counts.mono (counts : Counts monomials form bound) (order : bound ≤ bound') :
    Counts monomials form bound' :=
  ⟨counts.whole, counts.formal, counts.small.trans order⟩

/-- Two lists together add their forms and their bounds. -/
theorem Counts.append (counts : Counts monomials form bound) (counts' : Counts others form' bound') :
    Counts (monomials ++ others) (form + form') (bound + bound') where
  whole := List.forall_mem_append.2 ⟨counts.whole, counts'.whole⟩
  formal := by rw [formal_append, counts.formal, counts'.formal]
  small := by
    rw [magnitude, List.map_append, List.sum_append]
    exact Nat.add_le_add counts.small counts'.small

/-- No coefficient is larger than the bound. -/
theorem Counts.member_le (counts : Counts monomials form bound) {item : Monomial Number}
    (member : item ∈ monomials) : item.coefficient.whole.natAbs ≤ bound :=
  (List.single_le_sum (fun _ _ => Nat.zero_le _) _ (List.mem_map_of_mem member)).trans counts.small

/-- Absorbing a monomial is exact as long as the sizes stay small. -/
theorem counts_absorb {sum : List (Monomial Number)} {item : Monomial Number}
    (whole : ∀ other ∈ sum, other.coefficient.IsWhole) (isWhole : item.coefficient.IsWhole)
    (small : magnitude sum + item.coefficient.whole.natAbs ≤ 2 ^ 53) :
    ∃ merged, absorb sum item = .ok merged ∧ Counts merged (wholes.formal sum + wholes.term item)
      (magnitude sum + item.coefficient.whole.natAbs) := by
  induction sum with
  | nil =>
      refine ⟨[item], rfl, ?_⟩
      rw [formal_nil, zero_add]
      exact (counts_singleton isWhole).mono (Nat.le_add_left _ _)
  | cons head rest hypothesis =>
      rw [List.forall_mem_cons] at whole
      rw [magnitude_cons] at small ⊢
      simp only [absorb]
      split
      · rename_i same
        obtain ⟨coefficient, returned, sumWhole, value⟩ := whole.1.add isWhole (by omega)
        have joined : wholes.term ⟨coefficient, head.powers⟩ = wholes.term head + wholes.term item := by
          change monomial head.powers.exponents coefficient.whole = _
          rw [value, map_add, term, term, same]
          rfl
        have kept : Counts rest (wholes.formal rest) (magnitude rest) :=
          ⟨whole.2, rfl, Nat.le_refl _⟩
        have grown := Int.natAbs_add_le head.coefficient.whole item.coefficient.whole
        refine ⟨⟨coefficient, head.powers⟩ :: rest, map_eq_ok.2 ⟨coefficient, returned, rfl⟩, ?_⟩
        rw [formal_cons, add_right_comm, ← joined]
        refine (counts_cons sumWhole kept).mono ?_
        rw [value]
        omega
      · obtain ⟨merged, returned, counts⟩ := hypothesis whole.2 (by omega)
        refine ⟨head :: merged, map_eq_ok.2 ⟨merged, returned, rfl⟩, ?_⟩
        rw [formal_cons, add_assoc, Nat.add_assoc]
        exact counts_cons whole.1 counts

theorem Counts.foldlM_absorb {sum : List (Monomial Number)} (counts : Counts sum form bound)
    (counts' : Counts monomials form' bound') (small : bound + bound' ≤ 2 ^ 53) :
    ∃ merged, monomials.foldlM absorb sum = .ok merged ∧ Counts merged (form + form') (bound + bound') := by
  -- The bound of the sum so far takes over the size of each monomial that is absorbed.
  induction monomials generalizing sum form form' bound bound' with
  | nil =>
      refine ⟨sum, rfl, ?_⟩
      rw [← counts'.formal, formal_nil, add_zero]
      exact counts.mono (Nat.le_add_right _ _)
  | cons head rest hypothesis =>
      obtain ⟨whole, rfl, total⟩ := counts'
      rw [List.forall_mem_cons] at whole
      rw [magnitude_cons] at total
      have start := counts.small
      obtain ⟨next, returned, countsNext⟩ := counts_absorb counts.whole whole.1 (by omega)
      have others : Counts rest (wholes.formal rest) (magnitude rest) :=
        ⟨whole.2, rfl, Nat.le_refl _⟩
      obtain ⟨merged, mergedReturned, countsMerged⟩ := hypothesis countsNext others (by omega)
      refine ⟨merged, ?_, ?_⟩
      · rw [List.foldlM_cons, bind_eq_ok]
        exact ⟨next, returned, mergedReturned⟩
      · rw [formal_cons, ← add_assoc, ← counts.formal]
        exact countsMerged.mono (by omega)

/-- Merging is exact as long as the total size is small. -/
theorem Counts.merge (counts : Counts monomials form bound) (small : bound ≤ 2 ^ 53) :
    ∃ merged, merge monomials = .ok merged ∧ Counts merged form bound := by
  have merged := counts_nil.foldlM_absorb counts (by omega : 0 + bound ≤ 2 ^ 53)
  rwa [zero_add, Nat.zero_add] at merged

/-- A polynomial made of small whole monomials is exact. -/
theorem Counts.ofMonomials (counts : Counts monomials form bound) (small : bound ≤ 2 ^ 53) :
    ∃ polynomial, ofMonomials monomials = .ok polynomial ∧ Counts polynomial.monomials form bound := by
  obtain ⟨merged, returned, counts⟩ := counts.merge small
  exact ⟨⟨merged, isUnivariate merged⟩, map_eq_ok.2 ⟨merged, returned, rfl⟩, counts⟩

/-- What is merged into a polynomial counts what it is merged from. -/
theorem Counts.mergeFrom (polynomial : Polynomial Number) (counts : Counts monomials form bound)
    (small : bound ≤ 2 ^ 53) : ∃ merged, (polynomial.mergeFrom monomials).result = .ok merged ∧
      Counts merged.monomials form bound := by
  rw [result_mergeFrom]
  exact counts.ofMonomials small

/-- Bounds of sums are added. -/
theorem Counts.add (counts : Counts first.monomials form bound)
    (counts' : Counts second.monomials form' bound') (small : bound + bound' ≤ 2 ^ 53) :
    ∃ sum, first.add second = .ok sum ∧ Counts sum.monomials (form + form') (bound + bound') :=
  (counts.append counts').mergeFrom first small

/-- Products of pairs are exact where each of them is. -/
theorem counts_mapM_mul {pairs : List (Monomial Number × Monomial Number)}
    (each : ∀ pair ∈ pairs, ∃ product, pair.1.mul pair.2 = .ok product ∧
      product.coefficient.IsWhole ∧
        product.coefficient.whole = pair.1.coefficient.whole * pair.2.coefficient.whole) :
    ∃ products, (pairs.mapM fun pair => pair.1.mul pair.2) = .ok products ∧
      Counts products (pairs.map fun pair => wholes.term pair.1 * wholes.term pair.2).sum
        (pairs.map fun pair => pair.1.coefficient.whole.natAbs * pair.2.coefficient.whole.natAbs).sum := by
  induction pairs with
  | nil => exact ⟨[], rfl, counts_nil⟩
  | cons head rest hypothesis =>
      rw [List.forall_mem_cons] at each
      obtain ⟨⟨product, returned, isWhole, value⟩, each⟩ := each
      obtain ⟨products, restReturned, counts⟩ := hypothesis each
      have powers := powers_mul returned
      have multiplied : wholes.term product = wholes.term head.1 * wholes.term head.2 := by
        change monomial product.powers.exponents product.coefficient.whole = _
        rw [powers, value, PowerProduct.exponents_mul, term, term, monomial_mul]
        rfl
      refine ⟨product :: products, ?_, ?_⟩
      · rw [List.mapM_cons, returned, restReturned]
        rfl
      · rw [List.map_cons, List.sum_cons, List.map_cons, List.sum_cons, ← multiplied, ← Int.natAbs_mul,
          ← value]
        exact counts_cons isWhole counts

/-- The sizes of all products together are the product of both bounds. -/
theorem Counts.products (counts : Counts monomials form bound) (counts' : Counts others form' bound')
    (small : bound ≤ 2 ^ 53) (small' : bound' ≤ 2 ^ 53) (total : bound * bound' ≤ 2 ^ 53) :
    ∃ items, products monomials others = .ok items ∧ Counts items (form * form') (bound * bound') := by
  have each (pair : Monomial Number × Monomial Number)
      (member : pair ∈ monomials.flatMap fun left => others.map fun right => (left, right)) :
      ∃ product, pair.1.mul pair.2 = .ok product ∧ product.coefficient.IsWhole ∧
        product.coefficient.whole = pair.1.coefficient.whole * pair.2.coefficient.whole := by
    obtain ⟨left, isLeft, inMap⟩ := List.mem_flatMap.1 member
    obtain ⟨right, isRight, rfl⟩ := List.mem_map.1 inMap
    have leftSmall := counts.member_le isLeft
    have rightSmall := counts'.member_le isRight
    obtain ⟨coefficient, returned, facts⟩ := (counts.whole left isLeft).mul (counts'.whole right isRight)
      (leftSmall.trans small) (rightSmall.trans small') ((Nat.mul_le_mul leftSmall rightSmall).trans total)
    exact ⟨_, map_eq_ok.2 ⟨coefficient, returned, rfl⟩, facts⟩
  obtain ⟨items, returned, countsItems⟩ := counts_mapM_mul each
  rw [sum_pairs, sum_map_pairs fun item : Monomial Number => item.coefficient.whole.natAbs, counts.formal,
    counts'.formal] at countsItems
  exact ⟨items, returned, countsItems.mono (Nat.mul_le_mul counts.small counts'.small)⟩

/-- Bounds of products are multiplied. -/
theorem Counts.mul (counts : Counts first.monomials form bound)
    (counts' : Counts second.monomials form' bound') (small : bound ≤ 2 ^ 53) (small' : bound' ≤ 2 ^ 53)
    (total : bound * bound' ≤ 2 ^ 53) :
    ∃ product, first.mul second = .ok product ∧ Counts product.monomials (form * form') (bound * bound') := by
  obtain ⟨items, returned, countsItems⟩ := counts.products counts' small small' total
  rw [mul_eq_bind, returned]
  exact countsItems.ofMonomials total

/-- An integer counts as itself. -/
theorem counts_constant (value : Int) :
    Counts (constant (.integer value)).monomials (C value) value.natAbs :=
  counts_singleton trivial

theorem counts_one : Counts (constant (Coefficient.one : Number)).monomials 1 1 := by
  obtain ⟨isWhole, value⟩ := isWhole_real Binary64.exactValue_one
  have counts : Counts [Monomial.constant (.real 1.0)] _ _ := counts_singleton isWhole
  rwa [term, Monomial.constant, show wholes.value (.real 1.0) = 1 from value, value] at counts

/-- A variable counts as one. -/
theorem counts_variable (var : Int) :
    Counts [⟨Coefficient.one, .ofFactor (.linear var)⟩] (X var) 1 := by
  obtain ⟨isWhole, value⟩ := isWhole_real Binary64.exactValue_one
  have counts : Counts [⟨.real 1.0, .ofFactor (.linear var)⟩] _ _ := counts_singleton isWhole
  rwa [term, show wholes.value (.real 1.0) = 1 from value, value, PowerProduct.exponents_linear] at counts

/-- Bounds of powers are powers. -/
theorem Counts.pow (counts : Counts first.monomials form bound) (small : bound ≤ 2 ^ 53) {exponent : Nat}
    (smallPower : bound ^ exponent ≤ 2 ^ 53) : ∃ power, first.pow exponent = .ok power ∧
      Counts power.monomials (form ^ exponent) (bound ^ exponent) := by
  induction exponent with
  | zero =>
      refine ⟨constant Coefficient.one, rfl, ?_⟩
      rw [pow_zero, Nat.pow_zero]
      exact counts_one
  | succ exponent hypothesis =>
      have smaller : bound ^ exponent ≤ 2 ^ 53 := by
        rcases Nat.eq_zero_or_pos bound with rfl | positive
        · exact (pow_le_one₀ (Nat.le_refl 0) (Nat.zero_le 1)).trans Nat.one_le_two_pow
        · exact (Nat.pow_le_pow_right positive (Nat.le_succ exponent)).trans smallPower
      obtain ⟨power, returned, countsPower⟩ := hypothesis smaller
      obtain ⟨product, returnedProduct, countsProduct⟩ := countsPower.mul counts smaller small smallPower
      refine ⟨product, ?_, ?_⟩
      · rw [Polynomial.pow, returned]
        exact returnedProduct
      · rw [pow_succ, Nat.pow_succ]
        exact countsProduct

/-- A monomial has a counterpart in what stands for the same formal polynomial. -/
theorem Counts.counterpart (counts : Counts monomials form bound) (counts' : Counts others form bound')
    (distinct : (powersOf monomials).Nodup) (distinct' : (powersOf others).Nodup) (small : bound ≤ 2 ^ 53)
    (small' : bound' ≤ 2 ^ 53) {item : Monomial Number} (member : item ∈ nonzeros monomials) :
    ∃ other ∈ nonzeros others, other.powers = item.powers ∧
      Coefficient.same item.coefficient other.coefficient = true := by
  obtain ⟨member, nonzero⟩ := List.mem_filter.1 member
  obtain ⟨plain, known⟩ := (counts.whole item member).plain ((counts.member_le member).trans small)
  rw [Bool.not_eq_true', ← Bool.not_eq_true, isZero_iff_value plain known] at nonzero
  have value : coeff item.powers.exponents (wholes.formal monomials) = item.coefficient.whole :=
    coeff_formal_of_mem distinct member
  rw [counts.formal, ← counts'.formal] at value
  -- Without a monomial of these powers among the others, the formal coefficient would be zero.
  by_cases present : item.powers ∈ powersOf others
  · obtain ⟨other, isOther, same⟩ := List.mem_map.1 present
    obtain ⟨plain', known'⟩ := (counts'.whole other isOther).plain ((counts'.member_le isOther).trans small')
    rw [← same, coeff_formal_of_mem distinct' isOther] at value
    have equal : other.coefficient.whole = item.coefficient.whole := value
    rw [equal] at known'
    refine ⟨other, List.mem_filter.2 ⟨isOther, ?_⟩, same, same_of_value plain plain' known known'⟩
    rwa [Bool.not_eq_true', ← Bool.not_eq_true, isZero_iff_value plain' known']
  · rw [coeff_formal_of_not_mem present] at value
    have zero : item.coefficient.whole = 0 := value.symm
    rw [zero] at nonzero
    exact (nonzero rfl).elim

/-- Polynomials that stand for one formal polynomial are equal but for monomials of coefficient zero. -/
theorem Counts.same_withoutZeros (counts : Counts first.monomials form bound)
    (counts' : Counts second.monomials form bound') (distinct : first.Distinct) (distinct' : second.Distinct)
    (small : bound ≤ 2 ^ 53) (small' : bound' ≤ 2 ^ 53) :
    first.withoutZeros.same second.withoutZeros = true := by
  have kept {polynomial : Polynomial Number} (distinct : polynomial.Distinct) :
      polynomial.withoutZeros.Distinct :=
    distinct.sublist (List.filter_sublist.map Monomial.powers)
  refine same_of_counterparts (kept distinct) (kept distinct') (fun item member => ?_) fun other member => ?_
  · exact counts.counterpart counts' distinct distinct' small small' member
  · obtain ⟨item, isItem, same, -⟩ := counts'.counterpart counts distinct' distinct small' small member
    exact List.mem_map.2 ⟨item, isItem, same⟩

end Polynomial

end TrigAlgebra
