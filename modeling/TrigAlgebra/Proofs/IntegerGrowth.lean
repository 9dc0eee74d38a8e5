/-
This file bounds the integer coefficients of sums and products of polynomials: as long as the bound
has fewer than 1024 binary digits, integers and rounded numbers can be mixed without a failure.
-/

import TrigAlgebra.Proofs.Expansion
import TrigAlgebra.Proofs.FormalPolynomial
import TrigAlgebra.Proofs.IntegerSizes

namespace TrigAlgebra

variable {A B : Type}

/-- A result with a property, or the failure of rounding an integer where the limit allows one. -/
def Within (limit : Nat) (good : A → Prop) (result : Except Fault A) : Prop :=
  (∃ value, result = .ok value ∧ good value) ∨ (result = .error .integerTooLarge ∧ 2 ^ 1023 ≤ limit)

namespace Within

variable {limit : Nat} {good : A → Prop} {good' : B → Prop} {result : Except Fault A}

theorem ok {value : A} (holds : good value) : Within limit good (.ok value) :=
  .inl ⟨value, rfl, holds⟩

/-- What a step is bounded for, the next one may use. -/
theorem bind {next : A → Except Fault B} (first : Within limit good result)
    (step : ∀ value, good value → Within limit good' (next value)) :
    Within limit good' (result >>= next) := by
  rcases first with ⟨value, rfl, holds⟩ | ⟨rfl, large⟩
  · exact step value holds
  · exact .inr ⟨rfl, large⟩

theorem map {change : A → B} (first : Within limit good result)
    (step : ∀ value, good value → good' (change value)) : Within limit good' (result.map change) := by
  rcases first with ⟨value, rfl, holds⟩ | ⟨rfl, large⟩
  · exact ok (step value holds)
  · exact .inr ⟨rfl, large⟩

/-- A bound may be raised and a fact weakened. -/
theorem mono {limit' : Nat} {better : A → Prop} (first : Within limit good result) (order : limit ≤ limit')
    (step : ∀ value, good value → better value) : Within limit' better result := by
  rcases first with ⟨value, same, holds⟩ | ⟨same, large⟩
  · exact .inl ⟨value, same, step value holds⟩
  · exact .inr ⟨same, large.trans order⟩

/-- Below the limit nothing fails. -/
theorem exists_ok (first : Within limit good result) (small : limit ≤ 1) :
    ∃ value, result = .ok value ∧ good value := by
  refine first.resolve_right fun failed => ?_
  have large : 1 < 2 ^ 1023 := one_lt_pow₀ Nat.one_lt_two (Nat.succ_ne_zero 1022)
  exact Nat.lt_irrefl 1 (large.trans_le (failed.2.trans small))

end Within

namespace Number

/-- The size of an integer; rounded numbers do not count. -/
def size : Number → Nat
  | .integer whole => whole.natAbs
  | _ => 0

/-- An integer or a rounded real number. -/
def Elementary : Number → Prop
  | .integer _ => True
  | .real _ => True
  | _ => False

/-- The number is an integer, whatever its size. -/
def IsInteger (number : Number) : Prop := ∃ value, number = .integer value

/-- The number is a rounded real. -/
def IsRounded (number : Number) : Prop := ∃ value, number = .real value

/-- The value is an integer; infinite and undefined numbers have no value. -/
def IsWhole : Number → Prop
  | .integer _ => True
  | .real value => ∃ whole : Int, Binary64.exactValue value = some ↑whole
  | _ => False

variable {limit : Nat} {first second : Number}

/-- Below the limit every integer is rounded. -/
theorem within_floatOfInt {whole : Int} (small : whole.natAbs ≤ limit) :
    Within limit (fun _ => True) (floatOfInt whole) := by
  unfold floatOfInt
  dsimp only
  split
  · exact .ok trivial
  · rename_i infinite
    refine .inr ⟨rfl, Nat.le_of_not_lt fun below => infinite ?_⟩
    exact Binary64.isFinite_ofInt (lt_of_le_of_lt small below) (by decide)

/-- Rounding fails for nothing but an integer above the limit. -/
theorem within_toFloat (elementary : first.Elementary) (small : first.size ≤ limit) :
    Within limit (fun _ => True) first.toFloat := by
  cases first with
  | integer whole => exact within_floatOfInt small
  | real value => exact .ok trivial
  | _ => exact elementary.elim

/-- Both operands are rounded where their kinds differ. -/
theorem mixed_of_elementary (operation : Operation) (elementary : first.Elementary)
    (elementary' : second.Elementary) : operation.mixed first second = (do
      let first ← first.toFloat
      let second ← second.toFloat
      return .real (← operation.real first second)) := by
  cases first <;> cases second <;> first | rfl | exact elementary.elim | exact elementary'.elim

/-- A sum or product of two numbers that are not both integers is a rounded one. -/
theorem within_mixed {operation : Operation} (total : ∀ left right, ∃ value, operation.real left right = .ok value)
    (elementary : first.Elementary) (elementary' : second.Elementary) (small : first.size ≤ limit)
    (small' : second.size ≤ limit) :
    Within limit (fun result => result.Elementary ∧ result.size = 0) (operation.mixed first second) := by
  rw [mixed_of_elementary operation elementary elementary']
  refine (within_toFloat elementary small).bind fun left _ => ?_
  refine (within_toFloat elementary' small').bind fun right _ => ?_
  obtain ⟨value, returned⟩ := total left right
  rw [returned]
  exact .ok ⟨trivial, rfl⟩

/-- Integers grow by addition; rounded numbers do not count. -/
theorem within_add (elementary : first.Elementary) (elementary' : second.Elementary)
    (small : first.size + second.size ≤ limit) :
    Within limit (fun sum => sum.Elementary ∧ sum.size ≤ first.size + second.size) (first.add second) := by
  have mixed : Within limit (fun sum => sum.Elementary ∧ sum.size ≤ first.size + second.size)
      (addition.mixed first second) :=
    (within_mixed (fun left right => ⟨left + right, rfl⟩) elementary elementary' (by omega) (by omega)).mono
      (Nat.le_refl limit) fun sum facts => ⟨facts.1, facts.2 ▸ Nat.zero_le _⟩
  cases first with
  | integer whole =>
      cases second with
      | integer whole' => exact .ok ⟨trivial, Int.natAbs_add_le whole whole'⟩
      | _ => exact mixed
  | _ => exact mixed

/-- Integers grow by multiplication; rounded numbers do not count. -/
theorem within_mul (elementary : first.Elementary) (elementary' : second.Elementary)
    (small : first.size ≤ limit) (small' : second.size ≤ limit) :
    Within limit (fun product => product.Elementary ∧ product.size ≤ first.size * second.size)
      (first.mul second) := by
  have mixed : Within limit (fun product => product.Elementary ∧ product.size ≤ first.size * second.size)
      (multiplication.mixed first second) :=
    (within_mixed (fun left right => ⟨left * right, rfl⟩) elementary elementary' small small').mono
      (Nat.le_refl limit) fun product facts => ⟨facts.1, facts.2 ▸ Nat.zero_le _⟩
  cases first with
  | integer whole =>
      cases second with
      | integer whole' => exact .ok ⟨trivial, (Int.natAbs_mul whole whole').le⟩
      | _ => exact mixed
  | _ => exact mixed

theorem size_neg (number : Number) : number.neg.size = number.size := by
  cases number <;> first | rfl | exact Int.natAbs_neg _

theorem Elementary.neg {number : Number} (elementary : number.Elementary) : number.neg.Elementary := by
  cases number <;> exact elementary

end Number

namespace Polynomial

open Number

/-- The sum of the sizes of all coefficients. -/
def weight (monomials : List (Monomial Number)) : Nat :=
  (monomials.map fun item => item.coefficient.size).sum

/-- The coefficients are integers of a bounded total size or rounded numbers. -/
structure Sized (bound : Nat) (monomials : List (Monomial Number)) : Prop where
  elementary : ∀ item ∈ monomials, item.coefficient.Elementary
  small : weight monomials ≤ bound

variable {limit bound bound' : Nat} {monomials others : List (Monomial Number)}

theorem weight_cons (head : Monomial Number) (rest : List (Monomial Number)) :
    weight (head :: rest) = head.coefficient.size + weight rest := List.sum_cons

theorem sized_nil : Sized bound [] := ⟨nofun, Nat.zero_le bound⟩

/-- One more monomial adds its size. -/
theorem sized_cons {head : Monomial Number} {rest : List (Monomial Number)}
    (elementary : head.coefficient.Elementary) (sized : Sized bound rest) :
    Sized (head.coefficient.size + bound) (head :: rest) :=
  ⟨List.forall_mem_cons.2 ⟨elementary, sized.elementary⟩, by
    rw [weight_cons]
    exact Nat.add_le_add_left sized.small _⟩

theorem Sized.mono (sized : Sized bound monomials) (order : bound ≤ bound') : Sized bound' monomials :=
  ⟨sized.elementary, sized.small.trans order⟩

/-- Sizes of two lists are added. -/
theorem Sized.append (sized : Sized bound monomials) (sized' : Sized bound' others) :
    Sized (bound + bound') (monomials ++ others) :=
  ⟨List.forall_mem_append.2 ⟨sized.elementary, sized'.elementary⟩, by
    rw [weight, List.map_append, List.sum_append]
    exact Nat.add_le_add sized.small sized'.small⟩

/-- Negatives are as large as before. -/
theorem Sized.negated (sized : Sized bound monomials) : Sized bound (negated monomials) := by
  constructor
  · unfold Polynomial.negated
    rw [List.forall_mem_map]
    exact fun item member => (sized.elementary item member).neg
  · have same : weight (Polynomial.negated monomials) = weight monomials := by
      unfold weight Polynomial.negated
      rw [List.map_map]
      exact congrArg List.sum (List.map_congr_left fun item _ => size_neg item.coefficient)
    exact same ▸ sized.small

/-- Absorbing a monomial adds its size at most. -/
theorem within_absorb {sum : List (Monomial Number)} {item : Monomial Number}
    (elementary : ∀ other ∈ sum, other.coefficient.Elementary) (isElementary : item.coefficient.Elementary)
    (small : weight sum + item.coefficient.size ≤ limit) :
    Within limit (Sized (weight sum + item.coefficient.size)) (absorb sum item) := by
  induction sum with
  | nil =>
      refine .ok ⟨List.forall_mem_singleton.2 isElementary, ?_⟩
      rw [weight_cons, Nat.add_comm]
  | cons head rest hypothesis =>
      rw [List.forall_mem_cons] at elementary
      rw [weight_cons] at small ⊢
      simp only [absorb]
      split
      · refine (within_add elementary.1 isElementary (by omega)).map fun sum facts => ?_
        refine ⟨List.forall_mem_cons.2 ⟨facts.1, elementary.2⟩, ?_⟩
        rw [weight_cons]
        have grown := facts.2
        dsimp only
        omega
      · refine (hypothesis elementary.2 (by omega)).map fun merged sized => ?_
        refine ⟨List.forall_mem_cons.2 ⟨elementary.1, sized.elementary⟩, ?_⟩
        rw [weight_cons]
        have grown := sized.small
        omega

/-- Absorbing a list adds its weight at most. -/
theorem within_foldlM_absorb {sum : List (Monomial Number)} (sized : Sized bound sum)
    (sized' : Sized bound' monomials) (small : bound + bound' ≤ limit) :
    Within limit (Sized (bound + bound')) (monomials.foldlM absorb sum) := by
  -- The bound of the sum so far takes over the size of each monomial that is absorbed.
  induction monomials generalizing sum bound bound' with
  | nil => exact .ok (sized.mono (Nat.le_add_right _ _))
  | cons head rest hypothesis =>
      obtain ⟨elementary, total⟩ := sized'
      rw [List.forall_mem_cons] at elementary
      rw [weight_cons] at total
      have start := sized.small
      rw [List.foldlM_cons]
      refine (within_absorb sized.elementary elementary.1 (by omega)).bind fun merged sizedMerged => ?_
      have others : Sized (weight rest) rest := ⟨elementary.2, Nat.le_refl _⟩
      exact (hypothesis sizedMerged others (by omega)).mono (Nat.le_refl limit)
        fun result sizedResult => sizedResult.mono (by omega)

/-- Merging does not make a list heavier. -/
theorem within_merge (sized : Sized bound monomials) (small : bound ≤ limit) :
    Within limit (Sized bound) (merge monomials) := by
  have empty : Sized 0 [] := sized_nil
  have merged := within_foldlM_absorb empty sized (by omega : 0 + bound ≤ limit)
  rwa [Nat.zero_add] at merged

/-- What is merged into a polynomial is bounded by what it is merged from. -/
theorem within_mergeFrom (polynomial : Polynomial Number) (sized : Sized bound monomials)
    (small : bound ≤ limit) :
    Within limit (fun merged => Sized bound merged.monomials) (polynomial.mergeFrom monomials).result := by
  rw [result_mergeFrom]
  exact (within_merge sized small).map fun merged sizedMerged => sizedMerged

/-- The products of pairs weigh what the products of their sizes add up to. -/
theorem within_mapM_mul {pairs : List (Monomial Number × Monomial Number)}
    (elementary : ∀ pair ∈ pairs, pair.1.coefficient.Elementary ∧ pair.2.coefficient.Elementary)
    (small : ∀ pair ∈ pairs, pair.1.coefficient.size ≤ limit ∧ pair.2.coefficient.size ≤ limit) :
    Within limit (Sized (pairs.map fun pair => pair.1.coefficient.size * pair.2.coefficient.size).sum)
      (pairs.mapM fun pair => pair.1.mul pair.2) := by
  induction pairs with
  | nil => exact .ok sized_nil
  | cons head rest hypothesis =>
      rw [List.forall_mem_cons] at elementary small
      rw [List.mapM_cons, List.map_cons, List.sum_cons]
      have multiplied : Within limit (fun item : Monomial Number => item.coefficient.Elementary ∧
          item.coefficient.size ≤ head.1.coefficient.size * head.2.coefficient.size)
          (head.1.mul head.2) :=
        (within_mul elementary.1.1 elementary.1.2 small.1.1 small.1.2).map fun _ facts => facts
      refine multiplied.bind fun item facts => ?_
      refine (hypothesis elementary.2 small.2).bind fun others sized => ?_
      exact .ok ((sized_cons facts.1 sized).mono (Nat.add_le_add_right facts.2 _))

/-- No coefficient is larger than the weight. -/
theorem size_le_weight {item : Monomial Number} (member : item ∈ monomials) :
    item.coefficient.size ≤ weight monomials :=
  List.single_le_sum (fun _ _ => Nat.zero_le _) _ (List.mem_map_of_mem member)

/-- All products together weigh at most the product of the weights. -/
theorem within_products (sized : Sized bound monomials) (sized' : Sized bound' others)
    (small : bound ≤ limit) (small' : bound' ≤ limit) :
    Within limit (Sized (bound * bound')) (products monomials others) := by
  have members (pair : Monomial Number × Monomial Number)
      (member : pair ∈ monomials.flatMap fun left => others.map fun right => (left, right)) :
      pair.1 ∈ monomials ∧ pair.2 ∈ others := by
    obtain ⟨left, isLeft, inMap⟩ := List.mem_flatMap.1 member
    obtain ⟨right, isRight, rfl⟩ := List.mem_map.1 inMap
    exact ⟨isLeft, isRight⟩
  refine (within_mapM_mul (fun pair member => ?_) fun pair member => ?_).mono (Nat.le_refl limit)
    fun result sizedResult => sizedResult.mono ?_
  · obtain ⟨left, right⟩ := members pair member
    exact ⟨sized.elementary _ left, sized'.elementary _ right⟩
  · obtain ⟨left, right⟩ := members pair member
    exact ⟨((size_le_weight left).trans sized.small).trans small,
      ((size_le_weight right).trans sized'.small).trans small'⟩
  · rw [sum_map_pairs fun item : Monomial Number => item.coefficient.size]
    exact Nat.mul_le_mul sized.small sized'.small

variable {first second : Polynomial Number}

/-- Bounds of sums are added. -/
theorem within_add (sized : Sized bound first.monomials) (sized' : Sized bound' second.monomials)
    (small : bound + bound' ≤ limit) :
    Within limit (fun sum => Sized (bound + bound') sum.monomials) (first.add second) :=
  within_mergeFrom first (sized.append sized') small

/-- Bounds of differences are added. -/
theorem within_sub (sized : Sized bound first.monomials) (sized' : Sized bound' second.monomials)
    (small : bound + bound' ≤ limit) :
    Within limit (fun difference => Sized (bound + bound') difference.monomials) (first.sub second) :=
  within_mergeFrom first (sized.append sized'.negated) small

/-- Bounds of products are multiplied. -/
theorem within_mul (sized : Sized bound first.monomials) (sized' : Sized bound' second.monomials)
    (small : bound ≤ limit) (small' : bound' ≤ limit) (total : bound * bound' ≤ limit) :
    Within limit (fun product => Sized (bound * bound') product.monomials) (first.mul second) := by
  rw [mul_eq_bind]
  refine (within_products sized sized' small small').bind fun monomials sizedProducts => ?_
  rw [← result_mergeFrom first]
  exact within_mergeFrom first sizedProducts total

end Polynomial

namespace TrigPolynomial

open TrigAlgebra.Polynomial

/-- An operation that takes over the angles does what it does on the polynomials. -/
theorem result_joined {K : Type} (trig : TrigPolynomial K) (edit : Edit (Polynomial K)) (angles : AngleMap) :
    (joined (trig.onPolynomial edit) angles).result =
      edit.result.map fun polynomial => ⟨polynomial, trig.angles.update angles⟩ := by
  obtain ⟨outcome, content⟩ := edit
  cases outcome <;> rfl

variable {limit bound bound' : Nat} {first second : TrigPolynomial Number}

/-- The same for trigonometric polynomials. -/
theorem within_add (sized : Sized bound first.polynomial.monomials)
    (sized' : Sized bound' second.polynomial.monomials) (small : bound + bound' ≤ limit) :
    Within limit (fun sum => Sized (bound + bound') sum.polynomial.monomials) (first.add second) := by
  rw [add, addTo, result_joined]
  exact (Polynomial.within_add sized sized' small).map fun _ sizedSum => sizedSum

/-- The same for trigonometric polynomials. -/
theorem within_sub (sized : Sized bound first.polynomial.monomials)
    (sized' : Sized bound' second.polynomial.monomials) (small : bound + bound' ≤ limit) :
    Within limit (fun difference => Sized (bound + bound') difference.polynomial.monomials)
      (first.sub second) := by
  rw [sub, subtractFrom, result_joined]
  exact (Polynomial.within_sub sized sized' small).map fun _ sizedDifference => sizedDifference

/-- The same for trigonometric polynomials. -/
theorem within_mul (sized : Sized bound first.polynomial.monomials)
    (sized' : Sized bound' second.polynomial.monomials) (small : bound ≤ limit) (small' : bound' ≤ limit)
    (total : bound * bound' ≤ limit) :
    Within limit (fun product => Sized (bound * bound') product.polynomial.monomials)
      (first.mul second) := by
  rw [mul, multiplyBy, result_joined]
  exact (Polynomial.within_mul sized sized' small small' total).map fun _ sizedProduct => sizedProduct

end TrigPolynomial

end TrigAlgebra
