/-
This file proves that merging a list of monomials adds up the coefficients given for each product of
powers, from left to right. With integer coefficients the order of the list does not matter, nor does
merging a part of it beforehand.
-/

import TrigAlgebra.Proofs.IntegerArithmetic
import TrigAlgebra.Proofs.Reachable

namespace TrigAlgebra

namespace Reading

open TrigAlgebra.Polynomial

variable {K R : Type} [Coefficient K] [CommRing R] {reading : Reading K R}
  {first second : List (Monomial K)}

/-- Whether a list is covered does not depend on its order. -/
theorem covers_perm (covered : reading.Covers first) (order : first.Perm second) :
    reading.Covers second :=
  fun item member => covered item (order.mem_iff.2 member)

/-- A sum does not depend on the order of its monomials. -/
theorem formal_perm (order : first.Perm second) : reading.formal first = reading.formal second :=
  (order.map _).sum_eq

end Reading

namespace Polynomial

variable {K : Type}

/-- The coefficients that a list gives for the powers, in their order. -/
def coefficientsFor (powers : PowerProduct) (monomials : List (Monomial K)) : List K :=
  (monomials.filter fun item => item.powers == powers).map Monomial.coefficient

/-- The coefficients of a product, list by list. -/
theorem coefficientsFor_append (powers : PowerProduct) (first second : List (Monomial K)) :
    coefficientsFor powers (first ++ second) =
      coefficientsFor powers first ++ coefficientsFor powers second := by
  unfold coefficientsFor
  rw [List.filter_append, List.map_append]

theorem coefficientsFor_cons (powers : PowerProduct) (head : Monomial K) (rest : List (Monomial K)) :
    coefficientsFor powers (head :: rest) = if head.powers = powers then
      head.coefficient :: coefficientsFor powers rest else coefficientsFor powers rest := by
  unfold coefficientsFor
  rw [List.filter_cons]
  by_cases same : head.powers = powers
  · rw [if_pos (beq_iff_eq.2 same), if_pos same, List.map_cons]
  · rw [if_neg (beq_iff_eq.not.2 same), if_neg same]

/-- A product that does not occur has no coefficients. -/
theorem coefficientsFor_of_not_mem {powers : PowerProduct} {monomials : List (Monomial K)}
    (absent : powers ∉ powersOf monomials) : coefficientsFor powers monomials = [] := by
  induction monomials with
  | nil => rfl
  | cons head rest hypothesis =>
      simp only [powersOf, List.map_cons, List.mem_cons, not_or] at absent
      rw [coefficientsFor_cons, if_neg (Ne.symm absent.1), hypothesis absent.2]

/-- Where no two monomials have the same powers, each one gives a single coefficient for its own. -/
theorem coefficientsFor_of_nodup {monomials : List (Monomial K)} (distinct : (powersOf monomials).Nodup)
    {item : Monomial K} (member : item ∈ monomials) :
    coefficientsFor item.powers monomials = [item.coefficient] := by
  induction monomials with
  | nil => exact (List.not_mem_nil member).elim
  | cons head rest hypothesis =>
      rw [powersOf, List.map_cons, List.nodup_cons] at distinct
      rw [coefficientsFor_cons]
      rcases List.mem_cons.1 member with rfl | inRest
      · rw [if_pos rfl, coefficientsFor_of_not_mem distinct.1]
      · have different : head.powers ≠ item.powers := fun same =>
          distinct.1 (same ▸ List.mem_map_of_mem inRest)
        rw [if_neg different, hypothesis distinct.2 inRest]

/-- The products in the order of their first occurrence. -/
theorem foldl_appendNew_eq_eraseDups (list : List PowerProduct) :
    list.foldl appendNew [] = list.eraseDups := by
  induction list using List.reverseRecOn with
  | nil => rfl
  | append_singleton rest last hypothesis =>
      rw [List.foldl_concat, hypothesis, List.eraseDups_append, appendNew]
      by_cases old : last ∈ rest
      · simp [List.removeAll, old]
      · simp [List.removeAll, old, List.eraseDups_cons]

theorem toFinset_powersOf_perm {first second : List (Monomial K)} (order : first.Perm second) :
    (powersOf first).toFinset = (powersOf second).toFinset :=
  List.toFinset_eq_of_perm _ _ (order.map _)

variable [Coefficient K]

/-- Coefficients are added from left to right, and there is no sum of none. -/
def leftSum : List K → Except Fault (Option K)
  | [] => .ok none
  | first :: rest => (rest.foldlM Coefficient.add first).map some

/-- A longer sum starts from the sum of its first part. -/
theorem leftSum_append (first second : List K) :
    leftSum (first ++ second) = leftSum first >>= fun sum => leftSum (sum.toList ++ second) := by
  cases first with
  | nil => rfl
  | cons head rest =>
      rw [List.cons_append, leftSum, List.foldlM_append, leftSum]
      cases rest.foldlM Coefficient.add head <;> rfl

theorem leftSum_pair (first second : K) :
    leftSum [first, second] = (Coefficient.add first second).map some := by
  rw [leftSum, List.foldlM_cons]
  cases Coefficient.add first second <;> rfl

/-- Absorbing keeps products distinct. -/
theorem nodup_absorb {sum next : List (Monomial K)} {item : Monomial K}
    (distinct : (powersOf sum).Nodup) (absorbed : absorb sum item = .ok next) :
    (powersOf next).Nodup :=
  powersOf_absorb absorbed ▸ nodup_appendNew _ distinct

/-- Absorbing a monomial continues the sum for its own powers. -/
theorem leftSum_absorb {sum : List (Monomial K)} (distinct : (powersOf sum).Nodup) (item : Monomial K) :
    (do leftSum (coefficientsFor item.powers (← absorb sum item))) =
      leftSum (coefficientsFor item.powers (sum ++ [item])) := by
  induction sum with
  | nil => rfl
  | cons head rest hypothesis =>
      rw [powersOf, List.map_cons, List.nodup_cons] at distinct
      rw [absorb, List.cons_append, coefficientsFor_cons]
      split
      · rename_i same
        have alone : coefficientsFor item.powers rest = [] :=
          coefficientsFor_of_not_mem (same ▸ distinct.1)
        have last : coefficientsFor item.powers [item] = [item.coefficient] := by
          rw [coefficientsFor_cons, if_pos rfl]
          rfl
        rw [coefficientsFor_append, alone, last, List.nil_append, leftSum_pair]
        cases Coefficient.add head.coefficient item.coefficient with
        | error fault => rfl
        | ok total =>
            change leftSum (coefficientsFor item.powers (⟨total, head.powers⟩ :: rest)) = .ok (some total)
            rw [coefficientsFor_cons, if_pos same, alone]
            rfl
      · rename_i different
        rw [← hypothesis distinct.2]
        cases absorb rest item with
        | error fault => rfl
        | ok merged =>
            change leftSum (coefficientsFor item.powers (head :: merged)) = _
            rw [coefficientsFor_cons, if_neg different]
            rfl

/-- Absorbing a monomial leaves the coefficients of other products. -/
theorem coefficientsFor_absorb_of_ne {sum merged : List (Monomial K)} {item : Monomial K}
    {powers : PowerProduct} (absorbed : absorb sum item = .ok merged) (other : item.powers ≠ powers) :
    coefficientsFor powers merged = coefficientsFor powers sum := by
  induction sum generalizing merged with
  | nil =>
      cases absorbed
      rw [coefficientsFor_cons, if_neg other]
  | cons head rest hypothesis =>
      rw [absorb] at absorbed
      split at absorbed
      · rename_i same
        obtain ⟨total, -, rfl⟩ := map_eq_ok.1 absorbed
        have different : head.powers ≠ powers := same ▸ other
        rw [coefficientsFor_cons, coefficientsFor_cons, if_neg different, if_neg different]
      · obtain ⟨tail, tailCase, rfl⟩ := map_eq_ok.1 absorbed
        rw [coefficientsFor_cons, coefficientsFor_cons, hypothesis tailCase]

/-- One step of the merging leaves all sums, also those over monomials that are still to come. -/
theorem leftSum_absorb_append {sum next : List (Monomial K)} {item : Monomial K} (distinct : (powersOf sum).Nodup)
    (absorbed : absorb sum item = .ok next) (powers : PowerProduct) (later : List (Monomial K)) :
    leftSum (coefficientsFor powers (next ++ later)) =
      leftSum (coefficientsFor powers (sum ++ item :: later)) := by
  have start : leftSum (coefficientsFor powers next) =
      leftSum (coefficientsFor powers (sum ++ [item])) := by
    by_cases same : item.powers = powers
    · cases same
      have continued := leftSum_absorb distinct item
      rwa [absorbed] at continued
    · rw [coefficientsFor_absorb_of_ne absorbed same, coefficientsFor_append,
        coefficientsFor_cons, if_neg same]
      exact congrArg leftSum (List.append_nil _).symm
  rw [coefficientsFor_append, leftSum_append, start, ← leftSum_append, ← coefficientsFor_append,
    List.append_assoc]
  rfl

/-- What is merged so far has, with the monomials to come, the sums of the whole list. -/
theorem leftSum_foldlM_absorb {monomials sum merged : List (Monomial K)}
    (distinct : (powersOf sum).Nodup) (absorbed : monomials.foldlM absorb sum = .ok merged)
    (powers : PowerProduct) : leftSum (coefficientsFor powers merged) =
      leftSum (coefficientsFor powers (sum ++ monomials)) := by
  induction monomials generalizing sum with
  | nil =>
      cases absorbed
      rw [List.append_nil]
  | cons head rest hypothesis =>
      rw [List.foldlM_cons, bind_eq_ok] at absorbed
      obtain ⟨next, headCase, restCase⟩ := absorbed
      rw [hypothesis (nodup_absorb distinct headCase) restCase, leftSum_absorb_append distinct headCase]

/-- The coefficients given for each product of powers can be added. -/
def AdditionsReturn (monomials : List (Monomial K)) : Prop :=
  ∀ powers ∈ powersOf monomials, ∃ total, leftSum (coefficientsFor powers monomials) = .ok total

instance (monomials : List (Monomial K)) : Decidable (AdditionsReturn monomials) :=
  inferInstanceAs (Decidable (∀ powers ∈ powersOf monomials,
    ∃ total, leftSum (coefficientsFor powers monomials) = .ok total))

/-- Where all additions return, there is a sum from left to right. -/
theorem AdditionsReturn.exists_leftSum {monomials : List (Monomial K)} (returns : AdditionsReturn monomials)
    (powers : PowerProduct) : ∃ total, leftSum (coefficientsFor powers monomials) = .ok total := by
  by_cases given : powers ∈ powersOf monomials
  · exact returns powers given
  · rw [coefficientsFor_of_not_mem given]
    exact ⟨none, rfl⟩

/-- Monomials are absorbed where all additions return. -/
theorem exists_foldlM_absorb {monomials sum : List (Monomial K)} (distinct : (powersOf sum).Nodup)
    (returns : AdditionsReturn (sum ++ monomials)) : ∃ merged, monomials.foldlM absorb sum = .ok merged := by
  induction monomials generalizing sum with
  | nil => exact ⟨sum, rfl⟩
  | cons head rest hypothesis =>
      -- The sum for the powers of the first monomial returns only if that of its first part does.
      obtain ⟨total, added⟩ := returns.exists_leftSum head.powers
      have split : sum ++ head :: rest = (sum ++ [head]) ++ rest := by simp
      rw [split, coefficientsFor_append, leftSum_append, bind_eq_ok] at added
      obtain ⟨part, partAdded, -⟩ := added
      rw [← leftSum_absorb distinct, bind_eq_ok] at partAdded
      obtain ⟨next, headCase, -⟩ := partAdded
      have later : AdditionsReturn (next ++ rest) := fun powers _ => by
        rw [leftSum_absorb_append distinct headCase]
        exact returns.exists_leftSum powers
      obtain ⟨merged, restCase⟩ := hypothesis (nodup_absorb distinct headCase) later
      exact ⟨merged, by rw [List.foldlM_cons, bind_eq_ok]; exact ⟨next, headCase, restCase⟩⟩

/-- No sum is changed by the merging. -/
theorem leftSum_ofMonomials {monomials : List (Monomial K)} {polynomial : Polynomial K}
    (returned : ofMonomials monomials = .ok polynomial) (powers : PowerProduct) :
    leftSum (coefficientsFor powers polynomial.monomials) =
      leftSum (coefficientsFor powers monomials) := by
  obtain ⟨merged, mergedCase, rfl⟩ := map_eq_ok.1 returned
  have empty : (powersOf ([] : List (Monomial K))).Nodup := .nil
  exact leftSum_foldlM_absorb empty mergedCase powers

/-- A single coefficient is its own sum. -/
theorem leftSum_of_distinct {polynomial : Polynomial K} (distinct : polynomial.Distinct)
    {item : Monomial K} (member : item ∈ polynomial.monomials) :
    leftSum (coefficientsFor item.powers polynomial.monomials) = .ok (some item.coefficient) := by
  rw [coefficientsFor_of_nodup distinct member]
  rfl

/-- Without repeated products nothing is added. -/
theorem additionsReturn_of_distinct {polynomial : Polynomial K} (distinct : polynomial.Distinct) :
    AdditionsReturn polynomial.monomials := by
  intro powers given
  obtain ⟨item, member, rfl⟩ := List.mem_map.1 given
  exact ⟨_, leftSum_of_distinct distinct member⟩

/-- Monomials can be merged exactly when the coefficients for each product of powers can be added. -/
theorem ofMonomials_returns_iff {monomials : List (Monomial K)} :
    (∃ polynomial, ofMonomials monomials = .ok polynomial) ↔ AdditionsReturn monomials := by
  constructor
  · rintro ⟨polynomial, returned⟩ powers -
    rw [← leftSum_ofMonomials returned]
    exact (additionsReturn_of_distinct (settled_ofMonomials returned).distinct).exists_leftSum powers
  · intro returns
    have empty : (powersOf ([] : List (Monomial K))).Nodup := .nil
    obtain ⟨merged, mergedCase⟩ := exists_foldlM_absorb empty returns
    exact ⟨_, map_eq_ok.2 ⟨merged, mergedCase, rfl⟩⟩

/-- There is one monomial for each product of powers, in the order of first occurrence, and its
coefficient is the sum from left to right of those given for the powers. -/
structure Gathers (polynomial : Polynomial K) (monomials : List (Monomial K)) : Prop where
  powers : powersOf polynomial.monomials = (powersOf monomials).eraseDups
  coefficient : ∀ item ∈ polynomial.monomials,
    leftSum (coefficientsFor item.powers monomials) = .ok (some item.coefficient)
  univariate : polynomial.univariate = isUnivariate polynomial.monomials

/-- What a merged polynomial has gathered. -/
theorem gathers_of_ofMonomials {monomials : List (Monomial K)} {polynomial : Polynomial K}
    (returned : ofMonomials monomials = .ok polynomial) : polynomial.Gathers monomials := by
  have settled := settled_ofMonomials returned
  refine ⟨?_, fun item member => ?_, settled.flag⟩
  · obtain ⟨merged, mergedCase, rfl⟩ := map_eq_ok.1 returned
    rw [powersOf_merge mergedCase, foldl_appendNew_eq_eraseDups]
  · rw [← leftSum_ofMonomials returned, leftSum_of_distinct settled.distinct member]

/-- A gathered polynomial has the products of the list and no others. -/
theorem Gathers.mem_powersOf {polynomial : Polynomial K} {monomials : List (Monomial K)}
    (gathers : polynomial.Gathers monomials) (powers : PowerProduct) :
    powers ∈ powersOf polynomial.monomials ↔ powers ∈ powersOf monomials := by
  rw [gathers.powers, List.mem_eraseDups]

/-- Merging a settled polynomial again changes nothing. -/
theorem Settled.ofMonomials_eq {polynomial : Polynomial K} (settled : polynomial.Settled) :
    ofMonomials polynomial.monomials = .ok polynomial := by
  rw [ofMonomials_of_nodup settled.distinct, ← settled.flag]

/-- Merging represents the sum of the monomials. -/
theorem represents_ofMonomials {monomials : List (Monomial Number)}
    (covered : Reading.integers.Covers monomials) :
    Represents (ofMonomials monomials) (Reading.integers.formal monomials)
      (powersOf monomials).toFinset := by
  obtain ⟨polynomial, returned, integers, form⟩ := Reading.returns_ofMonomials covered
  refine ⟨polynomial, returned, ⟨integers, (settled_ofMonomials returned).distinct⟩, form, ?_⟩
  ext powers
  rw [mem_support, (gathers_of_ofMonomials returned).mem_powersOf, List.mem_toFinset]

/-- Integer monomials may be merged in any order. -/
theorem agree_of_perm {first second : List (Monomial Number)}
    (covered : Reading.integers.Covers first) (order : first.Perm second) :
    Agree (ofMonomials first) (ofMonomials second) :=
  (represents_ofMonomials covered).agree (represents_ofMonomials (Reading.covers_perm covered order))
    (Reading.formal_perm order) (toFinset_powersOf_perm order)

/-- A part of a list can be merged first, and its monomials may then stand anywhere among the others. -/
theorem exists_ofMonomials_part {monomials part others : List (Monomial Number)}
    (covered : Reading.integers.Covers monomials) (parts : monomials.Perm (part ++ others)) :
    ∃ merged, ofMonomials part = .ok merged ∧
      ∀ arranged : List (Monomial Number), arranged.Perm (merged.monomials ++ others) →
        Agree (ofMonomials arranged) (ofMonomials monomials) := by
  obtain ⟨partCovered, othersCovered⟩ :=
    List.forall_mem_append.1 (Reading.covers_perm covered parts)
  obtain ⟨merged, returned, integral, form, support⟩ := represents_ofMonomials partCovered
  refine ⟨merged, returned, fun arranged order => ?_⟩
  have arrangedCovered : Reading.integers.Covers arranged :=
    Reading.covers_perm (Reading.covers_append integral.covers othersCovered) order.symm
  apply (represents_ofMonomials arrangedCovered).agree (represents_ofMonomials covered)
  · change Reading.integers.formal merged.monomials = _ at form
    rw [Reading.formal_perm order, Reading.formal_append, form, ← Reading.formal_append,
      Reading.formal_perm parts]
  · change (powersOf merged.monomials).toFinset = _ at support
    rw [toFinset_powersOf_perm order, toFinset_powersOf_perm parts]
    unfold powersOf at support ⊢
    rw [List.map_append, List.map_append, List.toFinset_append, List.toFinset_append, support]

/-- A list of monomials can be merged exactly when the coefficients for each product of powers can be
added. Their sums are then gathered in the order of first occurrence; no product of powers is lost, and
nothing is left to merge. With integer coefficients all orders of the list give equal polynomials, also
when any part of it is merged beforehand. -/
theorem ofMonomials_gathers (monomials : List (Monomial Number)) :
    ((∃ polynomial, ofMonomials monomials = .ok polynomial) ↔ AdditionsReturn monomials) ∧
    (AdditionsReturn monomials → ∃ polynomial, ofMonomials monomials = .ok polynomial ∧
      polynomial.Gathers monomials ∧
      (∀ powers, powers ∈ powersOf polynomial.monomials ↔ powers ∈ powersOf monomials) ∧
      ofMonomials polynomial.monomials = .ok polynomial) ∧
    ((∀ item ∈ monomials, ∃ value, item.coefficient = .integer value) →
      (∀ permuted : List (Monomial Number), monomials.Perm permuted →
        Agree (ofMonomials monomials) (ofMonomials permuted)) ∧
      ∀ part others : List (Monomial Number), monomials.Perm (part ++ others) →
        ∃ merged, ofMonomials part = .ok merged ∧
          ∀ arranged : List (Monomial Number), arranged.Perm (merged.monomials ++ others) →
            Agree (ofMonomials arranged) (ofMonomials monomials)) := by
  refine ⟨ofMonomials_returns_iff, fun returns => ?_, fun integers =>
    ⟨fun permuted => agree_of_perm integers, fun part others => exists_ofMonomials_part integers⟩⟩
  obtain ⟨polynomial, returned⟩ := ofMonomials_returns_iff.2 returns
  have gathers := gathers_of_ofMonomials returned
  exact ⟨polynomial, returned, gathers, gathers.mem_powersOf,
    (settled_ofMonomials returned).ofMonomials_eq⟩

def squareAndConstant : List (Monomial Number) :=
  [⟨.integer 3, .power 2 2⟩, ⟨.integer 5, .one⟩]

/-- The first monomial cancels a square, and a product of two variables stands twice. -/
def cancellingSummands : List (Monomial Number) :=
  [⟨.integer (-3), .power 2 2⟩, ⟨.integer 1, .ofFactors [.linear 2, .linear 4]⟩, ⟨.integer 2, .one⟩,
    ⟨.integer 4, .ofFactors [.linear 2, .linear 4]⟩]

/-- The cancelled square keeps its place with the coefficient zero, whether the later monomials are
merged beforehand or not. -/
theorem ofMonomials_gathers_cancelledSquare :
    let monomials := squareAndConstant ++ cancellingSummands
    AdditionsReturn monomials ∧
      (∀ item ∈ monomials, ∃ value, item.coefficient = .integer value) ∧
      (∃ polynomial, ofMonomials monomials = .ok polynomial ∧ polynomial.Gathers monomials ∧
        polynomial = ⟨[⟨.integer 0, .power 2 2⟩, ⟨.integer 7, .one⟩,
          ⟨.integer 5, .ofFactors [.linear 2, .linear 4]⟩], false⟩ ∧
        ofMonomials polynomial.monomials = .ok polynomial) ∧
      Agree (ofMonomials monomials) (ofMonomials (cancellingSummands ++ squareAndConstant)) ∧
      ∃ merged, ofMonomials cancellingSummands = .ok merged ∧
        Agree (ofMonomials (squareAndConstant ++ merged.monomials)) (ofMonomials monomials) := by
  intro monomials
  obtain ⟨-, gathered, ordered⟩ := ofMonomials_gathers monomials
  have returns : AdditionsReturn monomials := by decide +kernel
  have integers : ∀ item ∈ monomials, ∃ value, item.coefficient = .integer value := by
    simp [monomials, squareAndConstant, cancellingSummands]
  have computed : ofMonomials monomials = .ok ⟨[⟨.integer 0, .power 2 2⟩, ⟨.integer 7, .one⟩,
      ⟨.integer 5, .ofFactors [.linear 2, .linear 4]⟩], false⟩ := rfl
  obtain ⟨polynomial, returned, gathers, -, again⟩ := gathered returns
  obtain ⟨orders, parts⟩ := ordered integers
  obtain ⟨merged, mergedCase, agrees⟩ := parts cancellingSummands squareAndConstant List.perm_append_comm
  exact ⟨returns, integers,
    ⟨polynomial, returned, gathers, Except.ok.inj (returned.symm.trans computed), again⟩,
    orders _ List.perm_append_comm, merged, mergedCase, agrees _ List.perm_append_comm⟩

end Polynomial

end TrigAlgebra
