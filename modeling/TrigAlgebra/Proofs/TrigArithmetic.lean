/-
This file evaluates sums, differences and products of trigonometric polynomials: with coefficients
from a commutative ring, their values are those of the values of the operands, although more sines and
cosines are derived for them than for each operand.
-/

import TrigAlgebra.Proofs.DenseEvaluation
import TrigAlgebra.Proofs.DerivedValues
import TrigAlgebra.Proofs.Rotations

namespace TrigAlgebra

instance {Holds : Circular → Prop} [DecidablePred Holds] : Decidable (∀ function, Holds function) :=
  decidable_of_iff (Holds .sine ∧ Holds .cosine)
    ⟨fun both function => function.rec both.1 both.2, fun all => ⟨all .sine, all .cosine⟩⟩

namespace AngleMap

/-- Two maps have the same placeholders for each angle that both of them have. -/
def Agree (first second : AngleMap) : Prop :=
  ∀ angle placeholders others, first.find? angle = some placeholders →
    second.find? angle = some others → placeholders = others

theorem mem_setEntry_iff {angle : Int} {placeholders : Placeholders} {entries : List (Int × Placeholders)}
    (agree : ∀ others, (angle, others) ∈ entries → others = placeholders) {entry : Int × Placeholders} :
    entry ∈ setEntry angle placeholders entries ↔ entry = (angle, placeholders) ∨ entry ∈ entries := by
  induction entries with
  | nil => simp [setEntry]
  | cons head rest hypothesis =>
      unfold setEntry
      split
      · rename_i same
        have equal : head = (angle, placeholders) := by
          subst same
          exact Prod.ext rfl (agree head.2 List.mem_cons_self)
        rw [equal, List.mem_cons, or_self_left]
      · rw [List.mem_cons, List.mem_cons,
          hypothesis fun others member => agree others (List.mem_cons_of_mem _ member), or_left_comm]

theorem mem_foldl_set {entries : List (Int × Placeholders)} {angles : AngleMap}
    (distinct : (entries.map Prod.fst).Nodup)
    (agree : ∀ entry ∈ entries, ∀ others, (entry.1, others) ∈ angles.entries → others = entry.2)
    {entry : Int × Placeholders} :
    entry ∈ (entries.foldl (fun angles entry => angles.set entry.1 entry.2) angles).entries ↔
      entry ∈ angles.entries ∨ entry ∈ entries := by
  induction entries generalizing angles with
  | nil => simp
  | cons head rest hypothesis =>
      rw [List.map_cons, List.nodup_cons] at distinct
      rw [List.forall_mem_cons] at agree
      have written (entry : Int × Placeholders) : entry ∈ (angles.set head.1 head.2).entries ↔
          entry = head ∨ entry ∈ angles.entries := mem_setEntry_iff agree.1
      have agreeNext : ∀ entry ∈ rest, ∀ others,
          (entry.1, others) ∈ (angles.set head.1 head.2).entries → others = entry.2 := by
        intro entry member others known
        rcases (written _).1 known with same | old
        · have angle : entry.1 = head.1 := by rw [← same]
          exact (distinct.1 (List.mem_map.2 ⟨entry, member, angle⟩)).elim
        · exact agree.2 entry member others old
      rw [List.foldl_cons, hypothesis distinct.2 agreeNext, written, List.mem_cons, or_assoc, or_left_comm]

/-- Maps that agree are joined without loss. -/
theorem mem_update {first second : AngleMap} (agree : first.Agree second) {entry : Int × Placeholders} :
    entry ∈ (first.update second).entries ↔ entry ∈ first.entries ∨ entry ∈ second.entries := by
  refine mem_foldl_set second.distinct fun entry member others known => ?_
  exact agree entry.1 others entry.2 (find?_eq_some.2 known) (find?_eq_some.2 member)

/-- No placeholder is itself an angle, and none belongs to two angles. -/
structure Separated (entries : List (Int × Placeholders)) : Prop where
  notAngle : ∀ entry ∈ entries, ∀ other ∈ entries, ∀ function, entry.2.of function ≠ other.1
  unshared : ∀ entry ∈ entries, ∀ other ∈ entries, ∀ function otherFunction,
    entry.2.of function = other.2.of otherFunction → entry = other

instance (entries : List (Int × Placeholders)) : Decidable (Separated entries) :=
  decidable_of_iff
    ((∀ entry ∈ entries, ∀ other ∈ entries, ∀ function, entry.2.of function ≠ other.1) ∧
      ∀ entry ∈ entries, ∀ other ∈ entries, ∀ function otherFunction,
        entry.2.of function = other.2.of otherFunction → entry = other)
    ⟨fun both => ⟨both.1, both.2⟩, fun separated => ⟨separated.notAngle, separated.unshared⟩⟩

theorem Separated.mono {entries others : List (Int × Placeholders)} (separated : Separated entries)
    (inside : others ⊆ entries) : Separated others :=
  ⟨fun entry member other isOther => separated.notAngle entry (inside member) other (inside isOther),
    fun entry member other isOther => separated.unshared entry (inside member) other (inside isOther)⟩

end AngleMap

open AngleMap

namespace Assignment

section

variable {K : Type} [Coefficient K] {values result : Assignment K} {entries : List (Int × Placeholders)}

/-- An entry changes nothing but its placeholders. -/
theorem deriveEntry_frame {entry : Int × Placeholders} {next : Assignment K}
    (returned : values.deriveEntry entry = .ok next) {var : Int}
    (free : ∀ function, entry.2.of function ≠ var) : next var = values var := by
  rw [deriveEntry_eq, map_eq_ok] at returned
  obtain ⟨new, offered, rfl⟩ := returned
  apply orElse_of_eq_none
  by_contra written
  obtain ⟨function, same⟩ := exists_of_offer offered written
  exact free function same

theorem foldlM_frame (returned : entries.foldlM deriveEntry values = .ok result) {var : Int}
    (free : ∀ entry ∈ entries, ∀ function, entry.2.of function ≠ var) : result var = values var := by
  induction entries generalizing values with
  | nil =>
      cases returned
      rfl
  | cons head rest hypothesis =>
      rw [List.forall_mem_cons] at free
      rw [List.foldlM_cons, bind_eq_ok] at returned
      obtain ⟨next, first, later⟩ := returned
      exact (hypothesis later free.2).trans (deriveEntry_frame first free.1)

theorem keeps_foldlM (returned : entries.foldlM deriveEntry values = .ok result) :
    values.Keeps result := by
  induction entries generalizing values with
  | nil =>
      cases returned
      exact fun _ _ given => given
  | cons head rest hypothesis =>
      rw [List.foldlM_cons, bind_eq_ok] at returned
      obtain ⟨next, first, later⟩ := returned
      have kept : values.Keeps next := Keeps.deriveEntry (fun _ _ given => given) first
      exact fun var value given => hypothesis later var value (kept var value given)

/-- What an entry brings depends on the given values only. -/
def Brings (values : Assignment K) (entry : Int × Placeholders) (result : Assignment K) : Prop :=
  ∃ new, values.offer entry = .ok new ∧
    ∀ function, result (entry.2.of function) = values.orElse new (entry.2.of function)

/-- Separated entries bring their values without regard to each other. -/
theorem brings_of_foldlM (distinct : entries.Nodup) (separated : Separated entries)
    (returned : entries.foldlM deriveEntry values = .ok result) :
    ∀ entry ∈ entries, values.Brings entry result := by
  induction entries generalizing values with
  | nil => exact fun entry member => (List.not_mem_nil member).elim
  | cons head rest hypothesis =>
      rw [List.nodup_cons] at distinct
      rw [List.foldlM_cons, bind_eq_ok] at returned
      obtain ⟨next, first, later⟩ := returned
      have inside : rest ⊆ head :: rest := List.subset_cons_self head rest
      have others := hypothesis distinct.2 (separated.mono inside) later
      have unshared {entry : Int × Placeholders} (member : entry ∈ rest) (function other : Circular) :
          head.2.of function ≠ entry.2.of other := by
        intro same
        have equal := separated.unshared head List.mem_cons_self entry (inside member) _ _ same
        exact distinct.1 (equal ▸ member)
      rw [List.forall_mem_cons]
      constructor
      · rw [deriveEntry_eq, map_eq_ok] at first
        obtain ⟨new, offered, rfl⟩ := first
        refine ⟨new, offered, fun function => foldlM_frame later fun entry member other same => ?_⟩
        exact unshared member function other same.symm
      · intro entry member
        obtain ⟨new, offered, brought⟩ := others entry member
        have angle : next entry.1 = values entry.1 := deriveEntry_frame first
          fun function => separated.notAngle head List.mem_cons_self entry (inside member) function
        refine ⟨new, (offer_congr angle).symm.trans offered, fun function => ?_⟩
        have placeholder : next (entry.2.of function) = values (entry.2.of function) :=
          deriveEntry_frame first fun other => unshared member other function
        rw [brought function, orElse, orElse, placeholder]

/-- The derivation returns when each entry can be computed from the given values. -/
theorem exists_foldlM (separated : Separated entries)
    (computed : ∀ entry ∈ entries, ∃ new, values.offer entry = .ok new) :
    ∃ result, entries.foldlM deriveEntry values = .ok result := by
  induction entries generalizing values with
  | nil => exact ⟨values, rfl⟩
  | cons head rest hypothesis =>
      have inside : rest ⊆ head :: rest := List.subset_cons_self head rest
      rw [List.forall_mem_cons] at computed
      obtain ⟨new, offered⟩ := computed.1
      have first : values.deriveEntry head = .ok (values.orElse new) := by
        rw [deriveEntry_eq, offered]
        rfl
      have others : ∀ entry ∈ rest, ∃ new', (values.orElse new).offer entry = .ok new' := by
        intro entry member
        have angle : values.orElse new entry.1 = values entry.1 := deriveEntry_frame first
          fun function => separated.notAngle head List.mem_cons_self entry (inside member) function
        rw [offer_congr angle]
        exact computed.2 entry member
      obtain ⟨result, returned⟩ := hypothesis (separated.mono inside) others
      exact ⟨result, by rw [List.foldlM_cons, first]; exact returned⟩

/-- More entries derive more values and change none. -/
theorem keeps_of_subset {more : List (Int × Placeholders)} {larger : Assignment K}
    (inside : entries ⊆ more) (distinct : entries.Nodup) (moreDistinct : more.Nodup)
    (separated : Separated more) (returned : entries.foldlM deriveEntry values = .ok result)
    (returnedMore : more.foldlM deriveEntry values = .ok larger) : result.Keeps larger := by
  intro var value given
  by_cases placeholder : ∃ entry ∈ entries, ∃ function, entry.2.of function = var
  · obtain ⟨entry, member, function, rfl⟩ := placeholder
    obtain ⟨new, offered, brought⟩ :=
      brings_of_foldlM distinct (separated.mono inside) returned entry member
    obtain ⟨same, offeredMore, broughtMore⟩ :=
      brings_of_foldlM moreDistinct separated returnedMore entry (inside member)
    rw [offered] at offeredMore
    cases offeredMore
    rw [broughtMore function, ← brought function, given]
  · push Not at placeholder
    rw [foldlM_frame returned placeholder] at given
    exact keeps_foldlM returnedMore var value given

end

end Assignment

namespace Polynomial

section

variable {K : Type} [Coefficient K] {values larger : Assignment K}

theorem exists_of_evaluate {polynomial : Polynomial K} {value : K}
    (returned : polynomial.evaluate values = .ok value) :
    ∀ var ∈ polynomial.vars, ∃ given, values var = some given := by
  unfold evaluate at returned
  dsimp only at returned
  split at returned
  · rename_i complete
    rw [List.isEmpty_iff, List.filter_eq_nil_iff] at complete
    intro var member
    exact Option.ne_none_iff_exists'.1 (by simpa using complete var member)
  · cases returned

theorem evaluate_of_keeps {polynomial : Polynomial K} {value : K} (keeps : values.Keeps larger)
    (returned : polynomial.evaluate values = .ok value) : polynomial.evaluate larger = .ok value := by
  rw [← returned]
  apply evaluate_congr
  intro var member
  obtain ⟨given, known⟩ := exists_of_evaluate returned var member
  rw [known, keeps var given known]

variable {first second result : Polynomial K}

theorem mem_vars_add (returned : first.add second = .ok result) {var : Int} (member : var ∈ result.vars) :
    var ∈ first.vars ∨ var ∈ second.vars := by
  rw [mem_vars, mem_vars]
  rw [mem_vars, occurs_merge (mergeFrom_eq_ok.1 returned).1, powersOf, List.map_append] at member
  exact occurs_append.1 member

theorem mem_vars_sub (returned : first.sub second = .ok result) {var : Int} (member : var ∈ result.vars) :
    var ∈ first.vars ∨ var ∈ second.vars := by
  rw [mem_vars, mem_vars, ← powersOf_negated second.monomials]
  rw [mem_vars, occurs_merge (mergeFrom_eq_ok.1 returned).1, powersOf, List.map_append] at member
  exact occurs_append.1 member

theorem mem_vars_mul (returned : first.mul second = .ok result) {var : Int} (member : var ∈ result.vars) :
    var ∈ first.vars ∨ var ∈ second.vars := by
  obtain ⟨monomials, written, merged, -⟩ := mul_eq_ok.1 returned
  rw [mem_vars, occurs_merge merged] at member
  rw [mem_vars, mem_vars]
  obtain ⟨product, isProduct, has⟩ := member
  obtain ⟨left, isLeft, right, isRight, rfl⟩ := (mem_powersOf_products written).1 isProduct
  exact (PowerProduct.has_mul.1 has).imp (⟨left, isLeft, ·⟩) (⟨right, isRight, ·⟩)

end

variable {R : Type} [CommRing R] [Coefficient R] [RingCoefficient R] {values : Assignment R}

/-- A polynomial is evaluated when all its variables have values, and then it has its value there. -/
theorem evaluate_eq_ok {polynomial : Polynomial R} {value : R} :
    polynomial.evaluate values = .ok value ↔
      (∀ var ∈ polynomial.vars, ∃ given, values var = some given) ∧
        polynomial.valueAt (fun var => (values var).getD 0) = value := by
  have filled (complete : ∀ var ∈ polynomial.vars, ∃ given, values var = some given) :
      polynomial.evaluate values = .ok (polynomial.valueAt fun var => (values var).getD 0) := by
    rw [← evaluate_eq]
    apply evaluate_congr
    intro var member
    obtain ⟨given, known⟩ := complete var member
    rw [known, Option.getD_some]
  constructor
  · intro returned
    have complete := exists_of_evaluate returned
    exact ⟨complete, Except.ok.inj ((filled complete).symm.trans returned)⟩
  · rintro ⟨complete, rfl⟩
    exact filled complete

variable {first second result : Polynomial R} {firstValue secondValue : R}

/-- A result without further variables is evaluated wherever both operands are. -/
theorem evaluate_of_valueAt {value : R} (ofFirst : first.evaluate values = .ok firstValue)
    (ofSecond : second.evaluate values = .ok secondValue)
    (vars : ∀ var ∈ result.vars, var ∈ first.vars ∨ var ∈ second.vars)
    (same : result.valueAt (fun var => (values var).getD 0) = value) :
    result.evaluate values = .ok value :=
  evaluate_eq_ok.2 ⟨fun var member => (vars var member).elim (exists_of_evaluate ofFirst var)
    (exists_of_evaluate ofSecond var), same⟩

theorem evaluate_add (ofFirst : first.evaluate values = .ok firstValue)
    (ofSecond : second.evaluate values = .ok secondValue) (returned : first.add second = .ok result) :
    result.evaluate values = .ok (firstValue + secondValue) := by
  apply evaluate_of_valueAt ofFirst ofSecond fun _ => mem_vars_add returned
  rw [valueAt_add returned, (evaluate_eq_ok.1 ofFirst).2, (evaluate_eq_ok.1 ofSecond).2]

theorem evaluate_sub (ofFirst : first.evaluate values = .ok firstValue)
    (ofSecond : second.evaluate values = .ok secondValue) (returned : first.sub second = .ok result) :
    result.evaluate values = .ok (firstValue - secondValue) := by
  apply evaluate_of_valueAt ofFirst ofSecond fun _ => mem_vars_sub returned
  rw [valueAt_sub returned, (evaluate_eq_ok.1 ofFirst).2, (evaluate_eq_ok.1 ofSecond).2]

theorem evaluate_mul (ofFirst : first.evaluate values = .ok firstValue)
    (ofSecond : second.evaluate values = .ok secondValue) (returned : first.mul second = .ok result) :
    result.evaluate values = .ok (firstValue * secondValue) := by
  apply evaluate_of_valueAt ofFirst ofSecond fun _ => mem_vars_mul returned
  rw [valueAt_mul returned, (evaluate_eq_ok.1 ofFirst).2, (evaluate_eq_ok.1 ofSecond).2]

end Polynomial

namespace TrigPolynomial

section

variable {K : Type} [Coefficient K] {values : Assignment K} {first second : TrigPolynomial K}

/-- Whatever the operands can be evaluated with, the joined angles derive as well. -/
theorem exists_derive_update (agree : first.angles.Agree second.angles)
    (separated : Separated (first.angles.update second.angles).entries) {firstValue secondValue : K}
    (ofFirst : first.evaluate values = .ok firstValue) (ofSecond : second.evaluate values = .ok secondValue) :
    ∃ derived, values.derive (first.angles.update second.angles) = .ok derived ∧
      first.polynomial.evaluate derived = .ok firstValue ∧
      second.polynomial.evaluate derived = .ok secondValue := by
  obtain ⟨fromFirst, firstDerived, firstReturned⟩ := bind_eq_ok.1 ofFirst
  obtain ⟨fromSecond, secondDerived, secondReturned⟩ := bind_eq_ok.1 ofSecond
  have insideFirst : first.angles.entries ⊆ (first.angles.update second.angles).entries :=
    fun entry member => (mem_update agree).2 (.inl member)
  have insideSecond : second.angles.entries ⊆ (first.angles.update second.angles).entries :=
    fun entry member => (mem_update agree).2 (.inr member)
  have distinct (angles : AngleMap) : angles.entries.Nodup := angles.distinct.of_map _
  have computed : ∀ entry ∈ (first.angles.update second.angles).entries,
      ∃ new, values.offer entry = .ok new := by
    intro entry member
    rcases (mem_update agree).1 member with inFirst | inSecond
    · obtain ⟨new, offered, -⟩ := Assignment.brings_of_foldlM (distinct _) (separated.mono insideFirst)
        firstDerived entry inFirst
      exact ⟨new, offered⟩
    · obtain ⟨new, offered, -⟩ := Assignment.brings_of_foldlM (distinct _) (separated.mono insideSecond)
        secondDerived entry inSecond
      exact ⟨new, offered⟩
  obtain ⟨derived, returned⟩ := Assignment.exists_foldlM separated computed
  have keepsFirst : fromFirst.Keeps derived := Assignment.keeps_of_subset insideFirst (distinct _)
    (distinct _) separated firstDerived returned
  have keepsSecond : fromSecond.Keeps derived := Assignment.keeps_of_subset insideSecond (distinct _)
    (distinct _) separated secondDerived returned
  exact ⟨derived, returned, Polynomial.evaluate_of_keeps keepsFirst firstReturned,
    Polynomial.evaluate_of_keeps keepsSecond secondReturned⟩

end

variable {R : Type} [CommRing R] [Coefficient R] [RingCoefficient R]

/-- Where two trigonometric polynomials have values, so do their sum, their difference and their
product, and these are the sum, the difference and the product of the values. -/
theorem evaluate_arithmetic (first second : TrigPolynomial R) (agree : first.angles.Agree second.angles)
    (separated : Separated (first.angles.update second.angles).entries) (values : Assignment R)
    (firstValue secondValue : R) (ofFirst : first.evaluate values = .ok firstValue)
    (ofSecond : second.evaluate values = .ok secondValue) :
    (∃ sum, first.add second = .ok sum ∧ sum.evaluate values = .ok (firstValue + secondValue)) ∧
    (∃ difference, first.sub second = .ok difference ∧
      difference.evaluate values = .ok (firstValue - secondValue)) ∧
    (∃ product, first.mul second = .ok product ∧
      product.evaluate values = .ok (firstValue * secondValue)) := by
  obtain ⟨derived, joined, left, right⟩ := exists_derive_update agree separated ofFirst ofSecond
  have through {result : TrigPolynomial R} {value : R}
      (angles : result.angles = first.angles.update second.angles)
      (returned : result.polynomial.evaluate derived = .ok value) : result.evaluate values = .ok value := by
    unfold evaluate
    rw [angles, joined]
    exact returned
  obtain ⟨sum, sumCase⟩ := exists_add first second
  obtain ⟨difference, differenceCase⟩ := exists_sub first second
  obtain ⟨product, productCase⟩ := exists_mul first second
  obtain ⟨ofSum, sumAngles⟩ := add_eq_ok.1 sumCase
  obtain ⟨ofDifference, differenceAngles⟩ := sub_eq_ok.1 differenceCase
  obtain ⟨ofProduct, productAngles⟩ := mul_eq_ok.1 productCase
  exact ⟨⟨sum, sumCase, through sumAngles (Polynomial.evaluate_add left right ofSum)⟩,
    ⟨difference, differenceCase, through differenceAngles (Polynomial.evaluate_sub left right ofDifference)⟩,
    ⟨product, productCase, through productAngles (Polynomial.evaluate_mul left right ofProduct)⟩⟩

/-- The sine of an angle, less one. -/
def sineLessOne : TrigPolynomial Int :=
  ⟨⟨[⟨1, .ofFactor (.linear 4)⟩, .constant (-1)], true⟩, .ofList [(2, ⟨4, 6⟩)]⟩

/-- The cosine of the same angle and twice the cosine of another one. -/
def twoCosines : TrigPolynomial Int :=
  ⟨⟨[⟨1, .ofFactor (.linear 6)⟩, ⟨2, .ofFactor (.linear 16)⟩], false⟩,
    .ofList [(12, ⟨14, 16⟩), (2, ⟨4, 6⟩)]⟩

/-- The cosine of the first angle is given and need not be that of the angle. -/
def givenCosine : Assignment Int := .ofList [(2, -1), (6, 5), (12, 0)]

theorem evaluate_arithmetic_givenCosine :
    sineLessOne.angles.Agree twoCosines.angles ∧
      Separated (sineLessOne.angles.update twoCosines.angles).entries ∧
      sineLessOne.evaluate givenCosine = .ok (-2) ∧ twoCosines.evaluate givenCosine = .ok 7 ∧
      (∃ sum, sineLessOne.add twoCosines = .ok sum ∧ sum.evaluate givenCosine = .ok 5) ∧
      (∃ difference, sineLessOne.sub twoCosines = .ok difference ∧
        difference.evaluate givenCosine = .ok (-9)) ∧
      ∃ product, sineLessOne.mul twoCosines = .ok product ∧
        product.evaluate givenCosine = .ok (-14) := by
  have agree : sineLessOne.angles.Agree twoCosines.angles := by
    intro angle placeholders others isFirst isSecond
    have first : (angle, placeholders) ∈ [((2 : Int), Placeholders.mk 4 6)] := find?_eq_some.1 isFirst
    cases List.mem_singleton.1 first
    cases isSecond
    rfl
  have separated : Separated (sineLessOne.angles.update twoCosines.angles).entries := by decide
  have ofFirst : sineLessOne.evaluate givenCosine = .ok (-2) := by decide +kernel
  have ofSecond : twoCosines.evaluate givenCosine = .ok 7 := by decide +kernel
  exact ⟨agree, separated, ofFirst, ofSecond,
    evaluate_arithmetic sineLessOne twoCosines agree separated givenCosine (-2) 7 ofFirst ofSecond⟩

end TrigPolynomial

end TrigAlgebra
