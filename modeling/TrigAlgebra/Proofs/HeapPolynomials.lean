/-
This file proves that programs on polynomials in memory compute what the operations on polynomials say. A
program in place leaves every other polynomial as it was, and the others work on something new.
-/

import TrigAlgebra.Proofs.HeapPrograms

namespace TrigAlgebra.Program

open TrigAlgebra.Heap TrigAlgebra.Polynomial

variable {heap middle : Heap} {place other : Place}

/-- Merging writes a new list and then the flag, or fails before it writes. -/
theorem edits_mergeList (unshared : heap.Unshared) (inside : heap.Inside place) :
    Edits heap place (mergeList place heap)
      ((heap.polynomial place).mergeFrom (heap.polynomial place).monomials) := by
  unfold mergeList mergeFrom
  rw [read_bind]
  cases merged : merge (heap.polynomial place).monomials with
  | error fault =>
      rw [lift_bind_of_error rfl]
      exact ⟨unshared.keeps, rfl, rfl⟩
  | ok monomials =>
      rw [lift_bind_of_ok rfl]
      change Edits heap place
        ⟨(heap.assigned place monomials).writeFlag place (isUnivariate monomials), pure ()⟩ _
      have assigned : Keeps (some place) none heap (heap.assigned place monomials) :=
        keeps_assigned unshared inside.lt
      have inside' := (assigned.inside inside).lt
      refine ⟨assigned.trans (keeps_writeFlag assigned.unshared inside' _), ?_, rfl⟩
      refine (polynomial_writeFlag inside' _).trans ?_
      rw [polynomial_assigned inside.lt]
      rfl

/-- The monomials are written first, and merged afterwards. -/
theorem Edits.merge {monomials : List (Monomial Number)} (inside : heap.Inside place)
    (written : Keeps (some place) none heap middle)
    (content : middle.polynomial place = ⟨monomials, (heap.polynomial place).univariate⟩) :
    Edits heap place (mergeList place middle) ((heap.polynomial place).mergeFrom monomials) := by
  have merged := edits_mergeList written.unshared (written.inside inside)
  rw [content] at merged
  exact ⟨written.trans merged.keeps, merged.content_eq, merged.traced⟩

/-- The monomials are written only if all of them can be computed. -/
theorem edits_exchange {result : Except Fault (List (Monomial Number))}
    {next : List (Monomial Number) → Program Unit} (unshared : heap.Unshared)
    (step : ∀ monomials, ∃ after, next monomials heap = ⟨after, pure ()⟩ ∧ Keeps (some place) none heap after ∧
      after.polynomial place = ⟨monomials, (heap.polynomial place).univariate⟩) :
    Edits heap place (((liftM result : Program _) >>= next) heap)
      ((heap.polynomial place).exchange result) := by
  cases result with
  | error fault =>
      rw [lift_bind_of_error rfl]
      exact ⟨unshared.keeps, rfl, rfl⟩
  | ok monomials =>
      obtain ⟨after, ended, keeps, content⟩ := step monomials
      rw [lift_bind_of_ok rfl, ended]
      exact ⟨keeps, content, rfl⟩

section Edits

variable (unshared : heap.Unshared) (inside : heap.Inside place)

include unshared inside

/-- A new list takes the place of the old one. -/
theorem assign_step (monomials : List (Monomial Number)) : ∃ after,
    assign place monomials heap = ⟨after, pure ()⟩ ∧ Keeps (some place) none heap after ∧
      after.polynomial place = ⟨monomials, (heap.polynomial place).univariate⟩ :=
  ⟨_, rfl, keeps_assigned unshared inside.lt, polynomial_assigned inside.lt⟩

/-- The monomials of the other polynomial are appended to the list before it is merged. -/
theorem edits_addTo (other : Place) : Edits heap place (addTo place other heap)
    ((heap.polynomial place).addTo (heap.polynomial other)) :=
  Edits.merge inside (keeps_writeList unshared inside.lt) (polynomial_writeList unshared inside.lt)

/-- The negated monomials of the other polynomial are appended before the list is merged. -/
theorem edits_subtractFrom (other : Place) : Edits heap place (subtractFrom place other heap)
    ((heap.polynomial place).subtractFrom (heap.polynomial other)) :=
  Edits.merge inside (keeps_writeList unshared inside.lt) (polynomial_writeList unshared inside.lt)

/-- The products replace the list, which is then merged. -/
theorem edits_multiplyBy (other : Place) : Edits heap place (multiplyBy place other heap)
    ((heap.polynomial place).multiplyBy (heap.polynomial other)) := by
  unfold multiplyBy Polynomial.multiplyBy
  rw [read_bind, read_bind]
  cases products (heap.polynomial place).monomials (heap.polynomial other).monomials with
  | error fault =>
      rw [lift_bind_of_error rfl]
      exact ⟨unshared.keeps, rfl, rfl⟩
  | ok monomials =>
      exact Edits.merge inside (keeps_assigned unshared inside.lt) (polynomial_assigned inside.lt)

/-- A scalar is one more constant monomial. -/
theorem edits_addScalarTo (scalar : Number) : Edits heap place (addScalarTo place scalar heap)
    ((heap.polynomial place).addScalarTo scalar) :=
  edits_exchange unshared fun _ => ⟨_, rfl, keeps_writeList unshared inside.lt,
    polynomial_writeList unshared inside.lt⟩

/-- Every coefficient is multiplied in a list that replaces the old one. -/
theorem edits_scaleBy (scalar : Number) : Edits heap place (scaleBy place scalar heap)
    ((heap.polynomial place).scaleBy scalar) :=
  edits_exchange unshared (assign_step unshared inside)

/-- Every coefficient is divided in a list that replaces the old one. -/
theorem edits_divideBy (scalar : Number) : Edits heap place (divideBy place scalar heap)
    ((heap.polynomial place).divideBy scalar) :=
  edits_exchange unshared (assign_step unshared inside)

/-- Every variable is renamed in a list that replaces the old one, which is then merged. -/
theorem edits_renameIn (old new : Int) : Edits heap place (renameIn place old new heap)
    ((heap.polynomial place).renameIn old new) :=
  Edits.merge inside (keeps_assigned unshared inside.lt) (polynomial_assigned inside.lt)

end Edits

/-- A new polynomial is empty. -/
theorem realizes_newPolynomial (unshared : heap.Unshared) :
    Realizes heap (IsNew heap) (newPolynomial heap) (pure .zero) where
  keeps := keeps_withPolynomial unshared
  notes := rfl
  agree := .ok ⟨Nat.le_refl _, nofun, ⟨size_withPolynomial.trans_gt (Nat.lt_succ_self _), nofun⟩,
    polynomial_withPolynomial⟩

/-- A list of its own is written, and then the flag. -/
theorem edits_written (written : Keeps (some place) none heap middle) (inside : heap.Inside place)
    {monomials : List (Monomial Number)} {univariate : Bool}
    (content : middle.polynomial place = ⟨monomials, univariate⟩) (flag : Bool) :
    Edits heap place ⟨middle.writeFlag place flag, pure ()⟩ (.done ⟨monomials, flag⟩) where
  keeps := written.trans (keeps_writeFlag written.unshared (written.inside inside).lt _)
  content_eq := by
    refine (polynomial_writeFlag (written.inside inside).lt flag).trans ?_
    rw [content]
    rfl
  traced := rfl

/-- What is copied stays as it is, and the copy has a list of its own. -/
theorem realizes_copy (unshared : heap.Unshared) (inside : heap.Inside place) :
    Realizes heap (IsNew heap) (copy place heap) (pure (heap.polynomial place)) := by
  refine realizes_editNew _ (fun _ => .done (heap.polynomial place))
    (realizes_newPolynomial unshared) fun middle fresh content keeps isNew => ?_
  let written := middle.assigned fresh (middle.polynomial place).monomials
  have keepsWritten : Keeps (some fresh) none middle written := keeps_assigned keeps.unshared isNew.inside.lt
  have apart : place ≠ fresh := (inside.lt.trans_le isNew.polynomial).ne
  have source : middle.polynomial place = heap.polynomial place := keeps.polynomial_eq_of_inside inside
  have sourceWritten : written.polynomial place = heap.polynomial place :=
    (keepsWritten.polynomial_eq place (keeps.inside inside).lt fun same => apart (Option.some.inj same)).trans
      source
  change Edits middle fresh ⟨written.writeFlag fresh (written.polynomial place).univariate, pure ()⟩ _
  rw [sourceWritten, ← source]
  exact edits_written keepsWritten isNew.inside (polynomial_assigned isNew.inside.lt) _

/-- A merge that starts from any polynomial ends in the polynomial of the monomials. -/
theorem result_mergeFrom (polynomial : Polynomial Number) (monomials : List (Monomial Number)) :
    (polynomial.mergeFrom monomials).result = Polynomial.ofMonomials monomials := by
  unfold mergeFrom Polynomial.ofMonomials
  cases merge monomials <;> rfl

/-- A new polynomial is given the list, which is then merged. -/
theorem realizes_ofMonomials (unshared : heap.Unshared) (monomials : List (Monomial Number)) :
    Realizes heap (IsNew heap) (ofMonomials monomials heap) (liftM (Polynomial.ofMonomials monomials)) := by
  have built := realizes_editNew (fun fresh => do assign fresh monomials; mergeList fresh)
    (fun content => content.mergeFrom monomials)
    (realizes_newPolynomial unshared) fun middle fresh content keeps isNew => by
      have edits := Edits.merge isNew.inside (keeps_assigned keeps.unshared isNew.inside.lt)
        (polynomial_assigned isNew.inside.lt : (middle.assigned fresh monomials).polynomial fresh = _)
      rw [isNew.polynomial_eq] at edits
      exact edits
  simp only [result_mergeFrom] at built
  exact built

/-- A polynomial that is known is built at a new place. -/
theorem realizes_build (unshared : heap.Unshared) (polynomial : Polynomial Number) :
    Realizes heap (IsNew heap) (build polynomial heap) (pure polynomial) :=
  realizes_editNew _ (fun _ => .done polynomial) (realizes_newPolynomial unshared)
    fun _ _ _ keeps isNew =>
      edits_written (keeps_writeList keeps.unshared isNew.inside.lt) isNew.inside
        (polynomial_writeList keeps.unshared isNew.inside.lt) polynomial.univariate

/-- The copy has all coefficients negated. -/
theorem realizes_neg (unshared : heap.Unshared) (inside : heap.Inside place) :
    Realizes heap (IsNew heap) (neg place heap) (pure (heap.polynomial place).neg) := by
  refine realizes_editNew _ (fun content => .done content.neg) (realizes_copy unshared inside)
    fun middle fresh content keeps isNew => ?_
  refine ⟨keeps_assigned keeps.unshared isNew.inside.lt, ?_, rfl⟩
  refine (polynomial_assigned isNew.inside.lt).trans ?_
  change (middle.polynomial fresh).neg = content.neg
  rw [isNew.polynomial_eq]

/-- A new one is multiplied by the base as often as the exponent says. -/
theorem realizes_pow (unshared : heap.Unshared) (inside : heap.Inside place) (exponent : Nat) :
    Realizes heap (IsNew heap) (pow place exponent heap) (liftM ((heap.polynomial place).pow exponent)) := by
  unfold pow
  induction exponent with
  | zero =>
      exact realizes_editNew _ (fun content => .done content) (realizes_build unshared _)
        fun middle fresh content keeps isNew => ⟨keeps.unshared.keeps, isNew.content_eq, rfl⟩
  | succ exponent hypothesis =>
      have next := realizes_editNew (fun fresh => multiplyBy fresh place)
        (fun content => content.multiplyBy (heap.polynomial place)) hypothesis
        fun middle fresh content keeps isNew => by
          have edits := edits_multiplyBy keeps.unshared isNew.inside place
          rw [isNew.polynomial_eq, keeps.polynomial_eq_of_inside inside] at edits
          exact edits
      rw [editNew_editNew] at next
      rw [Polynomial.pow, lift_of_bind]
      exact next

/-- The monomials that are left make a new polynomial. -/
theorem realizes_evaluatePartial (unshared : heap.Unshared) (values : Assignment Number) :
    Realizes heap (IsNew heap) (evaluatePartial place values heap)
      (liftM ((heap.polynomial place).evaluatePartial values)) := by
  unfold evaluatePartial Polynomial.evaluatePartial
  rw [read_bind, lift_of_bind]
  exact Realizes.lift_bind unshared fun monomials => realizes_ofMonomials unshared monomials

/-- The derivative of order zero is a copy, and every other one a new polynomial of derived monomials. -/
theorem realizes_derivative (unshared : heap.Unshared) (inside : heap.Inside place) (order : Int) :
    Realizes heap (IsNew heap) (derivative place order heap)
      (liftM ((heap.polynomial place).derivative order)) := by
  unfold derivative Polynomial.derivative
  rw [read_bind, lift_of_bind]
  refine Realizes.lift_bind unshared fun _ => ?_
  split
  · exact realizes_fail unshared _
  · split
    · exact realizes_copy unshared inside
    · rw [lift_of_bind]
      exact Realizes.lift_bind unshared fun monomials => realizes_ofMonomials unshared _

/-- The integrated monomials and the constant make a new polynomial. -/
theorem realizes_integral (unshared : heap.Unshared) (constant : Number) :
    Realizes heap (IsNew heap) (integral place constant heap)
      (liftM ((heap.polynomial place).integral constant)) := by
  unfold integral Polynomial.integral
  rw [read_bind, lift_of_bind]
  refine Realizes.lift_bind unshared fun _ => ?_
  rw [lift_of_bind]
  exact Realizes.lift_bind unshared fun monomials => realizes_ofMonomials unshared _

end TrigAlgebra.Program
