/-
This file says what a failed step leaves behind: everything stays as it was, unless an operation in
place had written monomials that it could not merge.
-/

import TrigAlgebra.Polynomial.Substitution
import TrigAlgebra.Proofs.ArithmeticFaults
import TrigAlgebra.Proofs.SessionEdits
import TrigAlgebra.Session.Run

namespace TrigAlgebra

open TrigAlgebra.Polynomial

namespace Session

/-- The monomials that an operation in place writes before it merges them, if it gets that far. -/
def Operand.draft? (operator : Operator) (polynomial : Numeric) (operand : Operand) :
    Option (List (Monomial Number)) :=
  match operator, operand with
  | .add, .polynomial other => some (polynomial.monomials ++ other.monomials)
  | .subtract, .polynomial other => some (polynomial.monomials ++ negated other.monomials)
  | .multiply, .polynomial other => (products polynomial.monomials other.monomials).toOption
  | _, _ => none

namespace Content

/-- The list that an operation in place merges, if it merges one. -/
def draft? (operator : Operator) (content : Content) (other : View) :
    Option (List (Monomial Number)) :=
  (content.operand? other).bind (Operand.draft? operator content.underlying)

/-- Numbers and polynomials draft the same list wherever they are added. -/
theorem draft?_of_operand? {operator : Operator} {content : Content} {other : View}
    {operand : Operand} (isOperand : other.operand? = some operand) :
    content.draft? operator other = operand.draft? operator content.underlying := by
  unfold draft?
  rw [operand?_of_operand? isOperand]
  rfl

/-- The flag and the angles stay. -/
def withMonomials (content : Content) (monomials : List (Monomial Number)) : Content :=
  match content with
  | .polynomial old => .polynomial { old with monomials := monomials }
  | .trig old => .trig { old with polynomial := { old.polynomial with monomials := monomials } }

/-- Writing a list into an object changes it unless the list was there. -/
theorem withMonomials_eq_self {monomials : List (Monomial Number)} {content : Content} :
    content.withMonomials monomials = content ↔ content.underlying.monomials = monomials := by
  cases content with
  | polynomial content =>
      obtain ⟨old, flag⟩ := content
      simp [withMonomials, underlying, eq_comm]
  | trig content =>
      obtain ⟨⟨old, flag⟩, angles⟩ := content
      simp [withMonomials, underlying, eq_comm]

end Content

/-- The object and the list that an operation in place merges. -/
def updateDraft? (session : Session) (operator : Operator) (target operand : Value) :
    Option (Nat × List (Monomial Number)) :=
  match target with
  | .object reference =>
      (session.objects[reference]?.bind fun content =>
        content.draft? operator (session.follow operand)).map (reference, ·)
  | _ => none

/-- The object and the list that renaming merges. -/
def renameDraft? (session : Session) (target : Value) (old new : Int) :
    Option (Nat × List (Monomial Number)) :=
  match target with
  | .object reference =>
      match session.objects[reference]? with
      | some (.polynomial polynomial) =>
          some (reference, polynomial.monomials.map (Monomial.rename old new))
      | _ => none
  | _ => none

/-- The object that a step writes into before it merges, and the monomials written there. -/
def draft? (session : Session) : Action → Option (Nat × List (Monomial Number))
  | .update operator target operand =>
      match session.read target, session.read operand with
      | .ok target, .ok operand => session.updateDraft? operator target operand
      | _, _ => none
  | .rename source old new =>
      match session.read source with
      | .ok target => session.renameDraft? target old new
      | _ => none
  | _ => none

/-- A failed operation in place has kept its content, or it has written a draft and failed to merge
it. -/
structure Leaves {S : Type} (edit : Edit S) (fault : Fault) (old : S)
    (draft? : Option (List (Monomial Number))) (write : List (Monomial Number) → S) : Prop where
  kept : draft? = none → edit.content = old
  written : ∀ monomials, draft? = some monomials →
    merge monomials = .error fault ∧ edit.content = write monomials

section

variable {S T : Type} {edit : Edit S} {fault : Fault} {old : S}
  {write : List (Monomial Number) → S}

/-- Without a list to merge, nothing is left behind. -/
theorem leaves_none (kept : edit.content = old) : Leaves edit fault old none write :=
  ⟨fun _ => kept, fun _ absurd => nomatch absurd⟩

/-- The list stands unmerged where it was written. -/
theorem leaves_some {monomials : List (Monomial Number)}
    (written : merge monomials = .error fault ∧ edit.content = write monomials) :
    Leaves edit fault old (some monomials) write :=
  ⟨fun absurd => (nomatch absurd), fun _ same => Option.some.inj same ▸ written⟩

/-- What is left behind is left in every wrapping. -/
theorem Leaves.map {draft? : Option (List (Monomial Number))}
    (leaves : Leaves edit fault old draft? write)
    (embed : S → T) : Leaves (edit.map embed) fault (embed old) draft? (embed ∘ write) :=
  ⟨fun none => congrArg embed (leaves.kept none),
    fun monomials some => (leaves.written monomials some).imp_right (congrArg embed)⟩

/-- An edit that is computed beforehand writes nothing when it fails. -/
theorem ofResult_failed {result : Except Fault S}
    (failed : (Edit.ofResult old result).outcome = .error fault) :
    (Edit.ofResult old result).content = old := by
  cases result with
  | error other => rfl
  | ok new => cases failed

end

/-- Merging fails after its list has been written. -/
theorem mergeFrom_failed {polynomial : Numeric} {monomials : List (Monomial Number)} {fault : Fault}
    (failed : (polynomial.mergeFrom monomials).outcome = .error fault) :
    merge monomials = .error fault ∧
      (polynomial.mergeFrom monomials).content = { polynomial with monomials := monomials } := by
  unfold mergeFrom at failed ⊢
  split at failed
  · cases failed
  · rename_i other failure
    cases failed
    exact ⟨failure, rfl⟩

/-- Numbers are never merged in, and a product is written only when it could be computed. -/
theorem edit_failed {operator : Operator} {polynomial : Numeric} {operand : Operand} {fault : Fault}
    (failed : (operand.edit operator polynomial).outcome = .error fault) :
    Leaves (operand.edit operator polynomial) fault polynomial (operand.draft? operator polynomial)
      fun monomials => { polynomial with monomials := monomials } := by
  cases operand with
  | number value =>
      have none : (Operand.number value).draft? operator polynomial = none := by cases operator <;> rfl
      rw [none]
      apply leaves_none
      cases operator with
      | add => exact ofResult_failed failed
      | subtract => exact ofResult_failed failed
      | multiply => exact ofResult_failed failed
      | divide => exact ofResult_failed failed
      | _ => rfl
  | polynomial other =>
      cases operator with
      | add => exact leaves_some (mergeFrom_failed failed)
      | subtract => exact leaves_some (mergeFrom_failed failed)
      | multiply =>
          change (polynomial.multiplyBy other).outcome = _ at failed
          change Leaves (polynomial.multiplyBy other) fault polynomial
            (products polynomial.monomials other.monomials).toOption _
          unfold multiplyBy at failed ⊢
          cases written : products polynomial.monomials other.monomials with
          | error unwritten => exact leaves_none rfl
          | ok monomials =>
              rw [written] at failed
              exact leaves_some (mergeFrom_failed failed)
      | _ => exact leaves_none rfl

/-- Taking over the angles comes last and never fails. -/
theorem joined_failed {edit : Edit Trigonometric} {angles : AngleMap} {fault : Fault}
    (failed : (TrigPolynomial.joined edit angles).outcome = .error fault) :
    edit.outcome = .error fault ∧ (TrigPolynomial.joined edit angles).content = edit.content := by
  obtain ⟨outcome, content⟩ := edit
  cases outcome with
  | error other => exact ⟨failed, rfl⟩
  | ok value => cases failed

/-- A failed operation leaves the polynomial inside unmerged and the angles as they were. -/
theorem editTrigs_failed {operator : Operator} {trig other : Trigonometric} {fault : Fault}
    (failed : (editTrigs operator trig other).outcome = .error fault) :
    Leaves (editTrigs operator trig other) fault trig
      ((Operand.polynomial other.polynomial).draft? operator trig.polynomial)
      fun monomials => { trig with polynomial := { trig.polynomial with monomials := monomials } } := by
  have through (same : editTrigs operator trig other =
      TrigPolynomial.joined (editTrig operator trig (.polynomial other.polynomial)) other.angles) :
      Leaves (editTrigs operator trig other) fault trig
        ((Operand.polynomial other.polynomial).draft? operator trig.polynomial)
        fun monomials => { trig with polynomial := { trig.polynomial with monomials := monomials } } := by
    rw [same] at failed ⊢
    obtain ⟨outcome, content⟩ := joined_failed failed
    have inner := (edit_failed outcome).map fun polynomial => { trig with polynomial := polynomial }
    exact ⟨fun none => content.trans (inner.kept none),
      fun monomials some => (inner.written monomials some).imp_right content.trans⟩
  cases operator with
  | add => exact through rfl
  | subtract => exact through rfl
  | multiply => exact through rfl
  | _ => exact leaves_none rfl

/-- A failed operation in place leaves the drafted list, and nothing without one. -/
theorem editContent_failed {operator : Operator} {content : Content} {other : View}
    {edit : Edit Content}
    {fault : Fault} (found : editContent operator content other = some edit)
    (failed : edit.outcome = .error fault) :
    Leaves edit fault content (content.draft? operator other) content.withMonomials := by
  rcases editContent_cases found with ⟨trig, right, rfl, rfl, rfl⟩ | ⟨trig, operand, rfl, isOperand, rfl⟩ |
    ⟨polynomial, operand, rfl, isOperand, rfl⟩ | ⟨none, same⟩
  · exact (editTrigs_failed failed).map Content.trig
  · rw [Content.draft?_of_operand? isOperand]
    exact ((edit_failed failed).map fun polynomial => { trig with polynomial := polynomial }).map Content.trig
  · rw [Content.draft?_of_operand? isOperand]
    exact (edit_failed failed).map Content.polynomial
  · unfold Content.draft?
    rw [none]
    exact leaves_none same

/-- What the kinds keep from becoming an operation in place has no draft either. -/
theorem draft?_of_editContent_none {operator : Operator} {content : Content} {other : View}
    (missing : editContent operator content other = none) :
    content.draft? operator other = none := by
  unfold editContent at missing
  split at missing
  · cases missing
  · split at missing <;> cases missing
  · rfl
  · rename_i polynomial notTrig
    split at missing
    · rename_i given isOperand
      rw [Content.draft?_of_operand? isOperand]
      rfl
    · cases missing
    · cases missing

theorem set_eq_self {contents : List Content} {reference : Nat} {old new : Content}
    (found : contents[reference]? = some old) :
    contents.set reference new = contents ↔ new = old := by
  obtain ⟨bound, rfl⟩ := List.getElem?_eq_some_iff.1 found
  constructor
  · intro same
    have here := congrArg (·[reference]?) same
    simpa [bound] using here
  · rintro rfl
    exact List.set_getElem_self bound

variable {session : Session}

/-- The session after a failure is the one before, up to a draft that could not be merged. -/
structure Spoiled (session after : Session) (fault : Fault)
    (draft? : Option (Nat × List (Monomial Number))) :
    Prop where
  kept : draft? = none → after = session
  written : ∀ reference monomials, draft? = some (reference, monomials) →
    ∃ content, session.objects[reference]? = some content ∧ merge monomials = .error fault ∧
      after = { session with objects := session.objects.set reference (content.withMonomials monomials) }

theorem spoiled_none {after : Session} {fault : Fault} (same : after = session) :
    Spoiled session after fault none :=
  ⟨fun _ => same, fun _ _ absurd => nomatch absurd⟩

/-- A failed step that makes something leaves the session as it is. -/
theorem finish_failed {result : Traced Product} {fault : Fault}
    (failed : (session.finish result).answer = .error fault) :
    (session.finish result).session = session := by
  unfold finish at failed ⊢
  split
  · rename_i product returned
    rw [returned] at failed
    cases failed
  · rfl

/-- A failed edit spoils its object and no other. -/
theorem replace_failed {reference : Nat} {content : Content} {edit : Edit Content} {fault : Fault}
    {draft? : Option (List (Monomial Number))} (found : session.objects[reference]? = some content)
    (leaves : Leaves edit fault content draft? content.withMonomials) :
    Spoiled session (session.replace reference edit).session fault (draft?.map (reference, ·)) := by
  cases draft? with
  | none =>
      apply spoiled_none
      unfold replace
      rw [leaves.kept rfl, (set_eq_self found).2 rfl]
  | some monomials =>
      obtain ⟨failure, same⟩ := leaves.written monomials rfl
      refine ⟨fun absurd => (nomatch absurd), fun _ _ same' => ?_⟩
      cases same'
      refine ⟨content, found, failure, ?_⟩
      unfold replace
      rw [same]

/-- A failed operation in place spoils its target at most. -/
theorem updateStep_failed {operator : Operator} {target operand : Value} {fault : Fault}
    (failed : (session.updateStep operator target operand).answer = .error fault) :
    Spoiled session (session.updateStep operator target operand).session fault
      (session.updateDraft? operator target operand) := by
  have plain {result : Traced Product} (failed : (session.finish result).answer = .error fault) :
      Spoiled session (session.finish result).session fault none :=
    spoiled_none (finish_failed failed)
  unfold updateStep updateDraft? at *
  dsimp only at failed ⊢
  cases target with
  | object reference =>
      dsimp only at failed ⊢
      cases found : session.objects[reference]? with
      | none =>
          rw [found] at failed
          exact plain failed
      | some content =>
          rw [found] at failed
          dsimp only [Option.bind_some] at failed ⊢
          cases edited : editContent operator content (session.follow operand) with
          | none =>
              rw [edited] at failed
              rw [draft?_of_editContent_none edited]
              exact plain failed
          | some edit =>
              rw [edited] at failed
              have outcome := map_eq_error.1 failed
              exact replace_failed found (editContent_failed edited outcome)
  | _ => exact plain failed

/-- A failed renaming spoils its target at most. -/
theorem renameStep_failed {target : Value} {old new : Int} {fault : Fault}
    (failed : (session.renameStep target old new).answer = .error fault) :
    Spoiled session (session.renameStep target old new).session fault
      (session.renameDraft? target old new) := by
  unfold renameStep renameDraft? at *
  cases target with
  | object reference =>
      dsimp only at failed ⊢
      cases found : session.objects[reference]? with
      | none => exact spoiled_none rfl
      | some content =>
          rw [found] at failed
          cases content with
          | polynomial polynomial =>
              have outcome := map_eq_error.1 failed
              have leaves : Leaves (polynomial.renameIn old new) fault polynomial
                  (some (polynomial.monomials.map (Monomial.rename old new)))
                  fun monomials => { polynomial with monomials := monomials } :=
                leaves_some (mergeFrom_failed outcome)
              exact replace_failed found (leaves.map Content.polynomial)
          | trig content => exact spoiled_none rfl
  | _ => exact spoiled_none rfl

/-- Only the two kinds of actions in place can spoil anything. -/
theorem perform_failed {action : Action} {fault : Fault}
    (failed : (session.perform action).answer = .error fault) :
    Spoiled session (session.perform action).session fault (session.draft? action) := by
  cases action with
  | update operator target operand =>
      dsimp only [perform, draft?] at failed ⊢
      cases targetCase : session.read target with
      | error missing => exact spoiled_none rfl
      | ok target =>
          cases operandCase : session.read operand with
          | error missing => exact spoiled_none rfl
          | ok operand =>
              rw [targetCase, operandCase] at failed
              exact updateStep_failed failed
  | rename source old new =>
      dsimp only [perform, draft?] at failed ⊢
      cases targetCase : session.read source with
      | error missing => exact spoiled_none rfl
      | ok target =>
          rw [targetCase] at failed
          exact renameStep_failed failed
  | _ => exact spoiled_none (finish_failed failed)

/-- A failed step changes nothing unless it is an operation in place that has written other monomials
than before and cannot merge them; then these are left, unmerged, with the old flag and angles, and
everything else stays. -/
theorem take_failed (session : Session) (step : Step) (fault : Fault)
    (failed : (session.take step).answer = .error fault) :
    (session.draft? step.action = none → (session.take step).session = session) ∧
    (∀ reference monomials, session.draft? step.action = some (reference, monomials) →
      ∃ content, session.objects[reference]? = some content ∧ merge monomials = .error fault ∧
        (session.take step).session =
          { session with objects := session.objects.set reference (content.withMonomials monomials) } ∧
        ((session.take step).session = session ↔ content.underlying.monomials = monomials)) := by
  have performed : (session.perform step.action).answer = .error fault ∧
      (session.take step).session = (session.perform step.action).session := by
    unfold take at failed ⊢
    dsimp only at failed ⊢
    split at failed
    · rename_i value name answered named
      exact nomatch answered.symm.trans failed
    · exact ⟨failed, rfl⟩
  obtain ⟨outcome, same⟩ := performed
  have spoiled := perform_failed outcome
  rw [same]
  refine ⟨spoiled.kept, fun reference monomials draft => ?_⟩
  obtain ⟨content, found, failure, after⟩ := spoiled.written reference monomials draft
  refine ⟨content, found, failure, after, ?_⟩
  rw [after, ← Content.withMonomials_eq_self, ← set_eq_self found]
  exact ⟨fun equal => congrArg Session.objects equal, fun equal => by rw [equal]⟩

/-- One more binary digit than the largest rounded number has. -/
def hugeInteger : Int := 1 <<< 1024

theorem add_hugeInteger :
    Number.add (.integer hugeInteger) (.real 1.0) = .error .integerTooLarge := by
  have infinite : (Binary64.ofInt hugeInteger).isFinite = false := by decide +kernel
  have unrounded := Number.floatOfInt_eq_error.2 ⟨infinite, rfl⟩
  change (Number.floatOfInt hugeInteger >>= _) = _
  rw [unrounded]
  rfl

/-- Two constants that cannot be added: a huge integer and a rounded one. -/
def writeConstants : List Step :=
  [⟨.constant (.literal (.number (.integer hugeInteger))), some "huge"⟩,
    ⟨.constant (.literal (.number (.real 1.0))), some "rounded"⟩]

/-- Two constants, of which the first cannot be rounded. -/
def hugeConstants : Session where
  objects := [.polynomial (.constant (.integer hugeInteger)), .polynomial (.constant (.real 1.0))]
  registers := [("rounded", .object 1), ("huge", .object 0)]

def addRounded : Step := ⟨.update .add (.register "huge") (.register "rounded"), none⟩

/-- Two constants that cannot be added stay side by side in the left operand. -/
theorem take_failed_addRounded :
    ((run {} writeConstants).map Outcome.session).getLast? = some hugeConstants ∧
      (hugeConstants.take addRounded).answer = .error .integerTooLarge ∧
      (hugeConstants.take addRounded).session ≠ hugeConstants ∧
      (hugeConstants.take addRounded).session.objects[0]? =
        some (.polynomial ⟨[.constant (.integer hugeInteger), .constant (.real 1.0)], true⟩) := by
  have absorbed : absorb [Monomial.constant (Number.integer hugeInteger)] (.constant (.real 1.0)) =
      .error .integerTooLarge := by
    have alike : (Monomial.constant (Number.integer hugeInteger)).powers =
        (Monomial.constant (Number.real 1.0)).powers := rfl
    rw [absorb, if_pos alike]
    exact map_eq_error.2 add_hugeInteger
  have unmerged : merge [Monomial.constant (Number.integer hugeInteger), .constant (.real 1.0)] =
      .error .integerTooLarge := by
    rw [merge, List.foldlM_cons, bind_eq_error]
    refine .inr ⟨_, rfl, ?_⟩
    rw [List.foldlM_cons, bind_eq_error]
    exact .inl absorbed
  have performed : hugeConstants.perform addRounded.action = hugeConstants.replace 0
      (((constant (.integer hugeInteger)).mergeFrom
        [.constant (.integer hugeInteger), .constant (.real 1.0)]).map .polynomial) := rfl
  have failed : (hugeConstants.take addRounded).answer = .error .integerTooLarge := by
    unfold take
    rw [performed, mergeFrom, unmerged]
    rfl
  obtain ⟨content, found, -, after, unchanged⟩ :=
    (take_failed hugeConstants addRounded .integerTooLarge failed).2 0
      [.constant (.integer hugeInteger), .constant (.real 1.0)] rfl
  cases found
  refine ⟨rfl, failed, ?_, ?_⟩
  · rw [ne_eq, unchanged]
    intro absurd
    cases congrArg List.length absurd
  · rw [after]
    rfl

end Session

end TrigAlgebra
