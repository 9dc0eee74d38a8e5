/-
This file proves that objects behave like values although they are kept in memory and change in place: an
object keeps its content until an operation in place has the object itself as its target.
-/

import TrigAlgebra.Proofs.HeapSessions

namespace TrigAlgebra.HeapSession

open TrigAlgebra.Heap TrigAlgebra.Session

/-- No step of a run has the object as its target when its turn comes. -/
def Untouched (reference : Nat) (session : HeapSession) : List Step → Prop
  | [] => True
  | step :: rest =>
      session.shown.target? step.action ≠ some reference ∧ Untouched reference (session.take step).session rest

instance decidableUntouched (reference : Nat) :
    (session : HeapSession) → (steps : List Step) → Decidable (Untouched reference session steps)
  | _, [] => .isTrue trivial
  | session, step :: rest =>
      have := decidableUntouched reference (session.take step).session rest
      inferInstanceAs (Decidable (_ ∧ _))

/-- The session that the steps lead to, from nothing on. -/
def after (steps : List Step) : HeapSession :=
  steps.foldl (fun session step => (session.take step).session) {}

variable {session : HeapSession} {reference : Nat} {object : HeapObject}

/-- Objects are separate after every run from nothing on. -/
theorem separate_after (steps : List Step) : (after steps).Separate := by
  have later (session : HeapSession) (separate : session.Separate) :
      (steps.foldl (fun session step => (session.take step).session) session).Separate := by
    induction steps generalizing session with
    | nil => exact separate
    | cons step rest hypothesis => exact hypothesis _ (matches_take separate step).separate
  exact later {} separate_empty

/-- A step that makes something puts it after all others. -/
theorem prefix_finish (program : Program Made) :
    session.objects <+: (session.finish program).session.objects := by
  unfold finish
  dsimp only
  split
  · rename_i made _
    cases made with
    | value value => exact List.prefix_rfl
    | object object => exact List.prefix_append _ _
  · exact List.prefix_rfl

/-- An operation in place adds at most the object that takes the name over. -/
theorem prefix_updateStep (operator : Operator) (target operand : Value) :
    session.objects <+: (session.updateStep operator target operand).session.objects := by
  unfold updateStep
  dsimp only
  split
  · split
    · split
      · exact List.prefix_rfl
      · exact prefix_finish _
    · exact List.prefix_rfl
    · exact prefix_finish _
  · exact prefix_finish _

theorem prefix_renameStep (target : Value) (old new : Int) :
    session.objects <+: (session.renameStep target old new).session.objects := by
  unfold renameStep
  split
  · split <;> exact List.prefix_rfl
  · exact List.prefix_rfl

/-- Actions keep all references. -/
theorem prefix_perform (action : Action) : session.objects <+: (session.perform action).session.objects := by
  unfold perform
  split
  · split
    · exact List.prefix_rfl
    · exact List.prefix_rfl
    · exact prefix_updateStep _ _ _
  · split
    · exact List.prefix_rfl
    · exact prefix_renameStep _ _ _
  · exact prefix_finish _

/-- Objects are only added. -/
theorem prefix_take (session : HeapSession) (step : Step) :
    session.objects <+: (session.take step).session.objects := by
  have performed : session.objects <+: (session.perform step.action).session.objects :=
    prefix_perform step.action
  unfold take
  dsimp only
  split <;> exact performed

/-- A step changes no object but its target, whether it returns or fails. -/
theorem take_untouched (separate : session.Separate) (found : session.objects[reference]? = some object)
    {step : Step} (untouched : session.shown.target? step.action ≠ some reference) :
    (session.take step).session.objects[reference]? = some object ∧
      object.content (session.take step).session.heap = object.content session.heap := by
  obtain ⟨bound, -⟩ := List.getElem?_eq_some_iff.1 found
  have stays : (session.take step).session.objects[reference]? = some object := by
    obtain ⟨more, extended⟩ := prefix_take session step
    rw [← extended, List.getElem?_append_left bound]
    exact found
  have isShown : session.shown.objects[reference]? = some (object.content session.heap) := by
    rw [getElem?_shown, found]
    rfl
  have kept := take_keeps isShown untouched
  rw [← (matches_take separate step).session_eq, getElem?_shown, stays] at kept
  exact ⟨stays, Option.some.inj kept⟩

/-- Every outcome of the run has the object where it was and as it was. -/
theorem run_keeps (steps : List Step) (separate : session.Separate)
    (found : session.objects[reference]? = some object) (untouched : Untouched reference session steps) :
    ∀ outcome ∈ session.run steps, outcome.session.objects[reference]? = some object ∧
      object.content outcome.session.heap = object.content session.heap := by
  induction steps generalizing session with
  | nil => exact fun outcome member => (List.not_mem_nil member).elim
  | cons step rest hypothesis =>
      rw [run, List.forall_mem_cons]
      have next := take_untouched separate found untouched.1
      have later := hypothesis (matches_take separate step).separate next.1 untouched.2
      exact ⟨next, fun outcome member => (later outcome member).imp_right fun same => same.trans next.2⟩

/-- Two polynomials that point to one list, which no run from nothing on makes. -/
def sharing : HeapSession where
  heap := ⟨#[[.constant (.integer 2)]], #[⟨0, true⟩, ⟨0, true⟩], #[]⟩
  objects := [.polynomial 0, .polynomial 1]

/-- The second polynomial changes although the first one is the target. -/
example : (sharing.take ⟨.update .add (.literal (.object 0)) (.literal (.number (.integer 3))),
    none⟩).session.shown.objects[1]? = some (.polynomial (.constant (.integer 5))) := rfl

/-- An object keeps its content for as long as no operation in place has it as its target. -/
theorem run_untouched (earlier later : List Step) (reference : Nat) (object : HeapObject)
    (found : (after earlier).objects[reference]? = some object)
    (untouched : Untouched reference (after earlier) later) :
    ∀ outcome ∈ (after earlier).run later, outcome.session.objects[reference]? = some object ∧
      object.content outcome.session.heap = object.content (after earlier).heap :=
  run_keeps later (separate_after earlier) found untouched

def builds : List Step :=
  [⟨.constant (.literal (.number (.integer 2))), some "plain"⟩,
    ⟨.trig (.source (.literal (.number (.integer 3)))) [(2, ⟨4, 6⟩)], some "trig"⟩]

def takesOver : List Step :=
  [⟨.update .add (.register "plain") (.register "trig"), some "plain"⟩,
    ⟨.update .multiply (.register "plain") (.register "plain"), none⟩,
    ⟨.operate .divide (.register "trig") (.register "unknown"), none⟩,
    ⟨.update .multiply (.register "trig") (.literal (.number (.integer 5))), none⟩]

def sineOfTrig : Step := ⟨.circular .sine .function (.register "trig"), none⟩

def withAngle (value : Int) : Content :=
  .trig ⟨.constant (.integer value), .ofList [(2, ⟨4, 6⟩)]⟩

/-- The name goes over to a new object, which then changes without the old one. -/
theorem run_untouched_takesOver :
    (after builds).objects[0]? = some (.polynomial 0) ∧
      Untouched 0 (after builds) (takesOver ++ [sineOfTrig]) ∧
      (∀ outcome ∈ (after builds).run (takesOver ++ [sineOfTrig]),
        outcome.session.objects[0]? = some (.polynomial 0) ∧
          (HeapObject.polynomial 0).content outcome.session.heap = .polynomial (.constant (.integer 2))) ∧
      ((((after builds).run takesOver).map Outcome.shown).map fun outcome => outcome.session.objects).getLast? =
        some [.polynomial (.constant (.integer 2)), withAngle 15, withAngle 25] := by
  have found : (after builds).objects[0]? = some (.polynomial 0) := rfl
  have untouched : Untouched 0 (after builds) (takesOver ++ [sineOfTrig]) := by decide +kernel
  refine ⟨found, untouched, run_untouched builds _ 0 (.polynomial 0) found untouched, ?_⟩
  rw [shown_run _ (separate_after builds)]
  rfl

end TrigAlgebra.HeapSession
