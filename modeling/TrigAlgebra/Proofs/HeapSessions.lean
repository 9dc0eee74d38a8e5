/-
This file proves that a session whose polynomials are kept in memory shows the same as a session of values:
no two of its objects ever share a list or an angle map.
-/

import TrigAlgebra.Heap.Session
import TrigAlgebra.Proofs.HeapOperators
import TrigAlgebra.Proofs.SessionFrames

namespace TrigAlgebra.HeapSession

open TrigAlgebra.Heap TrigAlgebra.Program TrigAlgebra.Session TrigAlgebra.Kept

/-- Two objects with nothing in common. -/
def Apart (first second : HeapObject) : Prop :=
  polynomialPlace first ≠ polynomialPlace second ∧ ∀ place ∈ anglesPlace? first, place ∉ anglesPlace? second

/-- All objects are in memory, and no two of them share anything. -/
structure Separate (session : HeapSession) : Prop where
  unshared : session.heap.Unshared
  inside : ∀ object ∈ session.objects, session.heap.Inside object
  apart : session.objects.Pairwise Apart

/-- There are no objects at first. -/
theorem separate_empty : Separate {} := ⟨unshared_empty, nofun, .nil⟩

/-- A session keeps its objects apart, and otherwise ended as a session of values. -/
structure Matches (outcome : Outcome) (expected : Session.Outcome) : Prop where
  separate : outcome.session.Separate
  session_eq : outcome.session.shown = expected.session
  notes : outcome.notes = expected.notes
  answer : outcome.answer = expected.answer

variable {session : HeapSession} {after : Heap} {object : HeapObject} {content : Content}

theorem Apart.symm {first second : HeapObject} (apart : Apart first second) : Apart second first :=
  ⟨apart.1.symm, fun place isSecond isFirst => apart.2 place isFirst isSecond⟩

/-- Objects stay separate while nothing of theirs is written. -/
theorem Separate.keep (separate : session.Separate) (keeps : Keeps none none session.heap after) :
    Separate { session with heap := after } :=
  ⟨keeps.unshared, fun object member => keeps.inside (separate.inside object member), separate.apart⟩

/-- Programs that write nothing old are not seen by the objects. -/
theorem shown_keep (separate : session.Separate) (keeps : Keeps none none session.heap after) :
    shown { session with heap := after } = session.shown := by
  have same : session.objects.map (HeapObject.content after) =
      session.objects.map (HeapObject.content session.heap) :=
    List.map_congr_left fun object member => keeps.content_eq_of_none (separate.inside object member)
  exact congrArg₂ Session.mk same rfl

/-- A new object shares nothing with those before it. -/
theorem Separate.add (separate : session.Separate) (keeps : Keeps none none session.heap after)
    (isNew : IsNew session.heap after object content) :
    Separate { session with heap := after, objects := session.objects ++ [object] } := by
  have kept := separate.keep keeps
  refine ⟨keeps.unshared, ?_, ?_⟩
  · rw [List.forall_mem_append]
    exact ⟨kept.inside, List.forall_mem_singleton.2 isNew.inside⟩
  · refine List.pairwise_append.2 ⟨kept.apart, List.pairwise_singleton _ _, fun older member newer isLast => ?_⟩
    rw [List.mem_singleton] at isLast
    have inside := separate.inside older member
    subst isLast
    exact ⟨(inside.polynomial.trans_le isNew.polynomial).ne, fun place isOld isYoung =>
      Nat.not_lt.2 (isNew.angles place isYoung) (inside.angles place isOld)⟩

/-- A new object is seen as its content after all others. -/
theorem shown_add (separate : session.Separate) (keeps : Keeps none none session.heap after)
    (isNew : IsNew session.heap after object content) :
    shown { session with heap := after, objects := session.objects ++ [object] } =
      { session.shown with objects := session.shown.objects ++ [content] } := by
  have kept := congrArg Session.objects (shown_keep separate keeps)
  change session.objects.map (HeapObject.content after) = _ at kept
  have last : object.content after = content := isNew.content_eq
  refine congrArg₂ Session.mk ?_ rfl
  rw [List.map_append, kept, List.map_singleton, last]

/-- A step that makes something adds it to both sessions. -/
theorem matches_finish (separate : session.Separate) {program : Program Made} {expected : Traced Product}
    (made : Makes session.heap program expected) :
    Matches (session.finish program) (session.shown.finish expected) := by
  obtain ⟨keeps, notes, agree⟩ := made
  unfold HeapSession.finish Session.finish
  generalize program session.heap = ended at keeps notes agree
  obtain ⟨after, written, outcome⟩ := ended
  obtain ⟨expectedNotes, expectedOutcome⟩ := expected
  dsimp only at keeps notes agree ⊢
  cases agree with
  | error fault => exact ⟨separate.keep keeps, shown_keep separate keeps, notes, rfl⟩
  | @ok made product isMade =>
      cases made with
      | value value =>
          cases product with
          | value value' =>
              cases isMade
              exact ⟨separate.keep keeps, shown_keep separate keeps, notes, rfl⟩
          | content content => exact isMade.elim
      | object object =>
          cases product with
          | value value' => exact isMade.elim
          | content content =>
              have count : session.objects.length = session.shown.objects.length := (List.length_map _).symm
              refine ⟨separate.add keeps isMade, shown_add separate keeps isMade, notes, ?_⟩
              exact congrArg (fun count => Except.ok (Value.object count)) count

/-- A refused step leaves both sessions as they are. -/
theorem matches_failed (separate : session.Separate) (fault : Fault) :
    Matches (session.failed fault) (session.shown.failed fault) := ⟨separate, rfl, rfl, rfl⟩

/-- Two references lead to objects that share nothing. -/
theorem Separate.apart_of_ne (separate : session.Separate) {reference other : Nat} {second : HeapObject}
    (found : session.objects[reference]? = some object) (isOther : session.objects[other]? = some second)
    (different : other ≠ reference) : Apart second object := by
  obtain ⟨bound, rfl⟩ := List.getElem?_eq_some_iff.1 found
  obtain ⟨otherBound, rfl⟩ := List.getElem?_eq_some_iff.1 isOther
  have apart := List.pairwise_iff_getElem.1 separate.apart
  rcases Nat.lt_or_gt_of_ne different with before | behind
  · exact apart other reference otherBound bound before
  · exact (apart reference other bound otherBound behind).symm

/-- What is edited in place is the only object that changes, because no other one shares a part of it. -/
theorem matches_change (separate : session.Separate) {reference : Nat} {program : Program Unit}
    {edit : Edit Content} (found : session.objects[reference]? = some object)
    (edits : Edits session.heap object (program session.heap) edit) :
    Matches (session.change reference program) (session.shown.replace reference edit) := by
  have separated : Separate { session with heap := (program session.heap).heap } :=
    ⟨edits.keeps.unshared, fun other member => edits.keeps.inside (separate.inside other member), separate.apart⟩
  refine ⟨separated, congrArg₂ Session.mk (List.ext_getElem? fun index => ?_) rfl,
    congrArg Traced.notes edits.traced, ?_⟩
  · change (session.objects.map (HeapObject.content (program session.heap).heap))[index]? =
      ((session.objects.map (HeapObject.content session.heap)).set reference edit.content)[index]?
    by_cases isTarget : index = reference
    · obtain ⟨bound, -⟩ := List.getElem?_eq_some_iff.1 found
      rw [isTarget, List.getElem?_map, found, List.getElem?_set_self (by rwa [List.length_map])]
      exact congrArg some edits.content_eq
    · rw [List.getElem?_set_ne (Ne.symm isTarget), List.getElem?_map, List.getElem?_map]
      cases isOther : session.objects[index]? with
      | none => rfl
      | some other =>
          have apart := separate.apart_of_ne found isOther isTarget
          refine congrArg some (edits.keeps.content_eq (separate.inside other (List.mem_of_getElem? isOther))
            (fun same => apart.1 (Option.some.inj same)) fun place isPlace same => ?_)
          exact apart.2 place isPlace same.symm
  · change (program session.heap).traced.outcome.map _ = _
    rw [edits.traced]
    rfl

/-- References lead to the same contents in both sessions. -/
theorem view_follow (value : Value) :
    (session.follow value).view session.heap = session.shown.follow value := by
  cases value with
  | object reference =>
      unfold HeapSession.follow
      dsimp only
      change _ = (session.objects.map (HeapObject.content session.heap))[reference]?.elim (.other .nothing)
        Content.view
      rw [List.getElem?_map]
      cases session.objects[reference]? <;> rfl
  | _ => rfl

/-- Objects of a session are inside its memory. -/
theorem sound_follow (separate : session.Separate) (value : Value) :
    (session.follow value).Sound session.heap := by
  have sound {kind : Kind} : (Handle.plain (.other kind)).Sound session.heap := fun content same => by
    cases content <;> cases same
  cases value with
  | object reference =>
      unfold HeapSession.follow
      dsimp only
      cases found : session.objects[reference]? with
      | none => exact sound
      | some object => exact separate.inside object (List.mem_of_getElem? found)
  | _ => first | exact sound | exact fun content same => by cases content <;> cases same

theorem read_shown (source : Source) : session.shown.read source = session.read source := by
  cases source <;> rfl

/-- Sources lead to the same contents in both sessions. -/
theorem look_shown (source : Source) :
    session.shown.look source = (session.hold source).map (Handle.view session.heap) := by
  unfold Session.look hold
  rw [read_shown]
  cases session.read source with
  | error fault => rfl
  | ok value => exact congrArg Except.ok (view_follow value).symm

theorem sound_hold (separate : session.Separate) {source : Source} {handle : Handle}
    (held : session.hold source = .ok handle) : handle.Sound session.heap := by
  obtain ⟨value, -, rfl⟩ := map_eq_ok.1 held
  exact sound_follow separate value

/-- What only looks at contents may look at those that are shown. -/
theorem makes_inspect (separate : session.Separate) (action : Action) :
    Makes session.heap (session.inspect action) (session.shown.compute action) := by
  unfold Makes
  rw [← traced_bind_pure (session.shown.compute action)]
  exact (realizes_traced separate.unshared _).bind fun middle product _ keeps same => by
    cases same
    exact (makes_buildProduct keeps.unshared product).weaken fun _ _ _ _ isMade => isMade.older keeps

/-- A source that cannot be read ends the step. -/
theorem makes_hold (separate : session.Separate) {source : Source} {next : Handle → Program Made}
    {next' : View → Except Fault Product}
    (step : ∀ handle, session.hold source = .ok handle → handle.Sound session.heap →
      Makes session.heap (next handle) (liftM (next' (handle.view session.heap)))) :
    Makes session.heap (do next (← session.hold source))
      (liftM (session.shown.look source >>= next')) := by
  rw [look_shown]
  cases held : session.hold source with
  | error fault => exact realizes_fail separate.unshared fault
  | ok handle => exact step handle held (sound_hold separate held)

section Objects

variable {action : Action} {source : Source} {next' : View → Traced Product}

/-- The program for an object is used, or the step only looks at what is there. -/
theorem makes_onObject (separate : session.Separate) {program? : HeapObject → Option (Program Made)}
    (fails : ∀ fault, session.hold source = .error fault →
      session.shown.compute action = .ofResult (.error fault))
    (step : ∀ object, session.hold source = .ok (.object object) → session.heap.Inside object →
      ∀ program ∈ program? object, Makes session.heap program (session.shown.compute action)) :
    Makes session.heap (session.onObject action source program?) (session.shown.compute action) := by
  have inspects := makes_inspect separate action
  unfold onObject
  cases held : session.hold source with
  | error fault =>
      rw [fails fault held]
      exact realizes_fail separate.unshared fault
  | ok handle =>
      cases handle with
      | plain view => exact inspects
      | object object =>
          change Makes session.heap ((program? object).getD (session.inspect action)) _
          cases found : program? object with
          | none => exact inspects
          | some program => exact step object held (sound_hold separate held) program found

/-- A step for polynomials, for which all other values are computed from contents. -/
theorem makes_onPolynomial (separate : session.Separate) {program : Place → Program Made}
    (computes : session.shown.compute action = liftM (session.shown.look source) >>= next')
    (step : ∀ place, session.heap.Inside place →
      Makes session.heap (program place) (next' (.polynomial (session.heap.polynomial place)))) :
    Makes session.heap (session.onPolynomial action source program) (session.shown.compute action) := by
  rw [look_shown] at computes
  refine makes_onObject separate (fun fault held => ?_) fun object held inside program isProgram => ?_
  · rw [computes, held]
    rfl
  · rw [computes, held]
    cases object with
    | trig place => cases isProgram
    | polynomial place =>
        cases isProgram
        exact step place (inside_polynomialObject.1 inside)

/-- A step for trigonometric polynomials, for which all other values are computed from contents. -/
theorem makes_onTrig (separate : session.Separate) {program : TrigPlace → Program Made}
    (computes : session.shown.compute action = liftM (session.shown.look source) >>= next')
    (step : ∀ place, session.heap.Inside place →
      Makes session.heap (program place) (next' (.trig (session.heap.trig place)))) :
    Makes session.heap (session.onTrig action source program) (session.shown.compute action) := by
  rw [look_shown] at computes
  refine makes_onObject separate (fun fault held => ?_) fun object held inside program isProgram => ?_
  · rw [computes, held]
    rfl
  · rw [computes, held]
    cases object with
    | polynomial place => cases isProgram
    | trig place =>
        cases isProgram
        exact step place (inside_trigObject.1 inside)

end Objects

/-- A new polynomial is an object. -/
theorem makes_polynomial {program : Program Place} {result : Except Fault Numeric}
    (first : Realizes session.heap (IsNew session.heap) (program session.heap) (liftM result)) :
    Makes session.heap (makePolynomial program)
      (liftM (result >>= fun content => pure (Product.polynomial content))) := by
  rw [lift_of_bind]
  exact makes_object (makesObject_polynomial first)

/-- A new trigonometric polynomial is an object. -/
theorem makes_trig {program : Program TrigPlace} {expected : Traced Trigonometric}
    (first : Realizes session.heap (IsNew session.heap) (program session.heap) expected) :
    Makes session.heap (makeTrig program) (expected >>= fun content => pure (Product.trig content)) :=
  makes_object (makesObject_trig first)

/-- The copy of an object is a new object, and that of a value is the value. -/
theorem makes_copy (separate : session.Separate) (byMethod : Bool) (source : Source) :
    Makes session.heap (session.make (.copy byMethod source))
      (session.shown.compute (.copy byMethod source)) := by
  refine makes_onObject separate (fun fault held => ?_) fun object held inside program isProgram => ?_
  · change Traced.ofResult (session.shown.read source >>= _) = _
    rw [read_shown, map_eq_error.1 held]
    rfl
  · cases isProgram
    obtain ⟨value, isRead, follows⟩ := map_eq_ok.1 held
    have view : session.shown.follow value = (object.content session.heap).view := by
      rw [← view_follow, follows]
      rfl
    have copied : session.shown.compute (.copy byMethod source) =
        pure (.content (object.content session.heap)) := by
      change Traced.ofResult (session.shown.read source >>= _) = _
      rw [read_shown, isRead]
      change Traced.ofResult (if (byMethod && !(session.shown.follow value).hasCopyMethod) = true then _
        else .ok ((session.shown.follow value).copied value)) = _
      rw [view]
      cases object <;> cases byMethod <;> rfl
    rw [copied]
    exact makes_object (makesObject_copy separate.unshared inside)

/-- The map that is shown is a copy. -/
theorem makes_showAngles (unshared : session.heap.Unshared) (place : TrigPlace) :
    Makes session.heap (showAngles place) (pure (.value (.angles (session.heap.angles place.angles)))) :=
  ⟨keeps_withAngles unshared _, rfl, .ok (congrArg Value.angles (angles_withAngles _))⟩

/-- The polynomial of the angle is the one that was given for it. -/
theorem polynomial_ofAngle {polynomial : Numeric} {sine cosine : View} {checked : Trigonometric}
    (returned : ofAngle (.polynomial polynomial) sine cosine = .ok checked) :
    checked.polynomial = polynomial := by
  obtain ⟨angleVar, -, returned⟩ := bind_eq_ok.1 returned
  obtain ⟨sineVar, -, returned⟩ := bind_eq_ok.1 returned
  obtain ⟨cosineVar, -, returned⟩ := bind_eq_ok.1 returned
  cases returned
  rfl

/-- Only the polynomial of the angle is copied; the other two are looked at. -/
theorem makes_angle (separate : session.Separate) (angle sine cosine : Source) :
    Makes session.heap (session.make (.angle angle sine cosine))
      (session.shown.compute (.angle angle sine cosine)) := by
  refine makes_hold separate fun angle _ sound => makes_hold separate fun sine _ _ =>
    makes_hold separate fun cosine _ _ => ?_
  rw [lift_of_bind]
  cases returned : ofAngle (angle.view session.heap) (sine.view session.heap) (cosine.view session.heap) with
  | error fault => exact realizes_fail separate.unshared fault
  | ok checked =>
      have builds : Makes session.heap (makeTrig (buildTrig checked)) (pure (.trig checked)) :=
        makes_trig (realizes_buildTrig separate.unshared checked)
      cases angle with
      | plain view => exact builds
      | object held =>
          cases held with
          | trig place => exact builds
          | polynomial place =>
              have wraps := makes_trig
                (realizes_wrap separate.unshared (inside_polynomialObject.1 sound) checked.angles)
              rw [← polynomial_ofAngle returned] at wraps
              exact wraps

theorem lookThen_eq (shown : Session) (source : Source) (next : View → Traced Product) :
    shown.lookThen source next = liftM (shown.look source) >>= next := by
  unfold lookThen
  cases shown.look source <;> rfl

theorem readBase_eq (shown : Session) (source : Source) (angles : List (Int × Placeholders)) :
    shown.compute (.trig (.source source) angles) = liftM (shown.look source) >>= fun view =>
      liftM (view.toPolynomial >>= fun polynomial => pure (.trig ⟨polynomial, .ofList angles⟩)) := by
  change Traced.ofResult ((shown.look source >>= View.toPolynomial) >>= _) = _
  cases shown.look source <;> rfl

/-- A step that leaves every object as it is. -/
theorem makes_make (separate : session.Separate) (action : Action) :
    Makes session.heap (session.make action) (session.shown.compute action) := by
  have unshared := separate.unshared
  cases action with
  | operate operator left right =>
      exact makes_hold separate fun left _ soundLeft => makes_hold separate fun right _ soundRight =>
        makes_operate unshared soundLeft soundRight operator false
  | negate source => exact makes_hold separate fun handle _ sound => makes_negate unshared sound
  | confirm source => exact makes_hold separate fun handle _ sound => makes_confirm unshared sound
  | copy byMethod source => exact makes_copy separate byMethod source
  | circular function asking source =>
      refine makes_onTrig separate (lookThen_eq _ _ (View.circular function asking)) fun place inside => ?_
      exact makes_trig (realizes_expand unshared inside function)
  | angle angle sine cosine => exact makes_angle separate angle sine cosine
  | constant source =>
      refine makes_onPolynomial separate (lift_of_bind _ _) fun place inside => ?_
      exact makes_polynomial (realizes_copy unshared inside)
  | substitute source values =>
      refine makes_onPolynomial separate (lift_of_bind _ _) fun place inside => ?_
      exact makes_polynomial (realizes_evaluatePartial unshared _)
  | derivative source order =>
      refine makes_onPolynomial separate (lift_of_bind _ _) fun place inside => ?_
      exact makes_polynomial (realizes_derivative unshared inside order)
  | integral source constant =>
      refine makes_onPolynomial separate (lift_of_bind _ _) fun place inside => ?_
      rw [lift_of_bind]
      exact Realizes.lift_bind unshared fun number => makes_polynomial (realizes_integral unshared number)
  | property property source =>
      cases property with
      | polynomial =>
          refine makes_onTrig separate (lift_of_bind _ _) fun place inside => ?_
          exact makes_object (makesObject_polynomial (realizes_copy unshared (inside_trig.1 inside).1))
      | angles =>
          exact makes_onTrig separate (lift_of_bind _ _) fun place _ => makes_showAngles unshared place
      | _ => exact makes_inspect separate _
  | trig base angles =>
      cases base with
      | source source =>
          refine makes_onPolynomial separate (readBase_eq _ _ angles) fun place inside => ?_
          exact makes_trig (realizes_wrap unshared inside (.ofList angles))
      | _ => exact makes_inspect separate _
  | _ => exact makes_inspect separate _

/-- An object is shown by its content. -/
theorem getElem?_shown (reference : Nat) : session.shown.objects[reference]? =
    session.objects[reference]?.map (HeapObject.content session.heap) :=
  List.getElem?_map

/-- The target is written in place, or a new object takes the name over. -/
theorem matches_updateStep (separate : session.Separate) (operator : Operator) (target operand : Value) :
    Matches (session.updateStep operator target operand) (session.shown.updateStep operator target operand) := by
  have unshared := separate.unshared
  have sound := sound_follow separate operand
  have plain := matches_finish separate
    (makes_operate unshared (sound_follow separate target) sound operator true)
  rw [view_follow, view_follow] at plain
  cases target with
  | object reference =>
      simp only [HeapSession.updateStep, Session.updateStep, getElem?_shown]
      cases found : session.objects[reference]? with
      | none => exact plain
      | some object =>
          have inside := separate.inside object (List.mem_of_getElem? found)
          cases object with
          | polynomial place =>
              have edits := edits_editPlain unshared (inside_polynomialObject.1 inside) operator sound
              have edited := editContent_polynomial operator (session.heap.polynomial place) sound
              rw [view_follow] at edits edited
              simp only [Option.map_some, Option.bind_some, HeapObject.content, edited]
              cases isEdit : editPolynomial? operator (session.follow operand) with
              | none => exact plain
              | some edit =>
                  cases eq_editPlain isEdit
                  exact matches_change separate found edits.polynomialObject
          | trig place =>
              have edits := edits_editTrig unshared (inside_trigObject.1 inside) operator sound
              rw [view_follow] at edits
              simp only [Option.map_some, Option.bind_some, HeapObject.content, editContent_trig]
              exact matches_change separate found edits.trigObject
  | _ => exact plain

/-- Renaming writes the target and nothing else. -/
theorem matches_renameStep (separate : session.Separate) (target : Value) (old new : Int) :
    Matches (session.renameStep target old new) (session.shown.renameStep target old new) := by
  have missing := matches_failed separate ((session.shown.follow target).missing "subs")
  cases target with
  | object reference =>
      simp only [HeapSession.renameStep, Session.renameStep, getElem?_shown, view_follow]
      cases found : session.objects[reference]? with
      | none => exact missing
      | some object =>
          have inside := separate.inside object (List.mem_of_getElem? found)
          cases object with
          | trig place => exact missing
          | polynomial place =>
              exact matches_change separate found
                (edits_renameIn separate.unshared (inside_polynomialObject.1 inside) old new).polynomialObject
  | _ => exact missing

/-- Every action matches the one on contents. -/
theorem matches_perform (separate : session.Separate) (action : Action) :
    Matches (session.perform action) (session.shown.perform action) := by
  have made := matches_finish separate (makes_make separate action)
  cases action with
  | update operator target operand =>
      simp only [HeapSession.perform, Session.perform, read_shown]
      cases session.read target with
      | error fault => exact matches_failed separate fault
      | ok target =>
          cases session.read operand with
          | error fault => exact matches_failed separate fault
          | ok operand => exact matches_updateStep separate operator target operand
  | rename source old new =>
      simp only [HeapSession.perform, Session.perform, read_shown]
      cases session.read source with
      | error fault => exact matches_failed separate fault
      | ok target => exact matches_renameStep separate target old new
  | _ => exact made

/-- A step keeps the session separate and shows what the step on contents does. -/
theorem matches_take (separate : session.Separate) (step : Step) :
    Matches (session.take step) (session.shown.take step) := by
  have performed := matches_perform separate step.action
  unfold HeapSession.take Session.take
  dsimp only
  rw [performed.answer]
  cases answer : (session.shown.perform step.action).answer with
  | error fault => exact performed
  | ok value =>
      cases step.register? with
      | none => exact performed
      | some name =>
          have kept := performed.separate
          exact ⟨⟨kept.unshared, kept.inside, kept.apart⟩,
            congrArg (Session.keep · name value) performed.session_eq, performed.notes, rfl⟩

/-- Sessions that match are shown as one. -/
theorem Matches.shown_eq {outcome : Outcome} {expected : Session.Outcome} (same : Matches outcome expected) :
    outcome.shown = expected := by
  obtain ⟨-, session_eq, notes, answer⟩ := same
  unfold Outcome.shown
  rw [session_eq, notes, answer]

/-- Every step of a run shows what the session of values shows. -/
theorem shown_run (steps : List Step) (separate : session.Separate) :
    (session.run steps).map Outcome.shown = session.shown.run steps := by
  induction steps generalizing session with
  | nil => rfl
  | cons step rest hypothesis =>
      have taken := matches_take separate step
      rw [HeapSession.run, List.map_cons, hypothesis taken.separate, taken.shown_eq, taken.session_eq]
      rfl

/-- No step of a run makes two objects share anything. -/
theorem separate_run (steps : List Step) (separate : session.Separate) :
    ∀ outcome ∈ session.run steps, outcome.session.Separate := by
  induction steps generalizing session with
  | nil => exact fun outcome member => (List.not_mem_nil member).elim
  | cons step rest hypothesis =>
      have taken := (matches_take separate step).separate
      exact List.forall_mem_cons.2 ⟨taken, hypothesis taken⟩

end TrigAlgebra.HeapSession
