/-
This file says when a program in memory does what a computation with values says: it brings the same, it
fails for the same reason, and it leaves everything as it was but what it is meant to change.
-/

import TrigAlgebra.Heap.Polynomials
import TrigAlgebra.Proofs.HeapFrames

namespace TrigAlgebra

/-- Something in memory has a content, which lies in its polynomial and in its angles, if it has any. -/
class Kept (A : Type) (C : outParam Type) where
  content : Heap → A → C
  polynomialPlace : A → Place
  anglesPlace? : A → Option Place
  content_eq : ∀ {heap after : Heap} {kept : A},
    after.polynomial (polynomialPlace kept) = heap.polynomial (polynomialPlace kept) →
      (∀ place ∈ anglesPlace? kept, after.angles place = heap.angles place) →
        content after kept = content heap kept

instance : Kept Place (Polynomial Number) := ⟨Heap.polynomial, id, fun _ => none, fun same _ => same⟩

instance : Kept TrigPlace (TrigPolynomial Number) where
  content := Heap.trig
  polynomialPlace := TrigPlace.polynomial
  anglesPlace? place := some place.angles
  content_eq same sameAngles := congrArg₂ TrigPolynomial.mk same (sameAngles _ rfl)

open Kept

namespace Heap

variable {A C : Type} [Kept A C] {base heap after : Heap} {kept : A} {content : C}
  {changed changedMap : Option Place}

/-- Its places exist. -/
structure Inside (heap : Heap) (kept : A) : Prop where
  polynomial : polynomialPlace kept < heap.polynomials.size
  angles : ∀ place ∈ anglesPlace? kept, place < heap.maps.size

/-- It was not there before, and its content is known. -/
structure IsNew (base heap : Heap) (kept : A) (content : C) : Prop where
  polynomial : base.polynomials.size ≤ polynomialPlace kept
  angles : ∀ place ∈ anglesPlace? kept, base.maps.size ≤ place
  inside : heap.Inside kept
  content_eq : Kept.content heap kept = content

/-- Only places of the memory are inside it. -/
theorem Inside.lt {place : Place} (inside : heap.Inside place) : place < heap.polynomials.size :=
  inside.polynomial

/-- A new polynomial holds its content. -/
theorem IsNew.polynomial_eq {place : Place} {content : Polynomial Number}
    (isNew : IsNew base heap place content) : heap.polynomial place = content :=
  isNew.content_eq

/-- A new trigonometric polynomial holds its content. -/
theorem IsNew.trig_eq {place : TrigPlace} {content : TrigPolynomial Number}
    (isNew : IsNew base heap place content) : heap.trig place = content :=
  isNew.content_eq

/-- A trigonometric polynomial is inside with both of its parts. -/
theorem inside_trig {place : TrigPlace} : heap.Inside place ↔
    heap.Inside place.polynomial ∧ place.angles < heap.maps.size :=
  ⟨fun inside => ⟨⟨inside.polynomial, nofun⟩, inside.angles _ rfl⟩,
    fun inside => ⟨inside.1.polynomial, by rintro _ ⟨⟩; exact inside.2⟩⟩

/-- What is inside stays inside. -/
theorem Keeps.inside (keeps : Keeps changed changedMap heap after) (inside : heap.Inside kept) :
    after.Inside kept :=
  ⟨inside.polynomial.trans_le keeps.polynomials_le,
    fun place isPlace => (inside.angles place isPlace).trans_le keeps.maps_le⟩

/-- What lies apart from the changed places keeps its content. -/
theorem Keeps.content_eq (keeps : Keeps changed changedMap heap after) (inside : heap.Inside kept)
    (apart : some (polynomialPlace kept) ≠ changed)
    (apartMap : ∀ place ∈ anglesPlace? kept, some place ≠ changedMap) :
    Kept.content after kept = Kept.content heap kept :=
  Kept.content_eq (keeps.polynomial_eq _ inside.polynomial apart) fun place isPlace =>
    keeps.angles_eq place (inside.angles place isPlace) (apartMap place isPlace)

/-- Without a changed place everything keeps its content. -/
theorem Keeps.content_eq_of_none (keeps : Keeps none none heap after) (inside : heap.Inside kept) :
    Kept.content after kept = Kept.content heap kept :=
  keeps.content_eq inside (Option.some_ne_none _) fun place _ => Option.some_ne_none place

theorem Keeps.polynomial_eq_of_inside {place : Place} (keeps : Keeps none none heap after)
    (inside : heap.Inside place) : after.polynomial place = heap.polynomial place :=
  keeps.content_eq_of_none inside

/-- What is new stays what it is while it is not written. -/
theorem IsNew.keep (isNew : IsNew base heap kept content) (keeps : Keeps none none heap after) :
    IsNew base after kept content :=
  ⟨isNew.polynomial, isNew.angles, keeps.inside isNew.inside,
    (keeps.content_eq_of_none isNew.inside).trans isNew.content_eq⟩

/-- What is new in a later memory is new in an earlier one. -/
theorem IsNew.older (isNew : IsNew heap after kept content) (keeps : Keeps none none base heap) :
    IsNew base after kept content :=
  ⟨keeps.polynomials_le.trans isNew.polynomial,
    fun place isPlace => keeps.maps_le.trans (isNew.angles place isPlace), isNew.inside, isNew.content_eq⟩

end Heap

namespace Program

open TrigAlgebra.Heap

variable {A B C A' B' : Type} {heap middle after base : Heap}

@[simp] theorem read_bind (look : Heap → A) (next : A → Program B) :
    (read look >>= next) heap = next (look heap) heap := rfl

@[simp] theorem pure_bind (value : A) (next : A → Program B) :
    (pure value : Program A) >>= next = next value := rfl

/-- A computation of a value leaves the memory to what follows. -/
theorem lift_bind_of_ok {result : Except Fault A} {value : A} (returned : result = .ok value)
    (next : A → Program B) : ((liftM result : Program A) >>= next) heap = next value heap := by
  rw [returned]
  rfl

/-- A computation that fails leaves the memory as it is. -/
theorem lift_bind_of_error {result : Except Fault A} {fault : Fault} (failed : result = .error fault)
    (next : A → Program B) :
    ((liftM result : Program A) >>= next) heap = ⟨heap, .ofResult (.error fault)⟩ := by
  rw [failed]
  rfl

theorem lift_of_bind (result : Except Fault A) (next : A → Except Fault B) :
    (liftM (result >>= next) : Traced B) = liftM result >>= fun value => liftM (next value) := by
  cases result <;> rfl

theorem traced_bind_pure (traced : Traced A) : traced >>= pure = traced := by
  obtain ⟨notes, outcome⟩ := traced
  cases outcome with
  | error fault => rfl
  | ok value => exact congrArg (Traced.mk · _) (List.append_nil notes)

/-- What follows a program that has succeeded. -/
theorem bind_of_ok {program : Program A} {value : A} {notes : List String}
    (returned : program heap = ⟨middle, notes, .ok value⟩) (next : A → Program B) : (program >>= next) heap =
      ⟨(next value middle).heap, notes ++ (next value middle).traced.notes,
        (next value middle).traced.outcome⟩ := by
  change Program.bind program next heap = _
  rw [Program.bind, returned]

/-- What was written and noted before a failure stays. -/
theorem bind_of_error {program : Program A} {fault : Fault} {notes : List String}
    (failed : program heap = ⟨middle, notes, .error fault⟩) (next : A → Program B) :
    (program >>= next) heap = ⟨middle, notes, .error fault⟩ := by
  change Program.bind program next heap = _
  rw [Program.bind, failed]

/-- Both computations bring related values, or fail for the same reason. -/
inductive Agree (related : A → B → Prop) : Except Fault A → Except Fault B → Prop
  | ok {left : A} {right : B} : related left right → Agree related (.ok left) (.ok right)
  | error (fault : Fault) : Agree related (.error fault) (.error fault)

/-- A program ended as expected: it noted the same, brought something related and changed nothing that was
there before. -/
structure Realizes (heap : Heap) (related : Heap → A → B → Prop) (ended : Ended A) (expected : Traced B) :
    Prop where
  keeps : Keeps none none heap ended.heap
  notes : ended.traced.notes = expected.notes
  agree : Agree (related ended.heap) ended.traced.outcome expected.outcome

/-- A program edited something in place as expected, and changed nothing else. -/
structure Edits [Kept A C] (heap : Heap) (kept : A) (ended : Ended Unit) (edit : Edit C) : Prop where
  keeps : Keeps (some (polynomialPlace kept)) (anglesPlace? kept) heap ended.heap
  content_eq : content ended.heap kept = edit.content
  traced : ended.traced = .ofResult edit.outcome

variable {related : Heap → A → B → Prop} {related' : Heap → A' → B' → Prop}

/-- A value that is known is answered. -/
theorem realizes_pure (unshared : heap.Unshared) {value : A} {value' : B} (holds : related heap value value') :
    Realizes heap related ((pure value : Program A) heap) (pure value') :=
  ⟨unshared.keeps, rfl, .ok holds⟩

/-- A computation of values runs as a program as it is. -/
theorem realizes_traced (unshared : heap.Unshared) (traced : Traced A) :
    Realizes heap (fun _ => Eq) ((liftM traced : Program A) heap) traced := by
  obtain ⟨notes, outcome⟩ := traced
  refine ⟨unshared.keeps, rfl, ?_⟩
  cases outcome with
  | ok value => exact .ok rfl
  | error fault => exact .error fault

/-- A failure is a failure of the computation. -/
theorem realizes_fail (unshared : heap.Unshared) (fault : Fault) :
    Realizes heap related ((fail fault : Program A) heap) (.ofResult (.error fault)) :=
  ⟨unshared.keeps, rfl, .error fault⟩

theorem Agree.weaken {wider : A → B → Prop} {left : Except Fault A} {right : Except Fault B}
    {narrow : A → B → Prop} (agree : Agree narrow left right)
    (implies : ∀ value value', narrow value value' → wider value value') : Agree wider left right := by
  cases agree with
  | ok holds => exact .ok (implies _ _ holds)
  | error fault => exact .error fault

/-- The relation may be read in any later memory. -/
theorem Realizes.weaken {ended : Ended A} {expected : Traced B} (first : Realizes heap related ended expected)
    {wider : Heap → A → B → Prop} (implies : ∀ after value value', Keeps none none heap after →
      related after value value' → wider after value value') : Realizes heap wider ended expected :=
  ⟨first.keeps, first.notes, first.agree.weaken fun _ _ => implies _ _ _ first.keeps⟩

/-- The value that the computation brings is the one that it was expected to bring. -/
theorem Realizes.known {ended : Ended A} {expected : Traced B} (first : Realizes heap related ended expected) :
    Realizes heap (fun after value value' => related after value value' ∧ expected.outcome = .ok value')
      ended expected := by
  obtain ⟨keeps, notes, agree⟩ := first
  refine ⟨keeps, notes, ?_⟩
  generalize ended.traced.outcome = returned, expected.outcome = outcome at agree ⊢
  cases agree with
  | ok holds => exact .ok ⟨holds, rfl⟩
  | error fault => exact .error fault

/-- What is known of the value of a program that has succeeded. -/
theorem Realizes.of_pure {ended : Ended A} {value : B} {value' : B'}
    (first : Realizes heap related ended (pure value)) {other : Heap → A → B' → Prop}
    (implies : ∀ after made, related after made value → other after made value') :
    Realizes heap other ended (pure value') := by
  obtain ⟨keeps, notes, agree⟩ := first
  refine ⟨keeps, notes, ?_⟩
  change Agree _ _ (.ok value) at agree
  generalize ended.traced.outcome = outcome at agree ⊢
  cases agree with
  | ok holds => exact .ok (implies _ _ holds)

/-- What is new can be measured from an older memory. -/
theorem Realizes.older [Kept A C] {ended : Ended A} {expected : Traced C}
    (first : Realizes heap (IsNew heap) ended expected) (keeps : Keeps none none base heap) :
    Realizes heap (IsNew base) ended expected :=
  first.weaken fun _ _ _ _ isNew => isNew.older keeps

/-- Programs in sequence end as the computations in sequence. -/
theorem Realizes.bind {program : Program A} {expected : Traced B} {next : A → Program A'}
    {next' : B → Traced B'} (first : Realizes heap related (program heap) expected)
    (step : ∀ middle value value', Keeps none none heap middle → related middle value value' →
      Realizes middle related' (next value middle) (next' value')) :
    Realizes heap related' ((program >>= next) heap) (expected >>= next') := by
  change Realizes heap related' (Program.bind program next heap) (Traced.bind expected next')
  unfold Program.bind Traced.bind
  generalize program heap = ended at first ⊢
  obtain ⟨middle, notes, outcome⟩ := ended
  obtain ⟨notes', outcome'⟩ := expected
  obtain ⟨keeps, same, agree⟩ := first
  cases agree with
  | ok holds =>
      have rest := step middle _ _ keeps holds
      exact ⟨keeps.trans rest.keeps, congrArg₂ (· ++ ·) same rest.notes, rest.agree⟩
  | error fault => exact ⟨keeps, same, .error fault⟩

/-- The value of a part that only computes is used as it is. -/
theorem Realizes.lift_bind (unshared : heap.Unshared) {result : Except Fault A} {next : A → Program A'}
    {next' : A → Traced B'} (step : ∀ value, Realizes heap related' (next value heap) (next' value)) :
    Realizes heap related' (((liftM result : Program A) >>= next) heap)
      ((liftM result : Traced A) >>= next') := by
  cases result with
  | error fault => exact ⟨unshared.keeps, rfl, .error fault⟩
  | ok value => exact step value

section Edits

variable [Kept A C]

/-- A program that edits notes nothing and ends as the edit does. -/
theorem Edits.ended_eq {kept : A} {ended : Ended Unit} {edited : Edit C} {outcome : Except Fault Unit}
    (edits : Edits heap kept ended edited) (isOutcome : edited.outcome = outcome) :
    ended = ⟨ended.heap, [], outcome⟩ :=
  congrArg (Ended.mk ended.heap) (isOutcome ▸ edits.traced)

/-- Something new can be edited without anyone else seeing it. -/
theorem realizes_editNew {start : Program A} {expected : Traced C} (edit : A → Program Unit)
    (edited : C → Edit C) (first : Realizes heap (IsNew heap) (start heap) expected)
    (step : ∀ middle kept content, Keeps none none heap middle → IsNew heap middle kept content →
      Edits middle kept (edit kept middle) (edited content)) :
    Realizes heap (IsNew heap) (editNew start edit heap)
      (expected >>= fun content => .ofResult (edited content).result) := by
  unfold editNew
  obtain ⟨keeps, notes, agree⟩ := first
  cases started : start heap with
  | mk middle traced =>
  obtain ⟨written, outcome⟩ := traced
  obtain ⟨expectedNotes, expectedOutcome⟩ := expected
  rw [started] at keeps notes agree
  cases agree with
  | error fault =>
      rw [bind_of_error started]
      exact ⟨keeps, notes, .error fault⟩
  | @ok kept content isNew =>
      have edits := step middle kept content keeps isNew
      have isKept : Keeps none none heap (edit kept middle).heap :=
        keeps.trans_new edits.keeps (by rintro _ ⟨⟩; exact isNew.polynomial) isNew.angles
      change Realizes heap (IsNew heap) _ ⟨expectedNotes ++ [], (edited content).result⟩
      rw [bind_of_ok started, Edit.result]
      cases outcome : (edited content).outcome with
      | error fault =>
          rw [bind_of_error (edits.ended_eq outcome)]
          exact ⟨isKept, congrArg (· ++ []) notes, .error fault⟩
      | ok _ =>
          rw [bind_of_ok (edits.ended_eq outcome)]
          refine ⟨isKept, congrArg (· ++ []) notes, .ok ?_⟩
          exact ⟨isNew.polynomial, isNew.angles, edits.keeps.inside isNew.inside, edits.content_eq⟩

end Edits

/-- Programs in sequence may be grouped in any way. -/
theorem bind_assoc (program : Program A) (next : A → Program B) (last : B → Program C) :
    program >>= next >>= last = program >>= fun value => next value >>= last := by
  funext heap
  cases ended : program heap with
  | mk middle traced =>
  obtain ⟨notes, outcome⟩ := traced
  cases outcome with
  | error fault => rw [bind_of_error ended, bind_of_error (bind_of_error ended _)]
  | ok value =>
      rw [bind_of_ok ended]
      cases nextEnded : next value middle with
      | mk after traced =>
      obtain ⟨moreNotes, outcome⟩ := traced
      have both : (program >>= next) heap = ⟨after, notes ++ moreNotes, outcome⟩ := by
        rw [bind_of_ok ended, nextEnded]
      cases outcome with
      | error fault => rw [bind_of_error both, bind_of_error nextEnded]
      | ok _ => rw [bind_of_ok both, bind_of_ok nextEnded, List.append_assoc]

/-- Two edits one after the other are made as one. -/
theorem editNew_editNew (start : Program A) (edit more : A → Program Unit) :
    editNew (editNew start edit) more = editNew start (fun kept => edit kept >>= fun _ => more kept) := by
  unfold editNew
  simp only [bind_assoc, pure_bind]

end Program

end TrigAlgebra
