/-
This file proves that the operators on values in memory do what the operators on values do: what they make is
new, and what they edit is the only thing they change.
-/

import Mathlib.Data.Option.Basic
import TrigAlgebra.Heap.Operators
import TrigAlgebra.Proofs.HeapTrigPolynomials

namespace TrigAlgebra

open TrigAlgebra.Heap TrigAlgebra.Session

instance : Kept HeapObject Content where
  content := fun heap object => object.content heap
  polynomialPlace
    | .polynomial place => place
    | .trig place => place.polynomial
  anglesPlace?
    | .polynomial _ => none
    | .trig place => some place.angles
  content_eq := fun {_ _ object} same sameAngles => by
    cases object with
    | polynomial place => exact congrArg Content.polynomial same
    | trig place => exact congrArg Content.trig (congrArg₂ TrigPolynomial.mk same (sameAngles _ rfl))

variable {base heap middle : Heap}

theorem inside_polynomialObject {place : Place} :
    heap.Inside (HeapObject.polynomial place) ↔ heap.Inside place :=
  ⟨fun inside => ⟨inside.polynomial, inside.angles⟩, fun inside => ⟨inside.polynomial, inside.angles⟩⟩

theorem inside_trigObject {place : TrigPlace} : heap.Inside (HeapObject.trig place) ↔ heap.Inside place :=
  ⟨fun inside => ⟨inside.polynomial, inside.angles⟩, fun inside => ⟨inside.polynomial, inside.angles⟩⟩

/-- An object is in memory, and a plain value is no object. -/
def Handle.Sound (heap : Heap) : Handle → Prop
  | .object held => heap.Inside held
  | .plain view => ∀ content : Content, view ≠ content.view

namespace Handle

variable {handle : Handle}

/-- What a value is called does not depend on the memory. -/
theorem kind_view (handle : Handle) : (handle.view heap).kind = handle.kind := by
  cases handle with
  | plain view => rfl
  | object held => cases held <;> rfl

/-- A sound handle stays sound while others are written. -/
theorem Sound.keep (sound : handle.Sound heap) (keeps : Keeps none none heap middle) : handle.Sound middle := by
  cases handle with
  | plain view => exact sound
  | object held => exact keeps.inside (show heap.Inside held from sound)

/-- What a handle leads to stays the same while nothing old is written. -/
theorem Sound.view_eq (sound : handle.Sound heap) (keeps : Keeps none none heap middle) :
    handle.view middle = handle.view heap := by
  cases handle with
  | plain view => rfl
  | object held => exact congrArg Content.view (keeps.content_eq_of_none (show heap.Inside held from sound))

end Handle

/-- The operand with its polynomial read from the memory. -/
def HeapOperand.shown (heap : Heap) : HeapOperand → Operand
  | .number value => .number value
  | .polynomial place => .polynomial (heap.polynomial place)

/-- The same values are operands of a polynomial, whether read or not. -/
theorem Handle.Sound.operand?_eq {handle : Handle} (sound : handle.Sound heap) :
    (handle.view heap).operand? = handle.operand?.map (HeapOperand.shown heap) := by
  cases handle with
  | object held => cases held <;> rfl
  | plain view =>
      cases view with
      | polynomial content => exact (sound (.polynomial content) rfl).elim
      | _ => rfl

namespace Session

/-- The operation in place on a polynomial with any value but a trigonometric polynomial. -/
def polynomialEdit (operator : Operator) (polynomial : Numeric) (other : View) : Edit Numeric :=
  match other.operand? with
  | some operand => operand.edit operator polynomial
  | none =>
      match objection? operator polynomial other with
      | some fault => .failed fault polynomial
      | none => .done polynomial

/-- The operation in place on a trigonometric polynomial with any value. -/
def trigEdit (operator : Operator) (trig : Trigonometric) (other : View) : Edit Trigonometric :=
  match other with
  | .trig right => editTrigs operator trig right
  | other => trig.onPolynomial (polynomialEdit operator trig.polynomial other)

/-- Other values are met by a refusal, or by nothing if no coefficient is touched. -/
theorem meetOther_eq (operator : Operator) (content : Content) (polynomial : Numeric) {other : View}
    (embed : Numeric → Content) (same : embed polynomial = content) (none : other.operand? = none) :
    meetOther operator content polynomial other = (polynomialEdit operator polynomial other).map embed := by
  unfold meetOther polynomialEdit
  rw [none]
  cases objection? operator polynomial other <;> exact congrArg (Edit.mk _) same.symm

/-- Every operation in place on a trigonometric polynomial is its edit. -/
theorem editContent_trig (operator : Operator) (trig : Trigonometric) (other : View) :
    editContent operator (.trig trig) other = some ((trigEdit operator trig other).map .trig) := by
  cases other with
  | trig right => rfl
  | number value => rfl
  | polynomial right => rfl
  | _ => exact congrArg some (meetOther_eq operator (.trig trig) trig.polynomial
      (fun polynomial => .trig { trig with polynomial := polynomial }) rfl rfl)

/-- A polynomial is edited by all operands but those that take the operation over. -/
theorem editContent_polynomial (operator : Operator) (polynomial : Numeric) {other : Handle}
    (sound : other.Sound heap) :
    editContent operator (.polynomial polynomial) (other.view heap) =
      (Program.editPolynomial? operator other).map fun _ =>
        (polynomialEdit operator polynomial (other.view heap)).map .polynomial := by
  cases other with
  | object held => cases held <;> cases operator <;> rfl
  | plain view =>
      cases view with
      | trig content => exact (sound (.trig content) rfl).elim
      | polynomial content => exact (sound (.polynomial content) rfl).elim
      | number value => cases operator <;> rfl
      | _ =>
          have meets {other : View} (none : other.operand? = none) :=
            meetOther_eq operator (.polynomial polynomial) polynomial .polynomial rfl none
          cases operator <;> exact congrArg some (meets rfl)

end Session

namespace Program

variable {place : Place}

section Edits

variable (unshared : heap.Unshared)

include unshared

/-- A failure writes nothing. -/
theorem edits_fail {A C : Type} [Kept A C] (kept : A) (fault : Fault) :
    Edits heap kept (fail fault heap) (.failed fault (Kept.content heap kept)) :=
  ⟨unshared.keeps, rfl, rfl⟩

/-- The operand is read before anything is written. -/
theorem edits_editWith (inside : heap.Inside place) (operator : Operator) (operand : HeapOperand) :
    Edits heap place (editWith operator operand place heap)
      ((operand.shown heap).edit operator (heap.polynomial place)) := by
  cases operator with
  | add =>
      cases operand with
      | number value => exact edits_addScalarTo unshared inside value
      | polynomial other => exact edits_addTo unshared inside other
  | subtract =>
      cases operand with
      | number value => exact edits_addScalarTo unshared inside (Coefficient.neg value)
      | polynomial other => exact edits_subtractFrom unshared inside other
  | multiply =>
      cases operand with
      | number value => exact edits_scaleBy unshared inside value
      | polynomial other => exact edits_multiplyBy unshared inside other
  | divide =>
      cases operand with
      | number value => exact edits_divideBy unshared inside value
      | polynomial other => exact edits_fail unshared place _
  | _ => cases operand <;> exact edits_fail unshared place _

theorem edits_editPlain (inside : heap.Inside place) (operator : Operator) {other : Handle}
    (sound : other.Sound heap) :
    Edits heap place (editPlain operator other place heap)
      (polynomialEdit operator (heap.polynomial place) (other.view heap)) := by
  unfold editPlain polynomialEdit
  rw [sound.operand?_eq]
  cases other.operand? with
  | some operand => exact edits_editWith unshared inside operator operand
  | none =>
      change Edits heap place (meetOther operator other place heap) _
      unfold meetOther
      rw [read_bind, read_bind]
      dsimp only [Option.map_none]
      cases objection? operator (heap.polynomial place) (other.view heap) with
      | some fault => exact edits_fail unshared place fault
      | none => exact ⟨unshared.keeps, rfl, rfl⟩

/-- Sums, differences and products are taken in place; there is no division. -/
theorem edits_editTrigWith {place other : TrigPlace} (inside : heap.Inside place)
    (insideOther : heap.Inside other) (operator : Operator) :
    Edits heap place (editTrigWith operator other place heap)
      (editTrigs operator (heap.trig place) (heap.trig other)) := by
  cases operator with
  | add => exact edits_addTrigTo unshared inside insideOther
  | subtract => exact edits_subtractTrigFrom unshared inside insideOther
  | multiply => exact edits_multiplyTrigBy unshared inside insideOther
  | _ => exact edits_fail unshared place _

/-- A value that is no trigonometric polynomial meets the polynomial inside. -/
theorem edits_editTrig {place : TrigPlace} (inside : heap.Inside place) (operator : Operator) {other : Handle}
    (sound : other.Sound heap) :
    Edits heap place (editTrig operator other place heap)
      (trigEdit operator (heap.trig place) (other.view heap)) := by
  have plain : Edits heap place (editPlain operator other place.polynomial heap)
      ((heap.trig place).onPolynomial (polynomialEdit operator (heap.trig place).polynomial (other.view heap))) :=
    (edits_editPlain unshared (inside_trig.1 inside).1 operator sound).onPolynomial inside
  cases other with
  | object held =>
      cases held with
      | polynomial other => exact plain
      | trig other => exact edits_editTrigWith unshared inside (inside_trigObject.1 sound) operator
  | plain view =>
      cases view with
      | trig content => exact (sound (.trig content) rfl).elim
      | _ => exact plain

end Edits

/-- An edit of a polynomial is one of the object that it is. -/
theorem Edits.polynomialObject {ended : Ended Unit} {edit : Edit Numeric} (edits : Edits heap place ended edit) :
    Edits heap (HeapObject.polynomial place) ended (edit.map .polynomial) :=
  ⟨edits.keeps, congrArg Content.polynomial edits.content_eq, edits.traced⟩

/-- An edit of a trigonometric polynomial is one of the object that it is. -/
theorem Edits.trigObject {place : TrigPlace} {ended : Ended Unit} {edit : Edit Trigonometric}
    (edits : Edits heap place ended edit) : Edits heap (HeapObject.trig place) ended (edit.map .trig) :=
  ⟨edits.keeps, congrArg Content.trig edits.content_eq, edits.traced⟩

/-- A program brings the same value, or an object that is new and has the content. -/
def IsMade (base heap : Heap) : Made → Product → Prop
  | .value value, .value value' => value = value'
  | .object object, .content content => IsNew base heap object content
  | _, _ => False

/-- What is new in a later memory is new in an earlier one. -/
theorem IsMade.older {made : Made} {product : Product} (isMade : IsMade heap middle made product)
    (keeps : Keeps none none base heap) : IsMade base middle made product := by
  cases made with
  | value value => cases product <;> exact isMade
  | object held =>
      cases product with
      | value value => exact isMade
      | content content => exact IsNew.older isMade keeps

/-- The program brings what the computation brings. -/
def Makes (heap : Heap) (program : Program Made) (expected : Traced Product) : Prop :=
  Realizes heap (IsMade heap) (program heap) expected

def MakesObject (heap : Heap) (program : Program HeapObject) (expected : Traced Product) : Prop :=
  Realizes heap (fun after object => IsMade heap after (.object object)) (program heap) expected

theorem result_map_content {S : Type} (edit : Edit S) (embed : S → Content) :
    .ofResult ((edit.map embed).result.map Product.content) =
      (Traced.ofResult edit.result >>= fun content => pure (.content (embed content))) := by
  obtain ⟨outcome, content⟩ := edit
  cases outcome <;> rfl

theorem makesObject_polynomial {program : Program Place} {expected : Traced Numeric}
    (first : Realizes heap (IsNew heap) (program heap) expected) :
    MakesObject heap (newPolynomialObject program) (expected >>= fun content => pure (.polynomial content)) :=
  first.bind fun _ _ _ keeps isNew => realizes_pure keeps.unshared ⟨isNew.polynomial, isNew.angles,
    inside_polynomialObject.2 isNew.inside, congrArg Content.polynomial isNew.content_eq⟩

theorem makesObject_trig {program : Program TrigPlace} {expected : Traced Trigonometric}
    (first : Realizes heap (IsNew heap) (program heap) expected) :
    MakesObject heap (newTrigObject program) (expected >>= fun content => pure (.trig content)) :=
  first.bind fun _ _ _ keeps isNew => realizes_pure keeps.unshared ⟨isNew.polynomial, isNew.angles,
    inside_trigObject.2 isNew.inside, congrArg Content.trig isNew.content_eq⟩

/-- A copy shares nothing with the object. -/
theorem makesObject_copy {object : HeapObject} (unshared : heap.Unshared) (inside : heap.Inside object) :
    MakesObject heap (copyObject object) (pure (.content (object.content heap))) := by
  cases object with
  | polynomial place => exact makesObject_polynomial (realizes_copy unshared (inside_polynomialObject.1 inside))
  | trig place => exact makesObject_trig (realizes_copyTrig unshared (inside_trigObject.1 inside))

/-- Both are there, and the program makes what the computation brings, or neither is. -/
abbrev MakesOption (heap : Heap) : Option (Program HeapObject) → Option (Except Fault Product) → Prop :=
  Option.Rel fun program expected => MakesObject heap program (.ofResult expected)

/-- Where a polynomial is edited at all, the edit is the one for its operand. -/
theorem eq_editPlain {operator : Operator} {other : Handle} {edit : Place → Program Unit}
    (found : editPolynomial? operator other = some edit) :
    edit = editPlain operator other := by
  unfold editPolynomial? at found
  split at found <;> cases found
  rfl

section Copies

variable (operator : Operator) {other : Handle} {object : HeapObject}

/-- An operation on a polynomial that is new. -/
theorem makesObject_editPolynomial {start : Program Place} {polynomial : Numeric}
    (first : Realizes heap (IsNew heap) (start heap) (pure polynomial)) (sound : other.Sound heap) :
    MakesOption heap
      ((editPolynomial? operator other).map fun edit => newPolynomialObject (editNew start edit))
      (Session.onCopy operator (.polynomial polynomial) (other.view heap)) := by
  unfold Session.onCopy
  rw [editContent_polynomial operator polynomial sound]
  cases found : editPolynomial? operator other with
  | none => exact .none
  | some edit =>
      cases eq_editPlain found
      have edited := realizes_editNew (editPlain operator other)
        (fun content => polynomialEdit operator content (other.view heap)) first
        fun middle fresh content keeps isNew => by
          have edits := edits_editPlain keeps.unshared isNew.inside operator (sound.keep keeps)
          rw [isNew.polynomial_eq, sound.view_eq keeps] at edits
          exact edits
      refine .some ?_
      change MakesObject heap _
        (.ofResult (((polynomialEdit operator polynomial (other.view heap)).map _).result.map _))
      rw [result_map_content]
      exact makesObject_polynomial edited

/-- A new trigonometric polynomial that is edited in place. -/
theorem makesObject_editTrig {start : Program TrigPlace} {trig : Trigonometric}
    (first : Realizes heap (IsNew heap) (start heap) (pure trig)) (sound : other.Sound heap) :
    MakesOption heap (some (newTrigObject (editNew start (editTrig operator other))))
      (Session.onCopy operator (.trig trig) (other.view heap)) := by
  unfold Session.onCopy
  rw [editContent_trig]
  have edited := realizes_editNew (editTrig operator other)
    (fun content => trigEdit operator content (other.view heap)) first
    fun middle fresh content keeps isNew => by
      have edits := edits_editTrig keeps.unshared isNew.inside operator (sound.keep keeps)
      rw [isNew.trig_eq, sound.view_eq keeps] at edits
      exact edits
  refine .some ?_
  change MakesObject heap _ (.ofResult (((trigEdit operator trig (other.view heap)).map _).result.map _))
  rw [result_map_content]
  exact makesObject_trig edited

variable (unshared : heap.Unshared) (inside : heap.Inside object) (sound : other.Sound heap)

include unshared inside sound

/-- Operators work in place on a copy of the left operand. -/
theorem makesObject_onCopy : MakesOption heap (onCopy operator object other)
    (Session.onCopy operator (object.content heap) (other.view heap)) := by
  cases object with
  | polynomial place =>
      exact makesObject_editPolynomial _ (realizes_copy unshared (inside_polynomialObject.1 inside)) sound
  | trig place => exact makesObject_editTrig _ (realizes_copyTrig unshared (inside_trigObject.1 inside)) sound

/-- A number on the left becomes a polynomial, or trades places with the right operand. -/
theorem makesObject_reflected : MakesOption heap (reflected operator other object)
    (Session.reflected operator (other.view heap) (object.content heap)) := by
  cases operator with
  | add => exact makesObject_onCopy _ unshared inside sound
  | multiply => exact makesObject_onCopy _ unshared inside sound
  | subtract =>
      cases object with
      | polynomial place =>
          exact makesObject_editPolynomial _ (realizes_neg unshared (inside_polynomialObject.1 inside)) sound
      | trig place => exact makesObject_editTrig _ (realizes_negTrig unshared (inside_trigObject.1 inside)) sound
  | _ => cases object <;> exact .none

end Copies

/-- A new object is what it is made of. -/
theorem makes_object {program : Program HeapObject} {expected : Traced Product}
    (first : MakesObject heap program expected) : Makes heap (makeObject program) expected := by
  unfold Makes
  rw [← traced_bind_pure expected]
  exact Realizes.bind first fun _ _ _ keeps isMade => realizes_pure keeps.unshared isMade

/-- Where no program applies, the operands are refused. -/
theorem makes_orUnsupported {program? : Option (Program HeapObject)}
    {expected? : Option (Except Fault Product)} (unshared : heap.Unshared)
    (agree : MakesOption heap program? expected?) (fault : Fault) :
    Makes heap (orUnsupported fault program?) (.ofResult (expected?.getD (.error fault))) := by
  cases agree with
  | none => exact realizes_fail unshared fault
  | some made => exact makes_object made

/-- Values are made from nothing in the memory. -/
theorem makes_buildProduct (unshared : heap.Unshared) (product : Product) :
    Makes heap (buildProduct product) (pure product) := by
  cases product with
  | value value => exact realizes_pure unshared rfl
  | content content =>
      cases content with
      | polynomial content => exact makes_object (makesObject_polynomial (realizes_build unshared content))
      | trig content => exact makes_object (makesObject_trig (realizes_buildTrig unshared content))

theorem makes_lift (unshared : heap.Unshared) (result : Except Fault Product) :
    Makes heap (do buildProduct (← result)) (liftM result) := by
  unfold Makes
  rw [← traced_bind_pure (liftM _)]
  exact Realizes.lift_bind unshared (makes_buildProduct unshared)

/-- A value that depends only on what the operands are. -/
theorem makes_onViews (unshared : heap.Unshared) (compute : View → View → Except Fault Product)
    (left right : Handle) :
    Makes heap (onViews compute left right) (liftM (compute (left.view heap) (right.view heap))) :=
  makes_lift unshared _

/-- A power is multiplied up in place from a new one. -/
theorem makes_power {base exponent : Handle} (unshared : heap.Unshared) (soundBase : base.Sound heap) :
    Makes heap (power base exponent) (liftM (Session.power (base.view heap) (exponent.view heap))) := by
  unfold power
  split
  · rename_i place value
    split
    · rename_i natural
      have powers : (liftM (Session.power (.polynomial (heap.polynomial place)) (.number (.integer value))) :
          Traced Product) = (do return .polynomial (← (heap.polynomial place).pow value.toNat)) := by
        unfold Session.power
        simp only [if_pos natural]
        cases (heap.polynomial place).pow value.toNat <;> rfl
      change Makes heap _ (liftM (Session.power (.polynomial (heap.polynomial place)) (.number (.integer value))))
      rw [powers]
      exact makes_object (makesObject_polynomial (realizes_pow unshared (inside_polynomialObject.1 soundBase) _))
    · exact makes_onViews unshared _ _ _
  · exact makes_onViews unshared _ _ _

/-- All operators on all pairs of operands, as an operator or as the rest of an operation in place. -/
theorem makes_operate {left right : Handle} (unshared : heap.Unshared) (soundLeft : left.Sound heap)
    (soundRight : right.Sound heap) (operator : Operator) (inPlace : Bool) :
    Makes heap (operate operator inPlace left right)
      (liftM (Session.operate operator inPlace (left.view heap) (right.view heap))) := by
  by_cases isPower : (operator == .power) = true
  · unfold operate Session.operate
    rw [if_pos isPower, if_pos isPower]
    exact makes_power unshared soundLeft
  · have reflects {second : HeapObject} (inside : heap.Inside second) :=
      makes_orUnsupported unshared (makesObject_reflected operator unshared inside soundLeft)
        (.unsupportedOperands operator inPlace left.kind second.kind)
    cases left with
    | object first =>
        have copies := makes_orUnsupported unshared
          (makesObject_onCopy operator unshared soundLeft soundRight)
          (.unsupportedOperands operator inPlace first.kind right.kind)
        unfold operate Session.operate
        rw [if_neg isPower, if_neg isPower, Handle.kind_view, Handle.kind_view]
        cases right with
        | plain right =>
            cases first with
            | trig place => cases right <;> exact copies
            | polynomial place =>
                cases right with
                | trig content => exact (soundRight (.trig content) rfl).elim
                | _ => exact copies
        | object second =>
            cases first with
            | trig place => cases second <;> exact copies
            | polynomial place =>
                cases second with
                | polynomial other => exact copies
                | trig other => exact reflects soundRight
    | plain left =>
        cases right with
        | plain right =>
            unfold operate
            rw [if_neg isPower]
            exact makes_onViews unshared _ _ _
        | object second =>
            unfold operate Session.operate
            rw [if_neg isPower, if_neg isPower, Handle.kind_view]
            cases left with
            | polynomial content => exact (soundLeft (.polynomial content) rfl).elim
            | trig content => exact (soundLeft (.trig content) rfl).elim
            | _ => cases second <;> exact reflects soundRight

/-- The negative is a new object. -/
theorem makes_negate {handle : Handle} (unshared : heap.Unshared) (sound : handle.Sound heap) :
    Makes heap (negate handle) (liftM (Session.negate (handle.view heap))) := by
  cases handle with
  | plain view => exact makes_lift unshared _
  | object held =>
      cases held with
      | polynomial place =>
          exact makes_object (makesObject_polynomial (realizes_neg unshared (inside_polynomialObject.1 sound)))
      | trig place =>
          exact makes_object (makesObject_trig (realizes_negTrig unshared (inside_trigObject.1 sound)))

/-- A number stays what it is, and a polynomial is copied. -/
theorem makes_confirm {handle : Handle} (unshared : heap.Unshared) (sound : handle.Sound heap) :
    Makes heap (confirm handle) (liftM (Session.confirm (handle.view heap))) := by
  cases handle with
  | plain view => exact makes_lift unshared _
  | object held =>
      cases held with
      | polynomial place =>
          exact makes_object (makesObject_polynomial (realizes_copy unshared (inside_polynomialObject.1 sound)))
      | trig place => exact realizes_fail unshared _

end Program

end TrigAlgebra
