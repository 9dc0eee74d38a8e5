/-
This file proves that programs on trigonometric polynomials in memory compute what the operations say. The
expansion of a sine or cosine copies whatever it changes, so that its argument stays as it is.
-/

import TrigAlgebra.Heap.TrigPolynomials
import TrigAlgebra.Proofs.Expansion
import TrigAlgebra.Proofs.HeapPolynomials
import TrigAlgebra.Proofs.SessionEdits

namespace TrigAlgebra.Program

open TrigAlgebra.Heap TrigAlgebra.TrigPolynomial

variable {base heap middle : Heap} {place other : TrigPlace} {content content' : TrigPolynomial Number}

section Edits

variable {ended : Ended Unit} {edit : Edit (Polynomial Number)}

/-- An edit of the polynomial is one of the whole. -/
theorem Edits.onPolynomial (edits : Edits heap place.polynomial ended edit) (inside : heap.Inside place) :
    Edits heap place ended ((heap.trig place).onPolynomial edit) where
  keeps := edits.keeps.weakenMap
  content_eq := congrArg₂ TrigPolynomial.mk edits.content_eq
    (edits.keeps.angles_eq _ (inside_trig.1 inside).2 (Option.some_ne_none _))
  traced := edits.traced

/-- The angles are joined only if the polynomial could be changed. -/
theorem edits_joined {program : Program Unit} (inside : heap.Inside place) (insideOther : heap.Inside other)
    (edits : Edits heap place.polynomial (program heap) edit) :
    Edits heap place ((program >>= fun _ => joinAngles place other) heap)
      (joined ((heap.trig place).onPolynomial edit) (heap.angles other.angles)) := by
  have whole := edits.onPolynomial inside
  have same : ((heap.trig place).onPolynomial edit).outcome = edit.outcome := rfl
  unfold joined Edit.followedBy
  rw [same]
  cases outcome : edit.outcome with
  | error fault =>
      rw [bind_of_error (edits.ended_eq outcome)]
      exact ⟨whole.keeps, whole.content_eq, rfl⟩
  | ok _ =>
      rw [bind_of_ok (edits.ended_eq outcome)]
      have map : (program heap).heap.angles place.angles = heap.angles place.angles :=
        edits.keeps.angles_eq _ (inside_trig.1 inside).2 (Option.some_ne_none _)
      have otherMap : (program heap).heap.angles other.angles = heap.angles other.angles :=
        edits.keeps.angles_eq _ (inside_trig.1 insideOther).2 (Option.some_ne_none _)
      refine ⟨whole.keeps.trans (keeps_writeAngles whole.keeps.unshared _), ?_, rfl⟩
      refine congrArg₂ TrigPolynomial.mk edits.content_eq ?_
      refine (angles_writeAngles (inside_trig.1 (whole.keeps.inside inside)).2 _).trans ?_
      exact congrArg₂ AngleMap.update map otherMap

variable (unshared : heap.Unshared) (inside : heap.Inside place) (insideOther : heap.Inside other)

include unshared inside insideOther

theorem edits_addTrigTo : Edits heap place (addTrigTo place other heap)
    ((heap.trig place).addTo (heap.trig other)) :=
  edits_joined inside insideOther (edits_addTo unshared (inside_trig.1 inside).1 other.polynomial)

theorem edits_subtractTrigFrom : Edits heap place (subtractTrigFrom place other heap)
    ((heap.trig place).subtractFrom (heap.trig other)) :=
  edits_joined inside insideOther (edits_subtractFrom unshared (inside_trig.1 inside).1 other.polynomial)

theorem edits_multiplyTrigBy : Edits heap place (multiplyTrigBy place other heap)
    ((heap.trig place).multiplyBy (heap.trig other)) :=
  edits_joined inside insideOther (edits_multiplyBy unshared (inside_trig.1 inside).1 other.polynomial)

end Edits

/-- A new polynomial and a new map make a new trigonometric polynomial. -/
theorem Realizes.withAngles {program : Program Place} {expected : Traced (Polynomial Number)}
    (first : Realizes heap (IsNew heap) (program heap) expected) (angles : AngleMap) :
    Realizes heap (IsNew heap)
      ((do return ⟨← program, ← newAngles angles⟩ : Program TrigPlace) heap)
      (expected >>= fun polynomial => pure ⟨polynomial, angles⟩) := by
  refine first.bind fun middle fresh polynomial keeps isNew => ?_
  have added := keeps_withAngles keeps.unshared angles
  refine ⟨added, rfl, .ok ⟨isNew.polynomial, ?_, ?_, ?_⟩⟩
  · rintro _ ⟨⟩
    exact keeps.maps_le
  · exact inside_trig.2 ⟨added.inside isNew.inside, (Nat.lt_succ_self _).trans_eq (Array.size_push _).symm⟩
  · exact congrArg₂ TrigPolynomial.mk ((added.polynomial_eq_of_inside isNew.inside).trans isNew.polynomial_eq)
      (angles_withAngles angles)

theorem realizes_wrap {source : Place} (unshared : heap.Unshared) (inside : heap.Inside source)
    (angles : AngleMap) :
    Realizes heap (IsNew heap) (wrap source angles heap) (pure ⟨heap.polynomial source, angles⟩) :=
  (realizes_copy unshared inside).withAngles angles

theorem realizes_buildTrig (unshared : heap.Unshared) (trig : TrigPolynomial Number) :
    Realizes heap (IsNew heap) (buildTrig trig heap) (pure trig) :=
  (realizes_build unshared trig.polynomial).withAngles trig.angles

theorem realizes_copyTrig (unshared : heap.Unshared) (inside : heap.Inside place) :
    Realizes heap (IsNew heap) (copyTrig place heap) (pure (heap.trig place)) :=
  realizes_wrap unshared (inside_trig.1 inside).1 _

/-- The negated copy is copied once more. -/
theorem realizes_negTrig (unshared : heap.Unshared) (inside : heap.Inside place) :
    Realizes heap (IsNew heap) (negTrig place heap) (pure (heap.trig place).neg) := by
  have map : ∀ middle, Keeps none none heap middle → middle.angles place.angles = heap.angles place.angles :=
    fun middle keeps => keeps.angles_eq _ (inside_trig.1 inside).2 (Option.some_ne_none _)
  change Realizes heap (IsNew heap) (negTrig place heap)
    (pure (heap.polynomial place.polynomial).neg >>= fun polynomial =>
      pure ⟨polynomial, heap.angles place.angles⟩)
  refine (realizes_neg unshared (inside_trig.1 inside).1).bind fun middle fresh polynomial keeps isNew => ?_
  rw [read_bind, map middle keeps, ← isNew.polynomial_eq]
  exact (realizes_wrap keeps.unshared isNew.inside _).older keeps

section Operations

/-- An operation on a copy, with something else that stays as it is. -/
theorem realizes_onCopyTrig {edit : TrigPlace → TrigPlace → Program Unit}
    {edited : TrigPolynomial Number → TrigPolynomial Number → Edit (TrigPolynomial Number)}
    (edits : ∀ {heap : Heap} {place other : TrigPlace}, heap.Unshared → heap.Inside place → heap.Inside other →
      Edits heap place (edit place other heap) (edited (heap.trig place) (heap.trig other)))
    (old : Keeps none none base heap) (first : IsNew base heap place content)
    (second : IsNew base heap other content') :
    Realizes heap (IsNew base) (editNew (copyTrig place) (fun fresh => edit fresh other) heap)
      (.ofResult (edited content content').result) := by
  have copied := realizes_copyTrig old.unshared first.inside
  have done := realizes_editNew (fun fresh => edit fresh other)
    (fun copied => edited copied content') copied fun middle fresh copied keeps isNew => by
      have edited := edits keeps.unshared isNew.inside (keeps.inside second.inside)
      rw [isNew.trig_eq, (second.keep keeps).trig_eq] at edited
      exact edited
  rw [first.trig_eq] at done
  exact done.older old

variable (old : Keeps none none base heap) (first : IsNew base heap place content)
  (second : IsNew base heap other content')

include old first second

theorem realizes_addTrig : Realizes heap (IsNew base) (addTrig place other heap)
    (liftM (content.add content')) :=
  realizes_onCopyTrig edits_addTrigTo old first second

theorem realizes_subtractTrig : Realizes heap (IsNew base) (subtractTrig place other heap)
    (liftM (content.sub content')) :=
  realizes_onCopyTrig edits_subtractTrigFrom old first second

theorem realizes_multiplyTrig : Realizes heap (IsNew base) (multiplyTrig place other heap)
    (liftM (content.mul content')) :=
  realizes_onCopyTrig edits_multiplyTrigBy old first second

end Operations

/-- Sine and cosine are new both. -/
def AreNew (base heap : Heap) (places : TrigPlace × TrigPlace)
    (contents : TrigPolynomial Number × TrigPolynomial Number) : Prop :=
  IsNew base heap places.1 contents.1 ∧ IsNew base heap places.2 contents.2

theorem realizes_addAngle {sine cosine : TrigPlace} {sine' cosine' : TrigPolynomial Number}
    {multiple : TrigPlace × TrigPlace} {multiple' : TrigPolynomial Number × TrigPolynomial Number}
    (old : Keeps none none base heap) (isSine : IsNew base heap sine sine')
    (isCosine : IsNew base heap cosine cosine') (areMultiple : AreNew base heap multiple multiple') :
    Realizes heap (AreNew base) (addAngle sine cosine multiple heap)
      (liftM (TrigPolynomial.addAngle sine' cosine' multiple')) := by
  unfold addAngle TrigPolynomial.addAngle
  simp only [lift_of_bind]
  refine (realizes_multiplyTrig old areMultiple.1 isCosine).bind fun heap₁ sineCosine _ keeps₁ new₁ => ?_
  have old₁ := old.trans keeps₁
  refine (realizes_multiplyTrig old₁ (areMultiple.2.keep keeps₁) (isSine.keep keeps₁)).bind
    fun heap₂ cosineSine _ keeps₂ new₂ => ?_
  have old₂ := old₁.trans keeps₂
  have since₂ := keeps₁.trans keeps₂
  refine (realizes_addTrig old₂ (new₁.keep keeps₂) new₂).bind fun heap₃ nextSine _ keeps₃ new₃ => ?_
  have old₃ := old₂.trans keeps₃
  have since₃ := since₂.trans keeps₃
  refine (realizes_multiplyTrig old₃ (areMultiple.2.keep since₃) (isCosine.keep since₃)).bind
    fun heap₄ cosineCosine _ keeps₄ new₄ => ?_
  have old₄ := old₃.trans keeps₄
  have since₄ := since₃.trans keeps₄
  refine (realizes_multiplyTrig old₄ (areMultiple.1.keep since₄) (isSine.keep since₄)).bind
    fun heap₅ sineSine _ keeps₅ new₅ => ?_
  have old₅ := old₄.trans keeps₅
  refine (realizes_subtractTrig old₅ (new₄.keep keeps₅) new₅).bind fun heap₆ nextCosine _ keeps₆ new₆ => ?_
  exact realizes_pure keeps₆.unshared ⟨new₃.keep (keeps₄.trans (keeps₅.trans keeps₆)), new₆⟩

theorem realizes_addAngles {sine cosine : TrigPlace} {sine' cosine' : TrigPolynomial Number}
    (old : Keeps none none base heap) (isSine : IsNew base heap sine sine')
    (isCosine : IsNew base heap cosine cosine') (additions : Nat) :
    Realizes heap (AreNew base) (addAngles sine cosine additions heap)
      (liftM (TrigPolynomial.addAngles sine' cosine' additions)) := by
  induction additions with
  | zero => exact realizes_pure old.unshared ⟨isSine, isCosine⟩
  | succ additions hypothesis =>
      unfold addAngles TrigPolynomial.addAngles
      rw [lift_of_bind]
      exact hypothesis.bind fun middle multiple _ keeps areMultiple =>
        realizes_addAngle (old.trans keeps) (isSine.keep keeps) (isCosine.keep keeps) areMultiple

theorem realizes_wrapMonomials (unshared : heap.Unshared) (monomials : List (Monomial Number))
    (angles : AngleMap) :
    Realizes heap (fun after place polynomial => IsNew heap after place ⟨polynomial, angles⟩)
      (wrapMonomials monomials angles heap) (liftM (Polynomial.ofMonomials monomials)) := by
  rw [← traced_bind_pure (liftM _)]
  exact (realizes_ofMonomials unshared _).bind fun middle fresh polynomial keeps isNew => by
    have wrapped := (realizes_wrap keeps.unshared isNew.inside angles).older keeps
    rw [isNew.polynomial_eq] at wrapped
    exact wrapped.of_pure fun _ _ wrapped => wrapped

theorem realizes_multipleAngle (unshared : heap.Unshared) (function : Circular) (angles : AngleMap)
    (monomial : Monomial Number) (found : Placeholders) (multiple : Int) :
    Realizes heap (IsNew heap) (multipleAngle function angles monomial found multiple heap)
      (TrigPolynomial.multipleAngle function angles monomial found multiple) := by
  unfold multipleAngle TrigPolynomial.multipleAngle
  refine (realizes_wrapMonomials unshared _ angles).bind fun heap₁ sine _ keeps₁ new₁ => ?_
  refine (realizes_wrapMonomials keeps₁.unshared _ angles).bind fun heap₂ cosine _ keeps₂ new₂ => ?_
  refine Realizes.lift_bind keeps₂.unshared fun shown => ?_
  refine (realizes_traced keeps₂.unshared _).bind fun heap₃ _ _ keeps₃ _ => ?_
  have old := keeps₁.trans (keeps₂.trans keeps₃)
  refine (realizes_addAngles old (new₁.keep (keeps₂.trans keeps₃)) ((new₂.older keeps₁).keep keeps₃)
    (multiple.natAbs - 1)).bind fun heap₄ places _ keeps₄ areNew => ?_
  obtain ⟨sine, cosine⟩ := places
  have negated := realizes_negTrig keeps₄.unshared areNew.1.inside
  rw [areNew.1.trig_eq] at negated
  dsimp only
  cases function with
  | sine =>
      split
      · change Realizes heap₄ (IsNew heap) _ (pure _ >>= pure)
        exact negated.bind fun heap₅ _ _ keeps₅ isNew =>
          realizes_pure keeps₅.unshared (isNew.older (old.trans keeps₄))
      · exact realizes_pure keeps₄.unshared areNew.1
  | cosine =>
      split
      · change Realizes heap₄ (IsNew heap) _ (pure _ >>= fun _ => pure _)
        exact negated.bind fun heap₅ _ _ keeps₅ _ =>
          realizes_pure keeps₅.unshared (areNew.2.keep keeps₅)
      · exact realizes_pure keeps₄.unshared areNew.2

/-- The sign is taken off in a second edit. -/
def withoutSign (function : Circular) (multiple : Int) (trig : TrigPolynomial Number) :
    Edit (TrigPolynomial Number) :=
  if function = .cosine ∧ multiple = -1 then
    trig.onPolynomial (trig.polynomial.scaleBy (Coefficient.ofInt (-1)))
  else .done trig

theorem singleAngle_eq (function : Circular) (trig : TrigPolynomial Number) (var : Int)
    (found : Placeholders) (multiple : Int) :
    TrigPolynomial.singleAngle function trig var found multiple = (do
      let renamed ← (trig.onPolynomial (trig.polynomial.renameIn var (found.of function))).result
      (withoutSign function multiple renamed).result) := by
  unfold TrigPolynomial.singleAngle Polynomial.rename onPolynomial
  rw [Edit.result_map]
  cases (trig.polynomial.renameIn var (found.of function)).result with
  | error fault => rfl
  | ok renamed =>
      change _ = (withoutSign function multiple ⟨renamed, trig.angles⟩).result
      unfold withoutSign
      cases function with
      | sine =>
          rw [if_neg fun both => nomatch both.1]
          rfl
      | cosine =>
          change (if multiple = -1 then renamed.scale (Coefficient.ofInt (-1)) >>= fun polynomial =>
              .ok (TrigPolynomial.mk polynomial trig.angles) else .ok ⟨renamed, trig.angles⟩) = _
          by_cases negative : multiple = -1
          · rw [if_pos negative, if_pos ⟨rfl, negative⟩, onPolynomial, Edit.result_map, Polynomial.scale]
            cases (renamed.scaleBy (Coefficient.ofInt (-1))).result <;> rfl
          · rw [if_neg negative, if_neg fun both => negative both.2]
            rfl

/-- The copy is renamed and, if it has to, scaled. -/
theorem realizes_singleAngle (unshared : heap.Unshared) (inside : heap.Inside place) (function : Circular)
    (var : Int) (found : Placeholders) (multiple : Int) :
    Realizes heap (IsNew heap) (singleAngle function place var found multiple heap)
      (liftM (TrigPolynomial.singleAngle function (heap.trig place) var found multiple)) := by
  have renamed := realizes_editNew (fun fresh => renameIn fresh.polynomial var (found.of function))
    (fun content => content.onPolynomial (content.polynomial.renameIn var (found.of function)))
    (realizes_copyTrig unshared inside) fun middle fresh content keeps isNew => by
      have edits := (edits_renameIn keeps.unshared (inside_trig.1 isNew.inside).1 var
        (found.of function)).onPolynomial isNew.inside
      rw [← isNew.trig_eq]
      exact edits
  have scaled := realizes_editNew (fun fresh => if function = .cosine ∧ multiple = -1 then
      scaleBy fresh.polynomial (Coefficient.ofInt (-1)) else pure ())
    (withoutSign function multiple) renamed fun middle fresh content keeps isNew => by
      unfold withoutSign
      split
      · rw [← isNew.trig_eq]
        exact (edits_scaleBy keeps.unshared (inside_trig.1 isNew.inside).1 _).onPolynomial isNew.inside
      · exact ⟨keeps.unshared.keeps, isNew.trig_eq, rfl⟩
  rw [editNew_editNew] at scaled
  rw [singleAngle_eq, lift_of_bind]
  exact scaled

theorem realizes_constant (unshared : heap.Unshared) (angles : AngleMap) (result : Except Fault Number) :
    Realizes heap (IsNew heap)
      ((do buildTrig (.constant (← (result : Except Fault Number)) angles) : Program TrigPlace) heap)
      (do return .constant (← (result : Except Fault Number)) angles) :=
  Realizes.lift_bind unshared fun _ => realizes_buildTrig unshared _

theorem realizes_expandMonomial (unshared : heap.Unshared) (inside : heap.Inside place) (function : Circular)
    (monomial : Monomial Number) :
    Realizes heap (IsNew heap) (expandMonomial function place monomial heap)
      (TrigPolynomial.expandMonomial function (heap.trig place) monomial) := by
  unfold expandMonomial TrigPolynomial.expandMonomial
  rw [read_bind]
  cases monomial.powers.factors with
  | nil => exact realizes_constant unshared _ _
  | cons factor _ =>
      by_cases isZero : Coefficient.isZero monomial.coefficient
      · simp only [if_pos isZero]
        exact realizes_constant unshared _ _
      · simp only [if_neg isZero]
        refine Realizes.lift_bind unshared fun (found, multiple) => ?_
        by_cases single : multiple.natAbs = 1
        · simp only [if_pos single]
          exact realizes_singleAngle unshared inside function factor.var found multiple
        · simp only [if_neg single]
          exact realizes_multipleAngle unshared function _ monomial found multiple

section SumFormula

variable {expandFirst expandRest : Circular → Program TrigPlace}
  {first rest : Circular → Traced (TrigPolynomial Number)}

/-- The parts are expanded when they are needed; what was expanded before stays. -/
theorem realizes_products {combine : TrigPlace → TrigPlace → Program TrigPlace}
    {combined : TrigPolynomial Number → TrigPolynomial Number → Except Fault (TrigPolynomial Number)}
    (old : Keeps none none base heap)
    (firstPart : ∀ function after, Keeps none none heap after →
      Realizes after (IsNew base) (expandFirst function after) (first function))
    (restPart : ∀ function after, Keeps none none heap after →
      Realizes after (IsNew base) (expandRest function after) (rest function))
    (realizes : ∀ {heap : Heap} {left right : TrigPlace} {left' right' : TrigPolynomial Number},
      Keeps none none base heap → IsNew base heap left left' → IsNew base heap right right' →
        Realizes heap (IsNew base) (combine left right heap) (liftM (combined left' right')))
    (function₁ function₂ function₃ function₄ : Circular) :
    Realizes heap (IsNew base)
      ((do
        let left ← multiplyTrig (← expandFirst function₁) (← expandRest function₂)
        let right ← multiplyTrig (← expandFirst function₃) (← expandRest function₄)
        combine left right : Program TrigPlace) heap)
      (do
        let left ← (← first function₁).mul (← rest function₂)
        let right ← (← first function₃).mul (← rest function₄)
        combined left right) := by
  refine (firstPart function₁ heap old.unshared.keeps).bind fun heap₁ _ _ keeps₁ new₁ => ?_
  refine (restPart function₂ heap₁ keeps₁).bind fun heap₂ _ _ keeps₂ new₂ => ?_
  have since₂ := keeps₁.trans keeps₂
  refine (realizes_multiplyTrig (old.trans since₂) (new₁.keep keeps₂) new₂).bind
    fun heap₃ left _ keeps₃ isLeft => ?_
  have since₃ := since₂.trans keeps₃
  refine (firstPart function₃ heap₃ since₃).bind fun heap₄ _ _ keeps₄ new₄ => ?_
  have since₄ := since₃.trans keeps₄
  refine (restPart function₄ heap₄ since₄).bind fun heap₅ _ _ keeps₅ new₅ => ?_
  have since₅ := since₄.trans keeps₅
  refine (realizes_multiplyTrig (old.trans since₅) (new₄.keep keeps₅) new₅).bind
    fun heap₆ right _ keeps₆ isRight => ?_
  exact realizes (old.trans (since₅.trans keeps₆)) (isLeft.keep ((keeps₄.trans keeps₅).trans keeps₆)) isRight

theorem realizes_sumFormula (old : Keeps none none base heap)
    (firstPart : ∀ function after, Keeps none none heap after →
      Realizes after (IsNew base) (expandFirst function after) (first function))
    (restPart : ∀ function after, Keeps none none heap after →
      Realizes after (IsNew base) (expandRest function after) (rest function)) (function : Circular) :
    Realizes heap (IsNew base) (sumFormula function expandFirst expandRest heap)
      (TrigPolynomial.sumFormula function first rest) := by
  cases function with
  | sine => exact realizes_products old firstPart restPart realizes_addTrig .sine .cosine .cosine .sine
  | cosine => exact realizes_products old firstPart restPart realizes_subtractTrig .cosine .cosine .sine .sine

end SumFormula

/-- The first monomial and the others, as polynomials. -/
def parts (monomial : Monomial Number) (others : List (Monomial Number)) :
    Traced (Polynomial Number × Polynomial Number) := do
  let first ← (Polynomial.ofMonomials [monomial] : Except Fault _)
  let rest ← (Polynomial.ofMonomials others : Except Fault _)
  return (first, rest)

/-- Neither part has more monomials than were given to it. -/
theorem realizes_split (unshared : heap.Unshared) (monomial : Monomial Number)
    (others : List (Monomial Number)) :
    Realizes heap (fun after places contents =>
        AreNew heap after places
          (⟨contents.1, heap.angles place.angles⟩, ⟨contents.2, heap.angles place.angles⟩) ∧
        contents.1.monomials.length ≤ 1 ∧ contents.2.monomials.length ≤ others.length)
      (split place monomial others heap) (parts monomial others) := by
  unfold split
  rw [read_bind]
  refine (realizes_wrapMonomials unshared [monomial] _).known.bind fun heap₁ first _ keeps₁ new₁ => ?_
  refine (realizes_wrapMonomials keeps₁.unshared others _).known.bind fun heap₂ rest _ keeps₂ new₂ => ?_
  exact realizes_pure keeps₂.unshared ⟨⟨new₁.1.keep keeps₂, new₂.1.older keeps₁⟩,
    Polynomial.length_ofMonomials_le (outcome_lift_eq_ok.1 new₁.2),
    Polynomial.length_ofMonomials_le (outcome_lift_eq_ok.1 new₂.2)⟩

theorem expand_split {function : Circular} {trig : TrigPolynomial Number} {monomial second : Monomial Number}
    {others : List (Monomial Number)} (checked : checkArgument function trig = .ok ())
    (shape : trig.polynomial.monomials = monomial :: second :: others) :
    trig.expand function = (do
      let (first, rest) ← parts monomial (second :: others)
      let shown ← trig.polynomial.text
      Traced.note ("Expanding " ++ function.name ++ "(" ++ shown ++ ")")
      TrigPolynomial.sumFormula function (fun part => TrigPolynomial.expand part ⟨first, trig.angles⟩)
        (fun part => TrigPolynomial.expand part ⟨rest, trig.angles⟩)) := by
  unfold parts
  cases restCase : Polynomial.ofMonomials (second :: others) with
  | error fault =>
      rw [expand_rest_failed checked shape restCase]
      rfl
  | ok rest =>
      rw [expand_cons_cons checked shape rfl restCase]
      rfl

/-- A sum is expanded as soon as everything shorter can be. -/
theorem realizes_sum {depth : Nat} {function : Circular} {monomial second : Monomial Number}
    {others : List (Monomial Number)} (unshared : heap.Unshared)
    (checked : checkArgument function (heap.trig place) = .ok ())
    (shape : (heap.trig place).polynomial.monomials = monomial :: second :: others)
    (expands : ∀ {heap : Heap} {place : TrigPlace} (function : Circular), heap.Unshared → heap.Inside place →
      (heap.trig place).polynomial.monomials.length ≤ others.length + 1 →
        Realizes heap (IsNew heap) (expandWithin function place depth heap)
          ((heap.trig place).expand function)) :
    Realizes heap (IsNew heap)
      ((do
        let (first, rest) ← split place monomial (second :: others)
        let shown ← (heap.trig place).polynomial.text
        Traced.note ("Expanding " ++ function.name ++ "(" ++ shown ++ ")")
        sumFormula function (fun part => expandWithin part first depth)
          (fun part => expandWithin part rest depth) : Program TrigPlace) heap)
      ((heap.trig place).expand function) := by
  rw [expand_split checked shape]
  refine (realizes_split unshared monomial (second :: others)).bind
    fun heap₁ (first, rest) (first', rest') keeps₁ ⟨areNew, short, shorter⟩ => ?_
  refine Realizes.lift_bind keeps₁.unshared fun shown => ?_
  refine (realizes_traced keeps₁.unshared _).bind fun heap₂ _ _ keeps₂ _ => ?_
  have expandsPart {part : TrigPlace} {content : TrigPolynomial Number} (isNew : IsNew heap heap₁ part content)
      (bound : content.polynomial.monomials.length ≤ others.length + 1) (function : Circular) (after : Heap)
      (keeps : Keeps none none heap₂ after) :
      Realizes after (IsNew heap) (expandWithin function part depth after) (content.expand function) := by
    have kept := isNew.keep (keeps₂.trans keeps)
    rw [← kept.trig_eq] at bound ⊢
    exact (expands function keeps.unshared kept.inside bound).older ((keeps₁.trans keeps₂).trans keeps)
  exact realizes_sumFormula (keeps₁.trans keeps₂)
    (expandsPart areNew.1 (short.trans (Nat.succ_le_succ (Nat.zero_le _)))) (expandsPart areNew.2 shorter) function

/-- The parts of a sum are shorter than the sum, so that the depth is never used up. -/
theorem realizes_expandWithin (depth : Nat) (function : Circular) (unshared : heap.Unshared)
    (inside : heap.Inside place) (deep : (heap.trig place).polynomial.monomials.length < depth) :
    Realizes heap (IsNew heap) (expandWithin function place depth heap)
      ((heap.trig place).expand function) := by
  induction depth generalizing heap place function with
  | zero => exact (Nat.not_lt_zero _ deep).elim
  | succ depth hypothesis =>
      unfold expandWithin
      rw [read_bind]
      cases checked : checkArgument function (heap.trig place) with
      | error fault =>
          rw [lift_bind_of_error rfl, TrigPolynomial.expand, checked]
          exact realizes_fail unshared fault
      | ok _ =>
          rw [lift_bind_of_ok rfl]
          cases shape : (heap.trig place).polynomial.monomials with
          | nil =>
              rw [expand_nil checked shape]
              exact realizes_constant unshared _ _
          | cons monomial rest =>
              cases rest with
              | nil =>
                  rw [expand_singleton checked shape]
                  exact realizes_expandMonomial unshared inside function monomial
              | cons second others =>
                  rw [shape] at deep
                  exact realizes_sum unshared checked shape fun function unshared inside bound =>
                    hypothesis function unshared inside (bound.trans_lt (Nat.lt_of_succ_lt_succ deep))

theorem realizes_expand (unshared : heap.Unshared) (inside : heap.Inside place) (function : Circular) :
    Realizes heap (IsNew heap) (expand function place heap) ((heap.trig place).expand function) := by
  unfold expand
  rw [read_bind]
  exact realizes_expandWithin _ function unshared inside (Nat.lt_succ_self _)

end TrigAlgebra.Program
