/-
This file proves that a session only holds polynomials that were built by operations which returned,
as long as no step of it fails.
-/

import TrigAlgebra.Proofs.Reachable
import TrigAlgebra.Proofs.SessionInvariant

namespace TrigAlgebra

namespace TrigPolynomial

open TrigAlgebra.Polynomial

variable {K : Type} [Coefficient K]

/-- One more addition of the angle keeps sine and cosine reachable. -/
theorem reachable_addAngle {sine cosine : TrigPolynomial K}
    {multiple next : TrigPolynomial K × TrigPolynomial K}
    (ofSine : sine.polynomial.Reachable) (ofCosine : cosine.polynomial.Reachable)
    (before : multiple.1.polynomial.Reachable ∧ multiple.2.polynomial.Reachable)
    (returned : addAngle sine cosine multiple = .ok next) :
    next.1.polynomial.Reachable ∧ next.2.polynomial.Reachable := by
  simp only [addAngle, bind_eq_ok, pure_eq_ok, add_eq_ok, sub_eq_ok, mul_eq_ok] at returned
  obtain ⟨sineCosine, ⟨one, -⟩, cosineSine, ⟨two, -⟩, nextSine, ⟨sum, -⟩, cosineCosine, ⟨three, -⟩,
    sineSine, ⟨four, -⟩, nextCosine, ⟨difference, -⟩, rfl⟩ := returned
  exact ⟨.add (.mul before.1 ofCosine one) (.mul before.2 ofSine two) sum,
    .sub (.mul before.2 ofCosine three) (.mul before.1 ofSine four) difference⟩

/-- By induction on the additions, every multiple of an angle is reachable. -/
theorem reachable_addAngles {sine cosine : TrigPolynomial K} {additions : Nat}
    {pair : TrigPolynomial K × TrigPolynomial K}
    (ofSine : sine.polynomial.Reachable) (ofCosine : cosine.polynomial.Reachable)
    (returned : addAngles sine cosine additions = .ok pair) :
    pair.1.polynomial.Reachable ∧ pair.2.polynomial.Reachable := by
  induction additions generalizing pair with
  | zero =>
      cases returned
      exact ⟨ofSine, ofCosine⟩
  | succ additions hypothesis =>
      obtain ⟨before, beforeCase, returned⟩ := bind_eq_ok.1 returned
      exact reachable_addAngle ofSine ofCosine (hypothesis beforeCase) returned

/-- The expansion of a multiple starts from two variables. -/
theorem reachable_multipleAngle {function : Circular} {angles : AngleMap} {item : Monomial K}
    {found : Placeholders} {multiple : Int} {result : TrigPolynomial K}
    (returned : (multipleAngle function angles item found multiple).outcome = .ok result) :
    result.polynomial.Reachable := by
  obtain ⟨sine, cosine, pair, sineCase, cosineCase, pairCase, rfl⟩ := multipleAngle_eq_ok returned
  obtain ⟨ofSine, ofCosine⟩ :=
    reachable_addAngles (.ofVariable sineCase) (.ofVariable cosineCase) pairCase
  cases function with
  | sine =>
      by_cases negative : multiple < 0
      · simp only [signed, if_pos negative]
        exact .neg ofSine
      · simp only [signed, if_neg negative]
        exact ofSine
  | cosine => exact ofCosine

/-- A renamed polynomial is merged, and only scaled afterwards. -/
theorem reachable_singleAngle {function : Circular} {trig result : TrigPolynomial K}
    {var multiple : Int} {found : Placeholders} (reachable : trig.polynomial.Reachable)
    (returned : singleAngle function trig var found multiple = .ok result) :
    result.polynomial.Reachable := by
  obtain ⟨-, renamed, renamedCase, scaled⟩ := singleAngle_eq_ok returned
  split at scaled
  · exact .scale (.rename reachable renamedCase) scaled
  · exact scaled ▸ .rename reachable renamedCase

/-- An expansion puts its result together by the operations on polynomials. -/
theorem reachable_expands {function : Circular} {trig result : TrigPolynomial K}
    (expands : Expands function trig result) (reachable : trig.polynomial.Reachable) :
    result.polynomial.Reachable := by
  induction expands with
  | nothing => exact .constant _
  | constant => exact .constant _
  | zero => exact .constant _
  | single shape powers known integer unit returned => exact reachable_singleAngle reachable returned
  | multiple shape powers nonzero known integer returned => exact reachable_multipleAngle returned
  | sineOfSum shape firstCase restCase _ _ _ _ left right sum sineFirst cosineFirst sineRest cosineRest =>
      have first := Reachable.ofMonomials firstCase
      have rest := Reachable.ofMonomials restCase
      exact .add (.mul (sineFirst first) (cosineRest rest) (mul_eq_ok.1 left).1)
        (.mul (cosineFirst first) (sineRest rest) (mul_eq_ok.1 right).1) (add_eq_ok.1 sum).1
  | cosineOfSum shape firstCase restCase _ _ _ _ left right difference sineFirst cosineFirst sineRest
      cosineRest =>
      have first := Reachable.ofMonomials firstCase
      have rest := Reachable.ofMonomials restCase
      exact .sub (.mul (cosineFirst first) (cosineRest rest) (mul_eq_ok.1 left).1)
        (.mul (sineFirst first) (sineRest rest) (mul_eq_ok.1 right).1) (sub_eq_ok.1 difference).1

end TrigPolynomial

namespace Session

/-- What is looked at was reached by operations, if it is a polynomial at all. -/
def View.Reachable : View → Prop
  | .polynomial content => content.Reachable
  | .trig content => content.polynomial.Reachable
  | _ => True

/-- New content was reached by operations; values need nothing. -/
def Product.Reachable : Product → Prop
  | .value _ => True
  | .content result => result.underlying.Reachable

/-- Every object of the session was built by operations that returned. -/
def Reachable (session : Session) : Prop :=
  ∀ content ∈ session.objects, content.underlying.Reachable

/-- A session begins without objects. -/
theorem reachable_empty : ({} : Session).Reachable :=
  fun _ member => (List.not_mem_nil member).elim

/-- An operation in place that succeeds leaves a reachable polynomial. -/
theorem reachable_edit {operator : Operator} {polynomial : Numeric} {operand : Operand}
    (reachable : polynomial.Reachable)
    (other : ∀ content, operand = .polynomial content → content.Reachable) :
    Ensures (operand.edit operator polynomial).result Polynomial.Reachable := by
  intro new returned
  cases operand with
  | number value =>
      cases operator with
      | add => exact .addScalar reachable returned
      | subtract => exact .subScalar reachable returned
      | multiply => exact .scale reachable returned
      | divide => exact .divide reachable returned
      | _ => cases returned
  | polynomial content =>
      have ofContent := other content rfl
      cases operator with
      | add => exact .add reachable ofContent returned
      | subtract => exact .sub reachable ofContent returned
      | multiply => exact .mul reachable ofContent returned
      | _ => cases returned

/-- The polynomials of two trigonometric polynomials are added, subtracted or multiplied. -/
theorem reachable_editTrigs {operator : Operator} {trig other : Trigonometric}
    (reachable : trig.polynomial.Reachable) (otherReachable : other.polynomial.Reachable) :
    Ensures (editTrigs operator trig other).result fun new => new.polynomial.Reachable := by
  intro new returned
  cases operator with
  | add => exact .add reachable otherReachable (TrigPolynomial.add_eq_ok.1 returned).1
  | subtract => exact .sub reachable otherReachable (TrigPolynomial.sub_eq_ok.1 returned).1
  | multiply => exact .mul reachable otherReachable (TrigPolynomial.mul_eq_ok.1 returned).1
  | _ => cases returned

/-- The angles do not matter, only the polynomial below them. -/
theorem reachable_editContent {operator : Operator} {content : Content} {other : View}
    {edit : Edit Content} (reachable : content.underlying.Reachable) (otherReachable : other.Reachable)
    (found : editContent operator content other = some edit) :
    Ensures edit.result fun new => new.underlying.Reachable := by
  have given {operand : Operand} (isOperand : other.operand? = some operand) (polynomial : Numeric)
      (same : operand = .polynomial polynomial) : polynomial.Reachable := by
    rcases operand?_eq_some.1 isOperand with ⟨value, rfl, rfl⟩ | ⟨content, rfl, rfl⟩
    · cases same
    · cases same
      exact otherReachable
  rcases editContent_cases found with ⟨trig, right, rfl, rfl, rfl⟩ | ⟨trig, operand, rfl, isOperand, rfl⟩ |
    ⟨polynomial, operand, rfl, isOperand, rfl⟩ | ⟨-, same⟩
  · rw [Edit.result_map, ensures_map]
    exact reachable_editTrigs reachable otherReachable
  · rw [Edit.result_map, ensures_map, editTrig, TrigPolynomial.onPolynomial, Edit.result_map, ensures_map]
    exact reachable_edit reachable (given isOperand)
  · rw [Edit.result_map, ensures_map]
    exact reachable_edit reachable (given isOperand)
  · intro new returned
    rw [← (Edit.result_eq_ok.1 returned).2, same]
    exact reachable

/-- A copy is reached as the original was. -/
theorem reachable_onCopy {operator : Operator} {content : Content} {other : View}
    {result : Except Fault Product} (reachable : content.underlying.Reachable)
    (otherReachable : other.Reachable)
    (found : onCopy operator content other = some result) : Ensures result Product.Reachable := by
  obtain ⟨edit, isEdit, rfl⟩ := Option.map_eq_some_iff.1 found
  rw [ensures_map]
  exact reachable_editContent reachable otherReachable isEdit

/-- Taken in the other order, the operation starts from the polynomial or its negation. -/
theorem reachable_reflected {operator : Operator} {left : View} {content : Content}
    {result : Except Fault Product} (leftReachable : left.Reachable)
    (reachable : content.underlying.Reachable)
    (found : reflected operator left content = some result) : Ensures result Product.Reachable := by
  unfold reflected at found
  split at found
  · exact reachable_onCopy reachable leftReachable found
  · exact reachable_onCopy reachable leftReachable found
  · rename_i polynomial
    have negated : (Content.polynomial polynomial.neg).underlying.Reachable := .neg reachable
    exact reachable_onCopy negated leftReachable found
  · rename_i trig
    have negated : (Content.trig trig.neg).underlying.Reachable := .neg reachable
    exact reachable_onCopy negated leftReachable found
  · cases found

/-- A power is a product of reachable polynomials. -/
theorem reachable_power {base exponent : View} (reachable : base.Reachable) :
    Ensures (power base exponent) Product.Reachable := by
  unfold power
  split
  · split
    · rw [ensures_bind]
      intro new returned
      exact ensures_pure.2 (Polynomial.Reachable.pow reachable returned)
    · simp [Ensures, bind_eq_ok]
  · simp [Ensures, bind_eq_ok]
  · rw [ensures_bind]
    exact fun value _ => ensures_pure.2 trivial
  · exact ensures_error

/-- Every operator on reachable operands makes something reachable. -/
theorem reachable_operate {operator : Operator} {inPlace : Bool} {left right : View}
    (leftReachable : left.Reachable) (rightReachable : right.Reachable) :
    Ensures (operate operator inPlace left right) Product.Reachable := by
  unfold operate
  dsimp only
  split
  · exact reachable_power leftReachable
  · split
    · exact ensures_map.2 ensures_true
    · split
      · exact ensures_map.2 ensures_true
      · exact ensures_error
    · exact ensures_getD (fun found => reachable_reflected leftReachable rightReachable) ensures_error
    · exact ensures_getD (fun found => reachable_onCopy leftReachable rightReachable) ensures_error
    · exact ensures_getD (fun found => reachable_onCopy leftReachable rightReachable) ensures_error
    · exact ensures_getD (fun found => reachable_reflected leftReachable rightReachable) ensures_error
    · exact ensures_getD (fun found => reachable_reflected leftReachable rightReachable) ensures_error
    · exact ensures_error

/-- A negated polynomial is reachable. -/
theorem reachable_negate {view : View} (reachable : view.Reachable) :
    Ensures (negate view) Product.Reachable := by
  cases view with
  | polynomial content => exact ensures_ok.2 (Polynomial.Reachable.neg reachable)
  | trig content => exact ensures_ok.2 (Polynomial.Reachable.neg reachable)
  | number value => exact ensures_ok.2 trivial
  | monomial item => exact ensures_ok.2 trivial
  | factor value => exact ensures_error
  | other kind => exact ensures_error

/-- A confirmed polynomial is a copy. -/
theorem reachable_confirm {view : View} (reachable : view.Reachable) :
    Ensures (confirm view) Product.Reachable := by
  cases view with
  | polynomial content => exact ensures_ok.2 reachable
  | number value => exact ensures_ok.2 trivial
  | _ => exact ensures_error

theorem reachable_copied {view : View} {value : Value} (reachable : view.Reachable) :
    (view.copied value).Reachable := by
  cases view with
  | polynomial content => exact reachable
  | trig content => exact reachable
  | _ => trivial

/-- The polynomial inside a trigonometric one is a property of it. -/
theorem reachable_property {property : Property} {view : View} (reachable : view.Reachable) :
    Ensures (view.property property) Product.Reachable := by
  unfold View.property
  split
  · exact ensures_ok.2 reachable
  all_goals first | exact ensures_error | exact ensures_ok.2 trivial

/-- An evaluation makes a number, and no new content. -/
theorem reachable_evaluate {way : Way} {view : View} {given : Given} :
    Ensures (evaluate way view given) Product.Reachable := by
  intro product returned
  obtain ⟨value, rfl⟩ := evaluate_number product returned
  trivial

theorem reachable_divideMonomial {item : Monomial Number} {divisor : View} :
    Ensures (divideMonomial item divisor) Product.Reachable := by
  unfold divideMonomial
  simp only [ensures_bind, ensures_pure]
  intro other _ quotient _
  cases quotient <;> trivial

/-- A number becomes a constant, and a polynomial is copied. -/
theorem reachable_toPolynomial {view : View} (reachable : view.Reachable) :
    Ensures view.toPolynomial Polynomial.Reachable := by
  unfold View.toPolynomial
  split
  · exact ensures_ok.2 (.constant _)
  · exact ensures_ok.2 reachable
  · exact ensures_error
  · exact ensures_ok.2 .zero
  · exact ensures_error

theorem reachable_asPolynomial {view : View} {name : String} (reachable : view.Reachable) :
    Ensures (view.asPolynomial name) Polynomial.Reachable := by
  intro content isContent
  rwa [asPolynomial_eq_ok.1 isContent] at reachable

/-- The angle is the polynomial that was given for it. -/
theorem reachable_ofAngle {angle sine cosine : View} (reachable : angle.Reachable) :
    Ensures (ofAngle angle sine cosine) fun new => new.polynomial.Reachable := by
  unfold ofAngle
  simp only [ensures_bind, ensures_pure]
  exact fun _ _ _ _ _ _ => reachable_asPolynomial reachable

/-- The sine or cosine of a reachable argument is reachable, whichever way it is asked for. -/
theorem reachable_circular {function : Circular} {asking : Asking} {view : View}
    (reachable : view.Reachable) :
    Ensures (view.circular function asking).outcome Product.Reachable := by
  unfold View.circular
  split
  · rw [Traced.outcome_bind]
    exact ensures_bind.2 fun new returned => ensures_ok.2
      (TrigPolynomial.reachable_expands (TrigPolynomial.expands_of_expand returned) reachable)
  · rw [Traced.outcome_ofResult, ensures_map]
    exact ensures_true
  all_goals exact ensures_error

variable {session : Session}

/-- A reference leads to an object of the session. -/
theorem reachable_follow (reachable : session.Reachable) (value : Value) :
    (session.follow value).Reachable := by
  cases value with
  | object reference =>
      change (session.objects[reference]?.elim (View.other .nothing) Content.view).Reachable
      cases found : session.objects[reference]? with
      | none => trivial
      | some content =>
          have ofContent := reachable content (List.mem_of_getElem? found)
          cases content with
          | polynomial content => exact ofContent
          | trig content => exact ofContent
  | _ => trivial

/-- Polynomials are only come by through the objects. -/
theorem reachable_look (reachable : session.Reachable) (source : Source) :
    Ensures (session.look source) View.Reachable := by
  unfold look
  rw [ensures_map]
  exact fun value _ => reachable_follow reachable value

/-- A name that is written out becomes a variable. -/
theorem reachable_readBase (reachable : session.Reachable) (base : Base) :
    Ensures (session.readBase base) Polynomial.Reachable := by
  cases base with
  | nothing => exact ensures_ok.2 .zero
  | named name => exact fun polynomial returned => .named returned
  | source source =>
      simp only [readBase, ensures_bind]
      exact fun view looked => reachable_toPolynomial (reachable_look reachable source view looked)

/-- Each of the steps that only compute makes something reachable, if it makes anything. -/
theorem reachable_calculate (reachable : session.Reachable) (action : Action) :
    Ensures (session.calculate action) Product.Reachable := by
  have looked := reachable_look reachable
  cases action with
  | operate operator left right =>
      simp only [calculate, ensures_bind]
      exact fun first isFirst second isSecond =>
        reachable_operate (looked left first isFirst) (looked right second isSecond)
  | negate source =>
      simp only [calculate, ensures_bind]
      exact fun view isView => reachable_negate (looked source view isView)
  | confirm source =>
      simp only [calculate, ensures_bind]
      exact fun view isView => reachable_confirm (looked source view isView)
  | copy byMethod source =>
      simp only [calculate, ensures_bind]
      intro value _
      split
      · exact ensures_error
      · exact ensures_pure.2 (reachable_copied (reachable_follow reachable value))
  | property property source =>
      simp only [calculate, ensures_bind]
      exact fun view isView => reachable_property (looked source view isView)
  | zero => exact ensures_ok.2 .zero
  | constant source =>
      simp only [calculate, ensures_bind, ensures_pure]
      exact fun view isView => reachable_toPolynomial (looked source view isView)
  | named name index =>
      simp only [calculate, ensures_map]
      exact fun polynomial returned => .named returned
  | ofPowers coefficient powers =>
      simp only [calculate, ensures_bind, ensures_pure]
      exact fun _ _ number _ polynomial returned => .ofPowers returned
  | ofVariable var coefficient =>
      simp only [calculate, ensures_bind, ensures_pure]
      exact fun number _ polynomial returned => .ofVariable returned
  | ofMonomials sources =>
      simp only [calculate, ensures_bind, ensures_pure]
      exact fun monomials _ polynomial built => .ofMonomials built
  | trig base angles =>
      simp only [calculate, ensures_bind, ensures_pure]
      exact reachable_readBase reachable base
  | angle angle sine cosine =>
      simp only [calculate, ensures_bind, ensures_pure]
      exact fun view isView _ _ _ _ => reachable_ofAngle (looked angle view isView)
  | substitute source values =>
      simp only [calculate, ensures_bind, ensures_pure]
      exact fun view isView content isContent new returned =>
        .evaluatePartial (reachable_asPolynomial (looked source view isView) content isContent) returned
  | evaluate way source argument =>
      simp only [calculate, ensures_bind]
      exact fun _ _ _ _ => reachable_evaluate
  | derivative source order =>
      simp only [calculate, ensures_bind, ensures_pure]
      exact fun view isView content isContent new returned =>
        .derivative (reachable_asPolynomial (looked source view isView) content isContent) returned
  | integral source constant =>
      simp only [calculate, ensures_bind, ensures_pure]
      exact fun view isView number _ content isContent new returned =>
        .integral (reachable_asPolynomial (looked source view isView) content isContent) returned
  | divide source divisor =>
      simp only [calculate, ensures_bind]
      exact fun _ _ _ _ _ _ => reachable_divideMonomial
  | roundTrip source =>
      simp only [calculate, ensures_bind, ensures_pure]
      intro _ _ _ _ expression _ polynomial returned
      obtain ⟨monomials, -, built⟩ := bind_eq_ok.1 returned
      exact .ofMonomials built
  | factor var power => exact ensures_map.2 ensures_true
  | _ =>
      simp only [calculate, approx, ensures_bind, ensures_pure, ensures_ok]
      simp [Product.Reachable, Product.truth, Product.text, Product.number, Product.monomial]

theorem reachable_rootsOf {precise : Bool} {view : View} :
    Ensures (rootsOf precise view).outcome Product.Reachable := by
  intro product returned
  obtain ⟨roots, rfl⟩ := rootsOf_roots product returned
  trivial

/-- Expansions and roots come from reachable arguments too. -/
theorem reachable_compute (reachable : session.Reachable) (action : Action) :
    Ensures (session.compute action).outcome Product.Reachable := by
  unfold compute
  split
  · exact ensures_lookThen fun view looked => reachable_circular (reachable_look reachable _ view looked)
  · exact ensures_lookThen fun view _ => reachable_rootsOf
  · exact reachable_calculate reachable _

/-- A new object is reachable as it was made. -/
theorem reachable_finish (reachable : session.Reachable) {result : Traced Product}
    (ensures : Ensures result.outcome Product.Reachable) :
    (session.finish result).session.Reachable := by
  unfold finish
  split
  · rename_i product returned
    have ofProduct := ensures product returned
    cases product with
    | value value => exact reachable
    | content content =>
        intro other member
        rcases List.mem_append.1 member with old | new
        · exact reachable other old
        · rw [List.mem_singleton.1 new]
          exact ofProduct
  · exact reachable

/-- The object that was changed is reachable again, if the change has succeeded. -/
theorem reachable_replace (reachable : session.Reachable) {reference : Nat} {edit : Edit Content}
    {value : Value} (ensures : Ensures edit.result fun new => new.underlying.Reachable)
    (returned : (session.replace reference edit).answer = .ok value) :
    (session.replace reference edit).session.Reachable := by
  obtain ⟨_, outcome, -⟩ := map_eq_ok.1 returned
  intro other member
  rcases List.mem_or_eq_of_mem_set member with old | rfl
  · exact reachable other old
  · exact ensures _ (Edit.result_eq_ok.2 ⟨outcome, rfl⟩)

/-- An operation in place changes its target, or makes a new object. -/
theorem reachable_updateStep (reachable : session.Reachable) {operator : Operator}
    {target operand value : Value}
    (returned : (session.updateStep operator target operand).answer = .ok value) :
    (session.updateStep operator target operand).session.Reachable := by
  have right := reachable_follow reachable operand
  have plain : (session.finish (.ofResult (operate operator true (session.follow target)
      (session.follow operand)))).session.Reachable :=
    reachable_finish reachable (reachable_operate (reachable_follow reachable target) right)
  unfold updateStep at returned ⊢
  dsimp only at returned ⊢
  split
  · rename_i reference
    dsimp only at returned
    split
    · rename_i edit found
      rw [found] at returned
      obtain ⟨content, isContent, isEdit⟩ := Option.bind_eq_some_iff.1 found
      have ofContent := reachable content (List.mem_of_getElem? isContent)
      exact reachable_replace reachable (reachable_editContent ofContent right isEdit) returned
    · exact plain
  · exact plain

/-- A renamed polynomial has been merged. -/
theorem reachable_renameStep (reachable : session.Reachable) {target value : Value} {old new : Int}
    (returned : (session.renameStep target old new).answer = .ok value) :
    (session.renameStep target old new).session.Reachable := by
  unfold renameStep at returned ⊢
  split
  · rename_i reference
    dsimp only at returned
    split
    · rename_i polynomial found
      rw [found] at returned
      have ofContent := reachable _ (List.mem_of_getElem? found)
      refine reachable_replace reachable ?_ returned
      rw [Edit.result_map, ensures_map]
      exact fun renamed isRenamed => .rename ofContent isRenamed
    · exact reachable
  · exact reachable

/-- No step that succeeds leads to something that operations do not reach. -/
theorem reachable_perform (reachable : session.Reachable) {action : Action} {value : Value}
    (returned : (session.perform action).answer = .ok value) :
    (session.perform action).session.Reachable := by
  unfold perform at returned ⊢
  split
  · dsimp only at returned
    split
    · exact reachable
    · exact reachable
    · rename_i targetCase operandCase
      rw [targetCase, operandCase] at returned
      exact reachable_updateStep reachable returned
  · dsimp only at returned
    split
    · exact reachable
    · rename_i targetCase
      rw [targetCase] at returned
      exact reachable_renameStep reachable returned
  · exact reachable_finish reachable (reachable_compute reachable _)

/-- A step that returns adds or changes an object by an operation that returned. -/
theorem reachable_take (reachable : session.Reachable) {step : Step} {value : Value}
    (returned : (session.take step).answer = .ok value) :
    (session.take step).session.Reachable := by
  have performed : (session.perform step.action).answer = .ok value := by
    unfold take at returned
    dsimp only at returned
    split at returned <;> exact returned
  have outcome := reachable_perform reachable performed
  unfold take
  dsimp only
  split <;> exact outcome

/-- The objects of a run are reachable as long as no step has failed. -/
theorem reachable_run {steps : List Step} (reachable : session.Reachable)
    (returned : ∀ outcome ∈ session.run steps, ∃ value, outcome.answer = .ok value) :
    ∀ outcome ∈ session.run steps, outcome.session.Reachable := by
  induction steps generalizing session with
  | nil => exact fun outcome member => (List.not_mem_nil member).elim
  | cons step rest hypothesis =>
      rw [run, List.forall_mem_cons] at returned ⊢
      obtain ⟨value, first⟩ := returned.1
      have next := reachable_take reachable first
      exact ⟨next, hypothesis next returned.2⟩

end Session

end TrigAlgebra
