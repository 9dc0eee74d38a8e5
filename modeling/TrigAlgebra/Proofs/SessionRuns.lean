/-
This file follows whole runs of a session: as long as no step fails, every object stays well formed.
-/

import TrigAlgebra.Proofs.SessionInvariant

namespace TrigAlgebra.Session

variable {session : Session}

/-- A copy of a polynomial is as sound as the polynomial, and everything else is copied as it is. -/
theorem copy_sound (sound : session.Sound) {byMethod : Bool} {source : Source}
    (proper : source.Proper) : Ensures (session.calculate (.copy byMethod source)) Product.Sound := by
  simp only [calculate, ensures_bind]
  intro value isValue
  split
  · exact ensures_error
  · rw [ensures_pure]
    have given := read_sound sound proper value isValue
    have followed := follow_sound sound given
    cases shape : session.follow value with
    | polynomial content =>
        rw [shape] at followed
        exact followed
    | trig content =>
        rw [shape] at followed
        exact followed
    | _ => exact given

/-- Monomials of sound sources make a sound polynomial. -/
theorem ofMonomials_sound (sound : session.Sound) {sources : List MonomialSource}
    (proper : ∀ source ∈ sources, source.Proper) :
    Ensures (session.calculate (.ofMonomials sources)) Product.Sound := by
  simp only [calculate, ensures_bind, ensures_pure]
  intro monomials written polynomial built
  refine Polynomial.wellFormed_ofMonomials ?_ built
  intro occurs
  obtain ⟨item, member, has⟩ := Polynomial.occurs_powersOf.1 occurs
  obtain ⟨source, isSource, read⟩ := exists_of_mem_mapM written member
  exact readMonomial_sound sound (proper source isSource) item read has

/-- Calculations with sound values make sound ones. -/
theorem calculate_sound (sound : session.Sound) {action : Action} (proper : action.Proper) :
    Ensures (session.calculate action) Product.Sound := by
  cases action with
  | operate operator left right =>
      simp only [calculate, ensures_bind]
      intro first isFirst second isSecond
      exact operate_sound (look_sound sound proper.1 first isFirst) (look_sound sound proper.2 second isSecond)
  | negate source =>
      simp only [calculate, ensures_bind]
      exact fun view looked => negate_sound (look_sound sound proper view looked)
  | confirm source =>
      simp only [calculate, ensures_bind]
      intro view looked
      cases view with
      | polynomial content => exact ensures_ok.2 (look_polynomial sound looked)
      | number value => exact ensures_ok.2 trivial
      | _ => exact ensures_error
  | copy byMethod source => exact copy_sound sound proper
  | view source =>
      simp only [calculate, ensures_bind, ensures_pure]
      exact read_sound sound proper
  | property property source =>
      simp only [calculate, ensures_bind]
      exact fun view looked => property_sound fun content same => look_trig sound (same ▸ looked)
  | zero => exact ensures_ok.2 Polynomial.wellFormed_zero
  | constant source =>
      simp only [calculate, ensures_bind, ensures_pure]
      exact fun view looked => toPolynomial_sound fun content same => look_polynomial sound (same ▸ looked)
  | named name index =>
      simp only [calculate, ensures_map]
      exact fun polynomial returned => Polynomial.wellFormed_named returned
  | ofPowers coefficient powers =>
      simp only [calculate, ensures_bind, ensures_pure]
      exact fun _ _ number _ polynomial returned => Polynomial.wellFormed_ofPowers proper returned
  | ofVariable var coefficient =>
      simp only [calculate, ensures_bind, ensures_pure]
      exact fun number _ polynomial returned => Polynomial.wellFormed_ofVariable proper returned
  | ofMonomials sources => exact ofMonomials_sound sound proper
  | monomial coefficient powers =>
      simp only [calculate, ensures_bind, ensures_pure]
      intro _ _ number _ item created has
      obtain ⟨power, isPower, same⟩ := Polynomial.has_create created has
      exact proper power isPower same
  | trig base angles =>
      simp only [calculate, ensures_bind, ensures_pure]
      exact fun polynomial isBase => ⟨readBase_sound sound base polynomial isBase, AngleMap.named_ofList proper⟩
  | angle angle sine cosine =>
      simp only [calculate, ensures_bind, ensures_pure]
      exact fun view looked _ _ _ _ => ofAngle_sound fun content same => look_polynomial sound (same ▸ looked)
  | substitute source values =>
      simp only [calculate, ensures_bind, ensures_pure]
      intro view looked content isContent new returned
      exact Polynomial.wellFormed_evaluatePartial (asPolynomial_sound sound looked isContent) returned
  | evaluate way source argument =>
      simp only [calculate, ensures_bind]
      exact fun _ _ _ _ => evaluate_sound
  | derivative source order =>
      simp only [calculate, ensures_bind, ensures_pure]
      intro view looked content isContent new returned
      exact Polynomial.wellFormed_derivative (asPolynomial_sound sound looked isContent) returned
  | integral source constant =>
      simp only [calculate, ensures_bind, ensures_pure]
      intro view looked number _ content isContent new returned
      exact Polynomial.wellFormed_integral (asPolynomial_sound sound looked isContent) returned
  | divide source divisor =>
      simp only [calculate, ensures_bind]
      intro view looked _ _ item isItem
      exact divideMonomial_sound (asMonomial_sound sound proper looked isItem)
  | scaled source factor =>
      simp only [calculate, ensures_bind, ensures_pure]
      intro view looked _ _ item isItem number _ new returned
      have named := asMonomial_sound sound proper looked isItem
      obtain ⟨coefficient, -, rfl⟩ := map_eq_ok.1 returned
      exact named
  | withCoefficient source coefficient =>
      simp only [calculate, ensures_bind, ensures_pure]
      intro view looked _ _ item isItem number _
      have named := asMonomial_sound sound proper looked isItem
      exact named
  | roundTrip source =>
      simp only [calculate, ensures_bind, ensures_pure]
      exact fun _ _ _ _ expression _ => toPolynomial_wellFormed expression
  | factor var power =>
      simp only [calculate, ensures_map]
      exact ensures_true
  | _ =>
      simp only [calculate, approx, ensures_bind, ensures_pure, ensures_ok]
      simp [Product.Sound, Value.Sound, Product.truth, Product.text, Product.number]

theorem rootsOf_sound {precise : Bool} {view : View} :
    Ensures (rootsOf precise view).outcome Product.Sound := by
  intro product returned
  obtain ⟨roots, rfl⟩ := rootsOf_roots product returned
  trivial

/-- Computations with sound values make sound ones. -/
theorem compute_sound (sound : session.Sound) {action : Action} (proper : action.Proper) :
    Ensures (session.compute action).outcome Product.Sound := by
  unfold compute
  split
  · exact ensures_lookThen fun view looked =>
      circular_sound fun content same => look_trig sound (same ▸ looked)
  · exact ensures_lookThen fun view looked => rootsOf_sound
  · exact calculate_sound sound proper

/-- The session after a step is sound, and so is the value that the step brings. -/
structure Outcome.Sound (outcome : Outcome) : Prop where
  session : outcome.session.Sound
  answer : Ensures outcome.answer Value.Sound

/-- A sound product makes the session no less sound. -/
theorem finish_sound (sound : session.Sound) {result : Traced Product}
    (ensures : Ensures result.outcome Product.Sound) : (session.finish result).Sound := by
  unfold finish
  split
  · rename_i product returned
    have ofProduct := ensures product returned
    cases product with
    | value value => exact ⟨sound, ensures_ok.2 ofProduct⟩
    | content content =>
        refine ⟨⟨?_, sound.registers⟩, ensures_ok.2 trivial⟩
        intro other member
        rcases List.mem_append.1 member with old | new
        · exact sound.objects other old
        · rw [List.mem_singleton.1 new]
          exact ofProduct
  · exact ⟨sound, ensures_error⟩

/-- An operation in place that returns leaves a sound object. -/
theorem replace_sound (sound : session.Sound) {reference : Nat} {edit : Edit Content}
    {value : Value}
    (ensures : Ensures edit.result Content.Sound)
    (returned : (session.replace reference edit).answer = .ok value) :
    (session.replace reference edit).Sound := by
  obtain ⟨_, outcome, -⟩ := map_eq_ok.1 returned
  refine ⟨⟨?_, sound.registers⟩, ensures_map.2 fun _ _ => trivial⟩
  intro other member
  rcases List.mem_or_eq_of_mem_set member with old | rfl
  · exact sound.objects other old
  · exact ensures _ (Edit.result_eq_ok.2 ⟨outcome, rfl⟩)

/-- An operation in place that returns leaves sound objects. -/
theorem updateStep_sound (sound : session.Sound) {operator : Operator}
    {target operand value : Value}
    (targetSound : target.Sound) (operandSound : operand.Sound)
    (returned : (session.updateStep operator target operand).answer = .ok value) :
    (session.updateStep operator target operand).Sound := by
  have right := follow_sound sound operandSound
  have plain : (session.finish (.ofResult (operate operator true (session.follow target)
      (session.follow operand)))).Sound :=
    finish_sound sound (operate_sound (follow_sound sound targetSound) right)
  unfold updateStep at returned ⊢
  dsimp only at returned ⊢
  split
  · rename_i reference
    dsimp only at returned
    split
    · rename_i edit found
      rw [found] at returned
      obtain ⟨content, isContent, isEdit⟩ := Option.bind_eq_some_iff.1 found
      have ofContent := sound.objects content (List.mem_of_getElem? isContent)
      exact replace_sound sound (editContent_sound ofContent right isEdit) returned
    · exact plain
  · exact plain

/-- Renaming that returns leaves sound objects. -/
theorem renameStep_sound (sound : session.Sound) {target value : Value} {old new : Int}
    (named : new ≠ noVariable) (returned : (session.renameStep target old new).answer = .ok value) :
    (session.renameStep target old new).Sound := by
  unfold renameStep at returned ⊢
  split
  · rename_i reference
    dsimp only at returned
    split
    · rename_i polynomial found
      rw [found] at returned
      have ofContent := sound.objects _ (List.mem_of_getElem? found)
      refine replace_sound sound ?_ returned
      rw [Edit.result_map, ensures_map]
      exact fun renamed isRenamed => Polynomial.wellFormed_rename named ofContent isRenamed
    · exact ⟨sound, ensures_error⟩
  · exact ⟨sound, ensures_error⟩

/-- An action that returns leaves a sound session. -/
theorem perform_sound (sound : session.Sound) {action : Action} {value : Value}
    (proper : action.Proper)
    (returned : (session.perform action).answer = .ok value) : (session.perform action).Sound := by
  unfold perform at returned ⊢
  split
  · rename_i operator target operand
    dsimp only at returned
    split
    · exact ⟨sound, ensures_error⟩
    · exact ⟨sound, ensures_error⟩
    · rename_i targetCase operandCase
      rw [targetCase, operandCase] at returned
      exact updateStep_sound sound (read_sound sound proper.1 _ targetCase)
        (read_sound sound proper.2 _ operandCase) returned
  · rename_i source old new
    dsimp only at returned
    split
    · exact ⟨sound, ensures_error⟩
    · rename_i targetCase
      rw [targetCase] at returned
      exact renameStep_sound sound proper returned
  · exact finish_sound sound (compute_sound sound proper)

/-- A step that returns takes a sound session to a sound one. -/
theorem take_sound (sound : session.Sound) {step : Step} {value : Value}
    (proper : step.action.Proper)
    (returned : (session.take step).answer = .ok value) : (session.take step).session.Sound := by
  have performed : (session.perform step.action).answer = .ok value := by
    unfold take at returned
    dsimp only at returned
    split at returned <;> exact returned
  have outcome := perform_sound sound proper performed
  unfold take
  dsimp only
  split
  · rename_i value name answered named
    refine ⟨outcome.session.objects, ?_⟩
    intro entry member
    rcases List.mem_cons.1 member with rfl | old
    · exact outcome.answer value answered
    · exact outcome.session.registers entry old
  · exact outcome.session

/-- A run in which every step returns has sound sessions throughout. -/
theorem run_sound {steps : List Step} (sound : session.Sound)
    (proper : ∀ step ∈ steps, step.action.Proper)
    (returned : ∀ outcome ∈ session.run steps, ∃ value, outcome.answer = .ok value) :
    ∀ outcome ∈ session.run steps, outcome.session.Sound := by
  induction steps generalizing session with
  | nil => exact fun outcome member => (List.not_mem_nil member).elim
  | cons step rest hypothesis =>
      rw [run, List.forall_mem_cons] at returned ⊢
      rw [List.forall_mem_cons] at proper
      obtain ⟨value, first⟩ := returned.1
      have next := take_sound sound proper.1 first
      exact ⟨next, hypothesis next proper.2 returned.2⟩

/-- No two monomials have the same powers, each variable occurs once in a monomial and in order, the
flag says whether there is at most one variable, and the operations for one variable are refused for
two variables and for nothing else. -/
structure Canonical (polynomial : Numeric) : Prop where
  distinct : polynomial.monomials.Pairwise fun first second => first.powers ≠ second.powers
  increasing : ∀ item ∈ polynomial.monomials,
    item.powers.factors.Pairwise fun first second => first.var < second.var
  positive : ∀ item ∈ polynomial.monomials, ∀ factor ∈ item.powers.factors, 1 ≤ factor.power
  flagged : polynomial.univariate = true ↔
    ∀ first ∈ polynomial.vars, ∀ second ∈ polynomial.vars, first = second
  coefficients : Refused polynomial.coefficients ↔
    ∃ first ∈ polynomial.vars, ∃ second ∈ polynomial.vars, first ≠ second
  derivative : ∀ order, Refused (polynomial.derivative order) ↔
    ∃ first ∈ polynomial.vars, ∃ second ∈ polynomial.vars, first ≠ second
  integral : ∀ constant, Refused (polynomial.integral constant) ↔
    ∃ first ∈ polynomial.vars, ∃ second ∈ polynomial.vars, first ≠ second
  roots : ∀ precise, Refused (polynomial.roots precise).outcome ↔
    ∃ first ∈ polynomial.vars, ∃ second ∈ polynomial.vars, first ≠ second

/-- Well-formed polynomials are canonical. -/
theorem canonical_of_wellFormed {polynomial : Numeric} (wellFormed : polynomial.WellFormed) :
    Canonical polynomial := by
  have flagged : polynomial.univariate = true ↔
      ∀ first ∈ polynomial.vars, ∀ second ∈ polynomial.vars, first = second := by
    rw [wellFormed.flagged]
    simp only [Polynomial.Univariate, Polynomial.mem_vars]
    exact forall_congr' fun first => forall_comm
  have several : polynomial.univariate = false ↔
      ∃ first ∈ polynomial.vars, ∃ second ∈ polynomial.vars, first ≠ second := by
    rw [← Bool.not_eq_true, flagged]
    push Not
    rfl
  exact ⟨List.pairwise_map.1 wellFormed.distinct, fun item _ => item.powers.increasing,
    fun _ _ factor _ => factor.positive, flagged, Polynomial.refused_coefficients.trans several,
    fun _ => Polynomial.refused_derivative.trans several,
    fun _ => Polynomial.refused_integral.trans several, fun _ => Polynomial.refused_roots.trans several⟩

/-- As long as every step of a run returns, all polynomials that the run reaches are canonical. -/
theorem run_canonical (steps : List Step) (proper : ∀ step ∈ steps, step.action.Proper)
    (returned : ∀ outcome ∈ run {} steps, ∃ value, outcome.answer = .ok value) :
    ∀ outcome ∈ run {} steps, ∀ content ∈ outcome.session.objects, Canonical content.underlying := by
  intro outcome member content isContent
  have sound := (run_sound sound_empty proper returned outcome member).objects content isContent
  cases content with
  | polynomial content => exact canonical_of_wellFormed sound
  | trig content => exact canonical_of_wellFormed sound.polynomial

/-- The product of a sum and a difference, one variable of which is renamed to the other. -/
def squaredDifference : List Step :=
  [⟨.ofVariable 2 (some (.literal (.number (.integer 1)))), some "x"⟩,
    ⟨.ofVariable 4 (some (.literal (.number (.integer 1)))), some "y"⟩,
    ⟨.operate .subtract (.register "x") (.register "y"), some "difference"⟩,
    ⟨.update .add (.register "x") (.register "y"), none⟩,
    ⟨.update .multiply (.register "x") (.register "difference"), none⟩,
    ⟨.rename (.register "x") 4 2, none⟩,
    ⟨.derivative (.register "x") 1, some "slope"⟩]

theorem run_canonical_squaredDifference :
    (run {} squaredDifference).length = 7 ∧
      ∀ outcome ∈ run {} squaredDifference, (∃ value, outcome.answer = .ok value) ∧
        ∀ content ∈ outcome.session.objects, Canonical content.underlying := by
  have proper : ∀ step ∈ squaredDifference, step.action.Proper := by
    simp [squaredDifference, Action.Proper, Source.Proper, noVariable]
  have returned : ∀ outcome ∈ run {} squaredDifference, ∃ value, outcome.answer = .ok value := by
    decide +kernel
  refine ⟨by decide +kernel, fun outcome member => ⟨returned outcome member, ?_⟩⟩
  exact run_canonical squaredDifference proper returned outcome member

end TrigAlgebra.Session
