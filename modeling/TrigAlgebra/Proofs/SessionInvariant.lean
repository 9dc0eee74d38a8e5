/-
This file proves that sessions without failures only ever hold well-formed polynomials, whatever
steps they take.
-/

import TrigAlgebra.Proofs.Refusals
import TrigAlgebra.Proofs.SessionEdits
import TrigAlgebra.Proofs.TrigWellFormed
import TrigAlgebra.Session.Run

namespace TrigAlgebra

/-- Whatever the computation returns has the property. -/
def Ensures {A : Type} (result : Except Fault A) (property : A → Prop) : Prop :=
  ∀ value, result = .ok value → property value

section

variable {A B : Type} {property : A → Prop}

@[simp] theorem ensures_ok {value : A} : Ensures (.ok value) property ↔ property value :=
  ⟨fun ensures => ensures value rfl, fun holds _ same => Except.ok.inj same ▸ holds⟩

@[simp] theorem ensures_pure {value : A} : Ensures (pure value) property ↔ property value :=
  ensures_ok

@[simp] theorem ensures_error {fault : Fault} : Ensures (.error fault) property := by
  intro value absurd
  cases absurd

@[simp] theorem ensures_bind {result : Except Fault B} {next : B → Except Fault A} :
    Ensures (result >>= next) property ↔ Ensures result fun part => Ensures (next part) property := by
  unfold Ensures
  simp only [bind_eq_ok]
  exact ⟨fun ensures part first value later => ensures value ⟨part, first, later⟩,
    fun ensures value ⟨part, first, later⟩ => ensures part first value later⟩

@[simp] theorem ensures_map {result : Except Fault B} {change : B → A} :
    Ensures (result.map change) property ↔ Ensures result fun part => property (change part) := by
  cases result with
  | error fault => exact iff_of_true ensures_error ensures_error
  | ok value =>
      change Ensures (.ok (change value)) property ↔ _
      rw [ensures_ok, ensures_ok]

@[simp] theorem ensures_true {result : Except Fault A} : Ensures result fun _ => True :=
  fun _ _ => trivial

/-- A choice of results ensures what both of them do. -/
theorem ensures_getD {result : Option (Except Fault A)} {default : Except Fault A}
    (ofResult : ∀ found, result = some found → Ensures found property)
    (ofDefault : Ensures default property) : Ensures (result.getD default) property := by
  cases result with
  | none => exact ofDefault
  | some found => exact ofResult found rfl

end

namespace Session

/-- An object holds a well formed polynomial. -/
def Content.Sound : Content → Prop
  | .polynomial content => content.WellFormed
  | .trig content => content.WellFormed

/-- A monomial that is kept has proper variables only; other values need nothing. -/
def Value.Sound : Value → Prop
  | .monomial item => ¬ item.powers.Has noVariable
  | _ => True

/-- What is looked at is well formed. -/
def View.Sound : View → Prop
  | .polynomial content => content.WellFormed
  | .trig content => content.WellFormed
  | .monomial item => ¬ item.powers.Has noVariable
  | _ => True

/-- What a computation brings is well formed. -/
def Product.Sound : Product → Prop
  | .value result => result.Sound
  | .content result => result.Sound

/-- A monomial that is written out has proper variables only. -/
def Source.Proper : Source → Prop
  | .literal value => value.Sound
  | .register _ => True

/-- The powers that are written out are of proper variables only. -/
def MonomialSource.Proper : MonomialSource → Prop
  | .register _ => True
  | .written _ powers => ∀ power ∈ powers, power.1 ≠ noVariable

/-- The action writes no variable that stands for none, neither directly nor in a monomial. -/
def Action.Proper : Action → Prop
  | .operate _ left right => left.Proper ∧ right.Proper
  | .update _ target operand => target.Proper ∧ operand.Proper
  | .negate source => source.Proper
  | .copy _ source => source.Proper
  | .view source => source.Proper
  | .divide source _ => source.Proper
  | .scaled source _ => source.Proper
  | .withCoefficient source _ => source.Proper
  | .ofPowers _ powers => ∀ power ∈ powers, power.1 ≠ noVariable
  | .monomial _ powers => ∀ power ∈ powers, power.1 ≠ noVariable
  | .ofVariable var _ => var ≠ noVariable
  | .ofMonomials monomials => ∀ source ∈ monomials, source.Proper
  | .trig _ angles => ∀ entry ∈ angles, ∀ function, entry.2.of function ≠ noVariable
  | .rename _ _ new => new ≠ noVariable
  | _ => True

/-- All objects are well formed, and all monomials in registers have variables only. -/
structure Sound (session : Session) : Prop where
  objects : ∀ content ∈ session.objects, content.Sound
  registers : ∀ entry ∈ session.registers, entry.2.Sound

/-- A session without objects and registers has nothing to break. -/
theorem sound_empty : ({} : Session).Sound :=
  ⟨fun _ member => (List.not_mem_nil member).elim, fun _ member => (List.not_mem_nil member).elim⟩

/-- Operations on polynomials keep them well formed, whatever the operand. -/
theorem wellFormed_edit {operator : Operator} {polynomial : Numeric} {operand : Operand}
    (wellFormed : polynomial.WellFormed)
    (other : ∀ content, operand = .polynomial content → content.WellFormed) :
    Ensures (operand.edit operator polynomial).result Polynomial.WellFormed := by
  intro new returned
  cases operand with
  | number value =>
      cases operator with
      | add => exact Polynomial.wellFormed_addScalar wellFormed returned
      | subtract => exact Polynomial.wellFormed_subScalar wellFormed returned
      | multiply => exact Polynomial.wellFormed_scale wellFormed returned
      | divide => exact Polynomial.wellFormed_divide wellFormed returned
      | _ => cases returned
  | polynomial content =>
      have ofContent := other content rfl
      cases operator with
      | add => exact Polynomial.wellFormed_add wellFormed ofContent returned
      | subtract => exact Polynomial.wellFormed_sub wellFormed ofContent returned
      | multiply => exact Polynomial.wellFormed_mul wellFormed ofContent returned
      | _ => cases returned

/-- Two trigonometric polynomials are joined by addition, subtraction or multiplication. -/
theorem wellFormed_editTrigs {operator : Operator} {trig other : Trigonometric}
    (wellFormed : trig.WellFormed) (otherWellFormed : other.WellFormed) :
    Ensures (editTrigs operator trig other).result TrigPolynomial.WellFormed := by
  intro new returned
  cases operator with
  | add => exact TrigPolynomial.wellFormed_add wellFormed otherWellFormed returned
  | subtract => exact TrigPolynomial.wellFormed_sub wellFormed otherWellFormed returned
  | multiply => exact TrigPolynomial.wellFormed_mul wellFormed otherWellFormed returned
  | _ => cases returned

/-- An operation in place that succeeds leaves something well formed. -/
theorem editContent_sound {operator : Operator} {content : Content} {other : View}
    {edit : Edit Content}
    (sound : content.Sound) (otherSound : other.Sound)
    (found : editContent operator content other = some edit) :
    Ensures edit.result Content.Sound := by
  have given {operand : Operand} (isOperand : other.operand? = some operand) (polynomial : Numeric)
      (same : operand = .polynomial polynomial) : polynomial.WellFormed := by
    rcases operand?_eq_some.1 isOperand with ⟨value, rfl, rfl⟩ | ⟨content, rfl, rfl⟩
    · cases same
    · cases same
      exact otherSound
  rcases editContent_cases found with ⟨trig, right, rfl, rfl, rfl⟩ | ⟨trig, operand, rfl, isOperand, rfl⟩ |
    ⟨polynomial, operand, rfl, isOperand, rfl⟩ | ⟨-, same⟩
  · rw [Edit.result_map, ensures_map]
    exact wellFormed_editTrigs sound otherSound
  · rw [Edit.result_map, ensures_map, editTrig, TrigPolynomial.onPolynomial, Edit.result_map, ensures_map]
    intro new returned
    exact ⟨wellFormed_edit sound.polynomial (given isOperand) new returned, sound.angles⟩
  · rw [Edit.result_map, ensures_map]
    exact wellFormed_edit sound (given isOperand)
  · intro new returned
    rw [← (Edit.result_eq_ok.1 returned).2, same]
    exact sound

/-- The copy that was operated on is well formed. -/
theorem onCopy_sound {operator : Operator} {content : Content} {other : View}
    {result : Except Fault Product} (sound : content.Sound) (otherSound : other.Sound)
    (found : onCopy operator content other = some result) : Ensures result Product.Sound := by
  obtain ⟨edit, isEdit, rfl⟩ := Option.map_eq_some_iff.1 found
  rw [ensures_map]
  exact editContent_sound sound otherSound isEdit

/-- Taken in the other order, the operation starts from the content or its negation. -/
theorem reflected_sound {operator : Operator} {left : View} {content : Content}
    {result : Except Fault Product} (leftSound : left.Sound) (sound : content.Sound)
    (found : reflected operator left content = some result) : Ensures result Product.Sound := by
  unfold reflected at found
  split at found
  · exact onCopy_sound sound leftSound found
  · exact onCopy_sound sound leftSound found
  · rename_i polynomial
    have negated : (Content.polynomial polynomial.neg).Sound := Polynomial.wellFormed_neg sound
    exact onCopy_sound negated leftSound found
  · rename_i trig
    have negated : (Content.trig trig.neg).Sound := TrigPolynomial.wellFormed_neg sound
    exact onCopy_sound negated leftSound found
  · cases found

/-- Powers of polynomials and of numbers are well formed. -/
theorem power_sound {base exponent : View} (sound : base.Sound) :
    Ensures (power base exponent) Product.Sound := by
  unfold power
  split
  · split
    · rw [ensures_bind]
      intro new returned
      exact ensures_pure.2 (Polynomial.wellFormed_pow sound returned)
    · simp [Ensures, bind_eq_ok]
  · simp [Ensures, bind_eq_ok]
  · rw [ensures_bind]
    intro value _
    exact ensures_pure.2 trivial
  · exact ensures_error

/-- Every operator makes something well formed of what is well formed. -/
theorem operate_sound {operator : Operator} {inPlace : Bool} {left right : View}
    (leftSound : left.Sound)
    (rightSound : right.Sound) : Ensures (operate operator inPlace left right) Product.Sound := by
  unfold operate
  dsimp only
  split
  · exact power_sound leftSound
  · split
    · rw [ensures_map]
      exact ensures_true
    · split
      · rw [ensures_map]
        intro product returned
        change ¬ product.powers.Has noVariable
        rw [Polynomial.powers_mul returned]
        exact fun has => (PowerProduct.has_mul.1 has).elim leftSound rightSound
      · exact ensures_error
    · exact ensures_getD (fun found => reflected_sound leftSound rightSound) ensures_error
    · exact ensures_getD (fun found => onCopy_sound leftSound rightSound) ensures_error
    · exact ensures_getD (fun found => onCopy_sound leftSound rightSound) ensures_error
    · exact ensures_getD (fun found => reflected_sound leftSound rightSound) ensures_error
    · exact ensures_getD (fun found => reflected_sound leftSound rightSound) ensures_error
    · exact ensures_error

/-- The sign changes no powers. -/
theorem negate_sound {view : View} (sound : view.Sound) : Ensures (negate view) Product.Sound := by
  cases view with
  | polynomial content => exact ensures_ok.2 (Polynomial.wellFormed_neg sound)
  | trig content => exact ensures_ok.2 (TrigPolynomial.wellFormed_neg sound)
  | number value => exact ensures_ok.2 trivial
  | monomial item => exact ensures_ok.2 sound
  | factor value => exact ensures_error
  | other kind => exact ensures_error

/-- The polynomial inside a trigonometric one is well formed. -/
theorem property_sound {property : Property} {view : View}
    (sound : ∀ content, view = .trig content → content.WellFormed) :
    Ensures (view.property property) Product.Sound := by
  unfold View.property
  split
  · exact ensures_ok.2 (sound _ rfl).polynomial
  all_goals first | exact ensures_error | exact ensures_ok.2 trivial

/-- An evaluation brings a number. -/
theorem evaluate_number {way : Way} {view : View} {given : Given} :
    Ensures (evaluate way view given) fun product => ∃ value, product = .number value := by
  have number {result : Except Fault Number} :
      Ensures (result.map Product.number) fun product => ∃ value, product = .number value :=
    ensures_map.2 fun value _ => ⟨value, rfl⟩
  unfold evaluate
  split
  · exact number
  · exact number
  · exact ensures_error
  · exact number
  · unfold View.evaluateOne
    simp only [ensures_bind, ensures_pure]
    exact fun _ _ value _ => ⟨value, rfl⟩
  all_goals exact ensures_error

/-- A number is always sound. -/
theorem evaluate_sound {way : Way} {view : View} {given : Given} :
    Ensures (evaluate way view given) Product.Sound := by
  intro product returned
  obtain ⟨value, rfl⟩ := evaluate_number product returned
  trivial

/-- A search brings roots. -/
theorem rootsOf_roots {precise : Bool} {view : View} :
    Ensures (rootsOf precise view).outcome fun product => ∃ roots, product = .value (.roots roots) := by
  unfold rootsOf
  split
  · rw [Traced.outcome_bind]
    exact ensures_bind.2 fun roots _ => ensures_ok.2 ⟨roots, rfl⟩
  · exact ensures_error

/-- A quotient of monomials has no new variable. -/
theorem divideMonomial_sound {item : Monomial Number} {divisor : View}
    (named : ¬ item.powers.Has noVariable) :
    Ensures (divideMonomial item divisor) Product.Sound := by
  unfold divideMonomial
  simp only [ensures_bind, ensures_pure]
  intro other _ quotient returned
  cases quotient with
  | none => trivial
  | some quotient =>
      unfold Monomial.divide? at returned
      split at returned
      · cases returned
      · rename_i powers divided
        obtain ⟨coefficient, -, same⟩ := map_eq_ok.1 returned
        cases same
        unfold PowerProduct.divide? at divided
        split at divided
        · cases divided
          intro has
          obtain ⟨factor, member, same⟩ := PowerProduct.has_ofFactors.1 has
          obtain ⟨old, isOld, kept⟩ := List.mem_filterMap.1 member
          split at kept
          · cases kept
            exact named ⟨old, isOld, same⟩
          · cases kept
        · cases divided

variable {session : Session}

/-- What follows a look is only of interest where the look succeeds. -/
theorem ensures_lookThen {source : Source} {next : View → Traced Product} {property : Product → Prop}
    (ensures : ∀ view, session.look source = .ok view → Ensures (next view).outcome property) :
    Ensures (session.lookThen source next).outcome property := by
  unfold lookThen
  split
  · rename_i view looked
    exact ensures view looked
  · exact ensures_error

/-- A reference leads to an object, and objects are well formed. -/
theorem follow_sound (sound : session.Sound) {value : Value} (given : value.Sound) :
    (session.follow value).Sound := by
  cases value with
  | monomial item => exact given
  | object reference =>
      change (session.objects[reference]?.elim (View.other .nothing) Content.view).Sound
      cases found : session.objects[reference]? with
      | none => trivial
      | some content =>
          have ofContent := sound.objects content (List.mem_of_getElem? found)
          cases content with
          | polynomial content => exact ofContent
          | trig content => exact ofContent
  | _ => trivial

/-- A register holds what a step has kept there. -/
theorem read_sound (sound : session.Sound) {source : Source} (proper : source.Proper) :
    Ensures (session.read source) Value.Sound := by
  unfold read
  split
  · exact ensures_ok.2 proper
  · split
    · rename_i value found
      obtain ⟨before, after, shape, -⟩ := List.lookup_eq_some_iff.1 found
      have member : (_, value) ∈ session.registers :=
        shape ▸ List.mem_append_right before List.mem_cons_self
      exact ensures_ok.2 (sound.registers _ member)
    · exact ensures_error

/-- A source that is read and followed leads to something well formed. -/
theorem look_sound (sound : session.Sound) {source : Source} (proper : source.Proper) :
    Ensures (session.look source) View.Sound := by
  unfold look
  rw [ensures_map]
  exact fun value returned => follow_sound sound (read_sound sound proper value returned)

/-- What leads to an object is sound, however it was written. -/
theorem follow_sound_of_object (sound : session.Sound) {value : Value}
    (content : ∀ item, session.follow value ≠ .monomial item) : (session.follow value).Sound := by
  cases value with
  | monomial item => exact (content item rfl).elim
  | _ => exact follow_sound sound trivial

/-- A polynomial that is looked at is always an object. -/
theorem look_polynomial (sound : session.Sound) {source : Source} {content : Numeric}
    (returned : session.look source = .ok (.polynomial content)) : content.WellFormed := by
  obtain ⟨value, -, followed⟩ := map_eq_ok.1 returned
  have ofView : (session.follow value).Sound :=
    follow_sound_of_object sound fun item absurd => nomatch followed.symm.trans absurd
  rwa [followed] at ofView

/-- A trigonometric polynomial that is looked at is always an object. -/
theorem look_trig (sound : session.Sound) {source : Source} {content : Trigonometric}
    (returned : session.look source = .ok (.trig content)) : content.WellFormed := by
  obtain ⟨value, -, followed⟩ := map_eq_ok.1 returned
  have ofView : (session.follow value).Sound :=
    follow_sound_of_object sound fun item absurd => nomatch followed.symm.trans absurd
  rwa [followed] at ofView

theorem asPolynomial_eq_ok {name : String} {view : View} {content : Numeric} :
    view.asPolynomial name = .ok content ↔ view = .polynomial content := by
  cases view <;> simp [View.asPolynomial]

theorem asMonomial_eq_ok {name : String} {view : View} {item : Monomial Number} :
    view.asMonomial name = .ok item ↔ view = .monomial item := by
  cases view <;> simp [View.asMonomial]

/-- Asked for a polynomial, a source leads to a well formed one. -/
theorem asPolynomial_sound (sound : session.Sound) {source : Source} {view : View} {name : String}
    {content : Numeric} (looked : session.look source = .ok view)
    (isContent : view.asPolynomial name = .ok content) : content.WellFormed := by
  rw [asPolynomial_eq_ok.1 isContent] at looked
  exact look_polynomial sound looked

/-- Asked for a monomial, a source leads to one with proper variables. -/
theorem asMonomial_sound (sound : session.Sound) {source : Source} {view : View} {name : String}
    {item : Monomial Number} (proper : source.Proper) (looked : session.look source = .ok view)
    (isItem : view.asMonomial name = .ok item) : ¬ item.powers.Has noVariable := by
  have ofView := look_sound sound proper view looked
  rwa [asMonomial_eq_ok.1 isItem] at ofView

/-- Numbers become constants, and polynomials are copied. -/
theorem toPolynomial_sound {view : View} (content : ∀ polynomial, view = .polynomial polynomial →
    polynomial.WellFormed) : Ensures view.toPolynomial Polynomial.WellFormed := by
  unfold View.toPolynomial
  split
  · exact ensures_ok.2 (Polynomial.wellFormed_constant _)
  · exact ensures_ok.2 (content _ rfl)
  · exact ensures_error
  · exact ensures_ok.2 Polynomial.wellFormed_zero
  · exact ensures_error

/-- The variable of a polynomial that is one linear variable is proper. -/
theorem simple_ne {label : String} {view : View} :
    Ensures (view.simple label) (· ≠ noVariable) := by
  unfold View.simple
  split
  · unfold TrigPolynomial.requireSimple
    split
    · simp
    · rename_i refused
      rw [ensures_ok]
      intro absurd
      simp [absurd] at refused
  · split <;> simp
  · exact ensures_error

/-- An angle has proper placeholders, because simple variables are proper. -/
theorem ofAngle_sound {angle sine cosine : View}
    (content : ∀ polynomial, angle = .polynomial polynomial → polynomial.WellFormed) :
    Ensures (ofAngle angle sine cosine) TrigPolynomial.WellFormed := by
  unfold ofAngle
  simp only [ensures_bind, ensures_pure]
  intro angleVar _ sineVar isSine cosineVar isCosine polynomial isPolynomial
  refine ⟨content polynomial (asPolynomial_eq_ok.1 isPolynomial), ?_⟩
  apply AngleMap.named_set _ AngleMap.named_empty
  intro function
  cases function with
  | sine => exact simple_ne sineVar isSine
  | cosine => exact simple_ne cosineVar isCosine

/-- What a trigonometric polynomial is built on is well formed. -/
theorem readBase_sound (sound : session.Sound) (base : Base) :
    Ensures (session.readBase base) Polynomial.WellFormed := by
  cases base with
  | nothing => exact ensures_ok.2 Polynomial.wellFormed_zero
  | named name => exact fun polynomial returned => Polynomial.wellFormed_named returned
  | source source =>
      simp only [readBase, ensures_bind]
      intro view looked
      exact toPolynomial_sound fun polynomial same => look_polynomial sound (same ▸ looked)

/-- A monomial that is read has proper variables only. -/
theorem readMonomial_sound (sound : session.Sound) {source : MonomialSource}
    (proper : source.Proper) :
    Ensures (session.readMonomial source) fun item => ¬ item.powers.Has noVariable := by
  cases source with
  | register name =>
      simp only [readMonomial, ensures_bind]
      intro view looked item isMonomial
      have proper : (Source.register name).Proper := trivial
      exact asMonomial_sound sound proper looked isMonomial
  | written coefficient powers =>
      simp only [readMonomial, ensures_bind]
      intro view _ number _ item created has
      obtain ⟨power, isPower, same⟩ := Polynomial.has_create created has
      exact proper power isPower same

/-- The sine or cosine of a sound argument is sound, whichever way it is asked for. -/
theorem circular_sound {function : Circular} {asking : Asking} {view : View}
    (content : ∀ trig, view = .trig trig → trig.WellFormed) :
    Ensures (view.circular function asking).outcome Product.Sound := by
  unfold View.circular
  split
  · rw [Traced.outcome_bind]
    exact ensures_bind.2 fun new returned =>
      ensures_ok.2 (TrigPolynomial.wellFormed_expand (content _ rfl) returned)
  · rw [Traced.outcome_ofResult, ensures_map]
    exact ensures_true
  all_goals exact ensures_error

/-- A symbol is read as a proper variable. -/
theorem named_factorOfPower {power : Symbolic.Atom × Rat} {factor : Factor}
    (returned : Symbolic.factorOfPower power = .ok factor) : factor.var ≠ noVariable := by
  unfold Symbolic.factorOfPower at returned
  split at returned
  · cases returned
  · split at returned
    · simp only [bind_eq_ok, pure_eq_ok] at returned
      obtain ⟨parts, -, var, encoded, rfl⟩ := returned
      exact NamingTable.encode_ne encoded
    · cases returned

/-- A term is read as a monomial of proper variables. -/
theorem named_monomialOfTerm {term : Symbolic.Powers × Symbolic.Scalar} {item : Monomial Number}
    (returned : Symbolic.monomialOfTerm term = .ok item) : ¬ item.powers.Has noVariable := by
  have powers : ∃ factors, term.1.mapM Symbolic.factorOfPower = .ok factors ∧
      item.powers = .ofFactors factors := by
    unfold Symbolic.monomialOfTerm at returned
    split at returned
    · cases returned
    · split at returned
      all_goals
        simp only [bind_eq_ok, pure_eq_ok] at returned
        obtain ⟨coefficient, -, factors, factorsCase, rfl⟩ := returned
        exact ⟨factors, factorsCase, rfl⟩
  obtain ⟨factors, factorsCase, same⟩ := powers
  rw [same, PowerProduct.has_ofFactors]
  rintro ⟨factor, isFactor, none⟩
  obtain ⟨power, -, made⟩ := exists_of_mem_mapM factorsCase isFactor
  exact named_factorOfPower made none

/-- Reading an expression back only meets variables that a name was packed into. -/
theorem toPolynomial_wellFormed (expression : Symbolic.Expression) :
    Ensures expression.toPolynomial Polynomial.WellFormed := by
  unfold Symbolic.Expression.toPolynomial Symbolic.Sum.toPolynomial
  rw [ensures_bind]
  intro monomials written polynomial built
  refine Polynomial.wellFormed_ofMonomials ?_ built
  intro occurs
  obtain ⟨item, member, has⟩ := Polynomial.occurs_powersOf.1 occurs
  obtain ⟨term, -, read⟩ := exists_of_mem_mapM written member
  exact named_monomialOfTerm read has

end Session

end TrigAlgebra
