/-
This file says what a step leaves as it was: only an operation in place changes an object, and it changes
no object but its target.
-/

import TrigAlgebra.Session.Run

namespace TrigAlgebra.Session

/-- The object that a step may change. An operation in place of a polynomial with a trigonometric
polynomial has none, because it makes a new object. -/
def target? (session : Session) : Action → Option Nat
  | .update _ target operand =>
      match session.read target, session.look operand with
      | .ok (.object reference), .ok operand =>
          match session.objects[reference]?, operand with
          | some (.polynomial _), .trig _ => none
          | _, _ => some reference
      | _, _ => none
  | .rename source _ _ =>
      match session.read source with
      | .ok (.object reference) => some reference
      | _ => none
  | _ => none

variable {session : Session} {reference : Nat} {content : Content}

/-- New content does not replace any other. -/
theorem settle_keeps (found : session.objects[reference]? = some content) (product : Product) :
    (session.settle product).1.objects[reference]? = some content := by
  cases product with
  | value value => exact found
  | content new =>
      obtain ⟨bound, -⟩ := List.getElem?_eq_some_iff.1 found
      change (session.objects ++ [new])[reference]? = some content
      rw [List.getElem?_append_left bound]
      exact found

/-- A step that answers something keeps all objects. -/
theorem finish_keeps (found : session.objects[reference]? = some content) (result : Traced Product) :
    (session.finish result).session.objects[reference]? = some content := by
  unfold finish
  split
  · exact settle_keeps found _
  · exact found

/-- Objects other than the one that is replaced stay. -/
theorem replace_keeps (found : session.objects[reference]? = some content) {target : Nat}
    (edit : Edit Content) (other : target ≠ reference) :
    (session.replace target edit).session.objects[reference]? = some content := by
  change (session.objects.set target edit.content)[reference]? = some content
  rw [List.getElem?_set_ne other]
  exact found

/-- A trigonometric operand takes the operation over. -/
theorem editContent_polynomial_trig (operator : Operator) (polynomial : Numeric)
    (trig : Trigonometric) : editContent operator (.polynomial polynomial) (.trig trig) = none :=
  rfl

/-- Whatever is edited in place is the target of the step. -/
theorem target?_update {operator : Operator} {target operand : Source} {value : Value} {written : Nat}
    (isTarget : session.read target = .ok (.object written)) (isOperand : session.read operand = .ok value)
    {old : Content} (found : session.objects[written]? = some old) {edit : Edit Content}
    (edits : editContent operator old (session.follow value) = some edit) :
    session.target? (.update operator target operand) = some written := by
  have looked : session.look operand = .ok (session.follow value) := by
    unfold look
    rw [isOperand]
    rfl
  simp only [target?, isTarget, looked, found]
  split
  · rename_i polynomial trig isPolynomial isTrig
    cases isPolynomial
    rw [isTrig, editContent_polynomial_trig] at edits
    cases edits
  · rfl

/-- An operation in place keeps all objects but its target. -/
theorem updateStep_keeps (found : session.objects[reference]? = some content) {operator : Operator}
    {target operand : Source} {targetValue operandValue : Value}
    (isTarget : session.read target = .ok targetValue)
    (isOperand : session.read operand = .ok operandValue)
    (untouched : session.target? (.update operator target operand) ≠ some reference) :
    (session.updateStep operator targetValue operandValue).session.objects[reference]? = some content := by
  have plain := finish_keeps found (.ofResult
    (operate operator true (session.follow targetValue) (session.follow operandValue)))
  unfold updateStep
  dsimp only
  split
  · rename_i written
    split
    · rename_i edit edited
      obtain ⟨old, isOld, edits⟩ := Option.bind_eq_some_iff.1 edited
      refine replace_keeps found edit fun same => ?_
      rw [target?_update isTarget isOperand isOld edits] at untouched
      exact untouched (congrArg some same)
    · exact plain
  · exact plain

/-- Renaming keeps all objects but its target. -/
theorem renameStep_keeps (found : session.objects[reference]? = some content) {source : Source}
    {target : Value} {old new : Int} (isTarget : session.read source = .ok target)
    (untouched : session.target? (.rename source old new) ≠ some reference) :
    (session.renameStep target old new).session.objects[reference]? = some content := by
  unfold renameStep
  split
  · rename_i written
    split
    · refine replace_keeps found _ fun same => untouched ?_
      simp only [target?, isTarget]
      exact congrArg some same
    · exact found
  · exact found

/-- Actions keep all objects but their target. -/
theorem perform_keeps (found : session.objects[reference]? = some content) {action : Action}
    (untouched : session.target? action ≠ some reference) :
    (session.perform action).session.objects[reference]? = some content := by
  unfold perform
  split
  · split
    · exact found
    · exact found
    · rename_i isTarget isOperand
      exact updateStep_keeps found isTarget isOperand untouched
  · split
    · exact found
    · rename_i isTarget
      exact renameStep_keeps found isTarget untouched
  · exact finish_keeps found _

/-- A step changes no object but its target, whether it returns or fails. -/
theorem take_keeps (found : session.objects[reference]? = some content) {step : Step}
    (untouched : session.target? step.action ≠ some reference) :
    (session.take step).session.objects[reference]? = some content := by
  have performed := perform_keeps found untouched
  unfold take
  dsimp only
  split <;> exact performed

end TrigAlgebra.Session
