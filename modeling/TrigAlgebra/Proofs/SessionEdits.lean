/-
This file takes the operations in place of a session apart by the kinds of their operands.
-/

import TrigAlgebra.Proofs.Results
import TrigAlgebra.Session.Operators

namespace TrigAlgebra

namespace Edit

variable {S T : Type}

/-- An edit has the content that it leaves as its result, if it returns. -/
theorem result_eq_ok {edit : Edit S} {new : S} :
    edit.result = .ok new ↔ edit.outcome = .ok () ∧ edit.content = new := by
  unfold result
  rw [map_eq_ok]
  exact ⟨fun ⟨_, outcome, same⟩ => ⟨outcome, same⟩, fun ⟨outcome, same⟩ => ⟨(), outcome, same⟩⟩

theorem result_map (embed : S → T) (edit : Edit S) :
    (edit.map embed).result = edit.result.map embed := by
  obtain ⟨outcome, content⟩ := edit
  cases outcome <;> rfl

end Edit

namespace Session

/-- The polynomial itself, without the angles of a trigonometric one. -/
def Content.underlying : Content → Numeric
  | .polynomial content => content
  | .trig content => content.polynomial

/-- Operands are numbers and polynomials. -/
theorem operand?_eq_some {view : View} {operand : Operand} : view.operand? = some operand ↔
    (∃ value, view = .number value ∧ operand = .number value) ∨
      ∃ content, view = .polynomial content ∧ operand = .polynomial content := by
  cases view <;> simp [View.operand?, eq_comm]

/-- A trigonometric polynomial takes the polynomial of another one. -/
def Content.operand? (content : Content) (other : View) : Option Operand :=
  match content, other with
  | .trig _, .trig right => some (.polynomial right.polynomial)
  | _, other => other.operand?

/-- An operand is met by the same edit in every content. -/
theorem Content.operand?_of_operand? {content : Content} {other : View} {operand : Operand}
    (isOperand : other.operand? = some operand) : content.operand? other = some operand := by
  rcases operand?_eq_some.1 isOperand with ⟨value, rfl, rfl⟩ | ⟨polynomial, rfl, rfl⟩ <;>
    cases content <;> rfl

/-- An operation in place is one on the polynomial, with a polynomial or number, or one of two
trigonometric polynomials; otherwise the content stays. -/
theorem editContent_cases {operator : Operator} {content : Content} {other : View}
    {edit : Edit Content}
    (found : editContent operator content other = some edit) :
    (∃ trig right, content = .trig trig ∧ other = .trig right ∧
      edit = (editTrigs operator trig right).map .trig) ∨
    (∃ trig operand, content = .trig trig ∧ other.operand? = some operand ∧
      edit = (editTrig operator trig operand).map .trig) ∨
    (∃ polynomial operand, content = .polynomial polynomial ∧ other.operand? = some operand ∧
      edit = (operand.edit operator polynomial).map .polynomial) ∨
    content.operand? other = none ∧ edit.content = content := by
  have meets {polynomial : Numeric} : (meetOther operator content polynomial other).content = content := by
    unfold meetOther
    split <;> rfl
  unfold editContent at found
  split at found
  · cases found
    exact .inl ⟨_, _, rfl, rfl, rfl⟩
  · rename_i trig notTrig
    split at found
    · rename_i operand isOperand
      cases found
      exact .inr (.inl ⟨trig, operand, rfl, isOperand, rfl⟩)
    · rename_i none
      cases found
      refine .inr (.inr (.inr ⟨?_, meets⟩))
      cases other with
      | trig right => exact (notTrig right rfl).elim
      | _ => exact none
  · cases found
  · rename_i polynomial _
    split at found
    · cases found
    · rename_i operand _ isOperand
      cases found
      exact .inr (.inr (.inl ⟨polynomial, operand, rfl, isOperand, rfl⟩))
    · rename_i none
      cases found
      exact .inr (.inr (.inr ⟨none, meets⟩))

end Session

end TrigAlgebra
