/-
This file says what the operators do with a polynomial on one side and a trigonometric one on the
other: the polynomials are added, subtracted and multiplied, and nothing is divided.
-/

import TrigAlgebra.Proofs.IntegerArithmetic
import TrigAlgebra.Proofs.ScalarPaths

namespace TrigAlgebra.Session

open TrigAlgebra.Polynomial
open scoped Pointwise

section

variable {operator : Operator} {left right : Numeric}

/-- The operation on the polynomials alone. -/
def plainly (operator : Operator) (left right : Numeric) : Except Fault Numeric :=
  ((Operand.polynomial right).edit operator left).result

/-- What the operators compute for a polynomial before a trigonometric one: sums and products are taken
in the other order, and a difference is added to the negated polynomial. -/
def turned (operator : Operator) (left right : Numeric) : Except Fault Numeric :=
  match operator with
  | .subtract => right.neg.add left
  | operator => plainly operator right left

/-- A polynomial on the right works on the polynomial inside a copy. -/
theorem onCopy_trig (operator : Operator) (trig : Trigonometric) (plain : Numeric) :
    onCopy operator (.trig trig) (.polynomial plain) =
      some ((plainly operator trig.polynomial plain).map fun new => .trig ⟨new, trig.angles⟩) := by
  change some (((editTrig operator trig (.polynomial plain)).map Content.trig).result.map Product.content) = _
  rw [editTrig, TrigPolynomial.onPolynomial, plainly, Edit.result_map, Edit.result_map]
  cases ((Operand.polynomial plain).edit operator trig.polynomial).result <;> rfl

/-- The trigonometric polynomial keeps its angles. -/
theorem operate_trig_polynomial (arithmetic : isArithmetic operator = true) (trig : Trigonometric)
    (plain : Numeric) : operate operator false (.trig trig) (.polynomial plain) =
      (plainly operator trig.polynomial plain).map fun new => .trig ⟨new, trig.angles⟩ := by
  have copied : operate operator false (.trig trig) (.polynomial plain) =
      (onCopy operator (.trig trig) (.polynomial plain)).getD
        (.error (.unsupportedOperands operator false .trigPolynomial .polynomial)) := by
    cases operator <;> first | rfl | cases arithmetic
  rw [copied, onCopy_trig, Option.getD_some]

/-- The polynomial on the left takes the angles of the right operand. -/
theorem operate_polynomial_trig (arithmetic : isArithmetic operator = true) (inPlace : Bool)
    (plain : Numeric) (trig : Trigonometric) : operate operator inPlace (.polynomial plain) (.trig trig) =
      (turned operator plain trig.polynomial).map fun new => .trig ⟨new, trig.angles⟩ := by
  have turns : reflected operator (.polynomial plain) (.trig trig) =
      some ((turned operator plain trig.polynomial).map fun new => .trig ⟨new, trig.angles⟩) := by
    cases operator with
    | add => exact onCopy_trig .add trig plain
    | subtract => exact onCopy_trig .add trig.neg plain
    | multiply => exact onCopy_trig .multiply trig plain
    | _ => cases arithmetic
  have asked : operate operator inPlace (.polynomial plain) (.trig trig) =
      (reflected operator (.polynomial plain) (.trig trig)).getD
        (.error (.unsupportedOperands operator inPlace .polynomial .trigPolynomial)) := by
    cases operator <;> first | rfl | cases arithmetic
  rw [asked, turns, Option.getD_some]

variable (arithmetic : isArithmetic operator = true) (leftCovered : Reading.integers.Covers left.monomials)
  (rightCovered : Reading.integers.Covers right.monomials)
include arithmetic leftCovered rightCovered

/-- Operations with integers agree with themselves, since they return. -/
theorem agree_plainly : Agree (plainly operator left right) (plainly operator left right) := by
  cases operator with
  | add =>
      have sum := represents_add leftCovered rightCovered
      exact sum.agree sum rfl rfl
  | subtract =>
      have difference := represents_sub leftCovered rightCovered
      exact difference.agree difference rfl rfl
  | multiply =>
      have product := represents_mul leftCovered rightCovered
      exact product.agree product rfl rfl
  | _ => cases arithmetic

/-- Operations taken in the other order agree with those in the given one. -/
theorem agree_turned : Agree (turned operator left right) (plainly operator left right) := by
  cases operator with
  | add =>
      exact (represents_add rightCovered leftCovered).agree (represents_add leftCovered rightCovered)
        (add_comm _ _) (Finset.union_comm _ _)
  | subtract =>
      -- The negated polynomial comes first, so only the order of the monomials differs.
      have negated : right.neg.formal = -right.formal := Reading.formal_negated rightCovered
      have powers : right.neg.support = right.support :=
        congrArg List.toFinset (powersOf_negated right.monomials)
      refine (represents_add (Reading.covers_negated rightCovered) leftCovered).agree
        (represents_sub leftCovered rightCovered) ?_ ?_
      · rw [negated, neg_add_eq_sub]
      · rw [powers, Finset.union_comm]
  | multiply =>
      exact (represents_mul rightCovered leftCovered).agree (represents_mul leftCovered rightCovered)
        (mul_comm _ _) (mul_comm _ _)
  | _ => cases arithmetic

end

section

variable {session : Session} {operator : Operator} {left right : Source}

/-- Operators work on what the sources lead to. -/
theorem perform_operate {leftView rightView : View} (leftLook : session.look left = .ok leftView)
    (rightLook : session.look right = .ok rightView) :
    session.perform (.operate operator left right) =
      session.finish (.ofResult (operate operator false leftView rightView)) := by
  have performed : session.perform (.operate operator left right) = session.finish (.ofResult
      (session.look left >>= fun leftView => session.look right >>= operate operator false leftView)) := rfl
  rw [performed, leftLook, rightLook]
  rfl

/-- Only references lead to polynomials. -/
theorem follow_eq_polynomial {value : Value} {content : Numeric}
    (followed : session.follow value = .polynomial content) :
    ∃ reference, value = .object reference ∧ session.objects[reference]? = some (.polynomial content) := by
  cases value with
  | object reference =>
      refine ⟨reference, rfl, ?_⟩
      change session.objects[reference]?.elim (.other .nothing) Content.view = _ at followed
      generalize session.objects[reference]? = found at followed ⊢
      rcases found with _ | ⟨old⟩ | ⟨old⟩ <;> cases followed
      rfl
  | _ => cases followed

/-- A polynomial leaves an operation in place with a trigonometric one to the other operand. -/
theorem perform_update {plain : Numeric} {trig : Trigonometric}
    (leftLook : session.look left = .ok (.polynomial plain))
    (rightLook : session.look right = .ok (.trig trig)) :
    session.perform (.update operator left right) =
      session.finish (.ofResult (operate operator true (.polynomial plain) (.trig trig))) := by
  obtain ⟨target, targetRead, targetView⟩ := map_eq_ok.1 leftLook
  obtain ⟨operand, operandRead, operandView⟩ := map_eq_ok.1 rightLook
  obtain ⟨reference, rfl, found⟩ := follow_eq_polynomial targetView
  rw [perform, targetRead, operandRead]
  dsimp only
  rw [updateStep, targetView, operandView, found]
  rfl

/-- A step that brings an object adds it at the end. -/
theorem take_content {action : Action} {content : Content}
    (performed : session.perform action = session.finish (.ofResult (.ok (.content content))))
    (register? : Option String) :
    session.take ⟨action, register?⟩ =
      ⟨{ objects := session.objects ++ [content]
         registers := register?.toList.map (·, .object session.objects.length) ++ session.registers },
        [], .ok (.object session.objects.length)⟩ := by
  rw [take, performed]
  cases register? <;> rfl

/-- A step that is refused leaves the session as it is. -/
theorem take_refused {action : Action} {fault : Fault}
    (performed : session.perform action = session.finish (.ofResult (.error fault)))
    (register? : Option String) : session.take ⟨action, register?⟩ = session.failed fault := by
  rw [take, performed]
  rfl

/-- The step makes a new trigonometric polynomial with these angles, equal to what the polynomials alone
give, and changes no object. -/
def Brings (session : Session) (action : Action) (alone : Except Fault Product) (angles : AngleMap) : Prop :=
  ∃ (content : Numeric) (trig : Trigonometric), alone = .ok (.polynomial content) ∧
    trig.polynomial.same content = true ∧ trig.angles = angles ∧
    ∀ register?, session.take ⟨action, register?⟩ =
      ⟨{ objects := session.objects ++ [.trig trig]
         registers := register?.toList.map (·, .object session.objects.length) ++ session.registers },
        [], .ok (.object session.objects.length)⟩

/-- New objects are brought with the angles. -/
theorem brings {action : Action} {computed alone : Except Fault Numeric} {angles : AngleMap}
    (performed : session.perform action =
      session.finish (.ofResult (computed.map fun new => .trig ⟨new, angles⟩)))
    (agree : Agree computed alone) : Brings session action (alone.map .polynomial) angles := by
  obtain ⟨new, content, rfl, rfl, same⟩ := agree
  exact ⟨content, ⟨new, angles⟩, rfl, same, rfl, take_content performed⟩

end

/-- With integer coefficients the sum, difference and product of a polynomial and a trigonometric one are
those of the polynomials, in either order, with the angles that there are; an operation in place on the
polynomial makes a new object, too, and leaves the old one. Nothing is divided by a polynomial. -/
theorem mixed_operations {session : Session} {plain trig other : Source} {content : Numeric}
    {trigContent otherContent : Trigonometric} (plainLook : session.look plain = .ok (.polynomial content))
    (trigLook : session.look trig = .ok (.trig trigContent))
    (otherLook : session.look other = .ok (.trig otherContent)) :
    ((∀ item ∈ content.monomials ++ trigContent.polynomial.monomials,
        ∃ value, item.coefficient = .integer value) →
      ∀ operator, isArithmetic operator = true →
        Brings session (.operate operator plain trig)
          (operate operator false (.polynomial content) (.polynomial trigContent.polynomial))
          trigContent.angles ∧
        Brings session (.update operator plain trig)
          (operate operator false (.polynomial content) (.polynomial trigContent.polynomial))
          trigContent.angles ∧
        Brings session (.operate operator trig plain)
          (operate operator false (.polynomial trigContent.polynomial) (.polynomial content))
          trigContent.angles) ∧
    ∀ register?,
      session.take ⟨.operate .divide plain trig, register?⟩ =
        session.failed (.unsupportedOperands .divide false .polynomial .trigPolynomial) ∧
      session.take ⟨.operate .divide trig plain, register?⟩ =
        session.failed (.unsupportedOperands .divide true .polynomial .polynomial) ∧
      session.take ⟨.operate .divide trig other, register?⟩ =
        session.failed (.unsupportedOperands .divide true .polynomial .trigPolynomial) := by
  constructor
  · intro integers operator arithmetic
    have covered : Reading.integers.Covers content.monomials :=
      fun item member => integers item (List.mem_append_left _ member)
    have trigCovered : Reading.integers.Covers trigContent.polynomial.monomials :=
      fun item member => integers item (List.mem_append_right _ member)
    have before := agree_turned arithmetic covered trigCovered
    rw [operate_operand arithmetic rfl, operate_operand arithmetic rfl]
    refine ⟨brings ?_ before, brings ?_ before, brings ?_ (agree_plainly arithmetic trigCovered covered)⟩
    · rw [perform_operate plainLook trigLook, operate_polynomial_trig arithmetic]
    · rw [perform_update plainLook trigLook, operate_polynomial_trig arithmetic]
    · rw [perform_operate trigLook plainLook, operate_trig_polynomial arithmetic]
  · intro register?
    exact ⟨take_refused (perform_operate plainLook trigLook) register?,
      take_refused (perform_operate trigLook plainLook) register?,
      take_refused (perform_operate trigLook otherLook) register?⟩

/-- A binomial, and another one with an angle among its variables. -/
def binomials : Session where
  objects := [.polynomial (binomial 3 (-1)), .trig ⟨binomial 1 2, .ofList [(2, ⟨4, 6⟩)]⟩]
  registers := [("angled", .object 1), ("plain", .object 0)]

theorem mixed_operations_binomials :
    binomials.look (.register "plain") = .ok (.polynomial (binomial 3 (-1))) ∧
    binomials.look (.register "angled") = .ok (.trig ⟨binomial 1 2, .ofList [(2, ⟨4, 6⟩)]⟩) ∧
    Brings binomials (.update .subtract (.register "plain") (.register "angled"))
      (operate .subtract false (.polynomial (binomial 3 (-1))) (.polynomial (binomial 1 2)))
      (.ofList [(2, ⟨4, 6⟩)]) ∧
    binomials.take ⟨.operate .divide (.register "angled") (.register "angled"), some "quotient"⟩ =
      binomials.failed (.unsupportedOperands .divide true .polynomial .trigPolynomial) := by
  have plainLook : binomials.look (.register "plain") = .ok (.polynomial (binomial 3 (-1))) := rfl
  have trigLook : binomials.look (.register "angled") =
      .ok (.trig ⟨binomial 1 2, .ofList [(2, ⟨4, 6⟩)]⟩) := rfl
  have integers : ∀ item ∈ (binomial 3 (-1)).monomials ++ (binomial 1 2).monomials,
      ∃ value, item.coefficient = .integer value := by
    intro item member
    rcases List.mem_append.1 member with first | second
    · exact (integral_binomial 3 (-1)).integers item first
    · exact (integral_binomial 1 2).integers item second
  obtain ⟨brought, refused⟩ := mixed_operations plainLook trigLook trigLook
  exact ⟨plainLook, trigLook, (brought integers .subtract rfl).2.1, (refused (some "quotient")).2.2⟩

end TrigAlgebra.Session
