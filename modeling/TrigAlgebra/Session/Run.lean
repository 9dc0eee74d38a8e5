/-
This file runs the steps of a session one after the other; a step that fails ends only itself.
-/

import TrigAlgebra.Journal
import TrigAlgebra.Session.Compute

namespace TrigAlgebra.Session

/-- How a step ended, what it noted and the session after it. -/
structure Outcome where
  session : Session
  notes : List String
  answer : Except Fault Value

/-- New content becomes an object of its own. -/
def settle (session : Session) : Product → Session × Value
  | .value value => (session, value)
  | .content content =>
      ({ session with objects := session.objects ++ [content] }, .object session.objects.length)

def finish (session : Session) (result : Traced Product) : Outcome :=
  match result.outcome with
  | .ok product =>
      let (session, value) := session.settle product
      ⟨session, result.notes, .ok value⟩
  | .error fault => ⟨session, result.notes, .error fault⟩

def failed (session : Session) (fault : Fault) : Outcome := ⟨session, [], .error fault⟩

/-- The object keeps what the operation left, also when the operation failed. -/
def replace (session : Session) (reference : Nat) (edit : Edit Content) : Outcome :=
  ⟨{ session with objects := session.objects.set reference edit.content }, [],
    edit.outcome.map fun _ => .object reference⟩

/-- An operation in place on a value that cannot change, or with an operand that takes the
operation over, makes a new value. The operand is read before the target is written, so that `p -= p`
on one object returns here; where the list is read while it grows, that step never returns, and what
it gives here stands for nothing. -/
def updateStep (session : Session) (operator : Operator) (target operand : Value) : Outcome :=
  let right := session.follow operand
  let plain := session.finish (.ofResult (operate operator true (session.follow target) right))
  match target with
  | .object reference =>
      match session.objects[reference]?.bind fun content => editContent operator content right with
      | some edit => session.replace reference edit
      | none => plain
  | _ => plain

def renameStep (session : Session) (target : Value) (old new : Int) : Outcome :=
  match target with
  | .object reference =>
      match session.objects[reference]? with
      | some (.polynomial polynomial) =>
          session.replace reference ((polynomial.renameIn old new).map .polynomial)
      | _ => session.failed ((session.follow target).missing "subs")
  | _ => session.failed ((session.follow target).missing "subs")

def perform (session : Session) (action : Action) : Outcome :=
  match action with
  | .update operator target operand =>
      match session.read target, session.read operand with
      | .error fault, _ => session.failed fault
      | .ok _, .error fault => session.failed fault
      | .ok target, .ok operand => session.updateStep operator target operand
  | .rename source old new =>
      match session.read source with
      | .error fault => session.failed fault
      | .ok target => session.renameStep target old new
  | action => session.finish (session.compute action)

/-- A newer value hides an older one of the same register. -/
def keep (session : Session) (name : String) (value : Value) : Session :=
  { session with registers := (name, value) :: session.registers }

/-- A step that fails keeps nothing. -/
def take (session : Session) (step : Step) : Outcome :=
  let outcome := session.perform step.action
  match outcome.answer, step.register? with
  | .ok value, some name => { outcome with session := outcome.session.keep name value }
  | _, _ => outcome

/-- The outcomes of all steps in order, each from the session that the one before left. -/
def run (session : Session) : List Step → List Outcome
  | [] => []
  | step :: rest =>
      let outcome := session.take step
      outcome :: run outcome.session rest

/-- The notes of all steps. -/
def journal (outcomes : List Outcome) : List String :=
  outcomes.flatMap Outcome.notes

end TrigAlgebra.Session
