/-
This file runs the steps of a session whose polynomials are kept in memory.
-/

import TrigAlgebra.Heap.Operators
import TrigAlgebra.Session.Run

namespace TrigAlgebra

open TrigAlgebra.Session (Action Source Step Value)

/-- The memory, the objects that references lead to, and the values kept in registers. -/
structure HeapSession where
  heap : Heap := {}
  objects : List HeapObject := []
  registers : List (String × Value) := []

namespace HeapSession

/-- The session with all objects read from the memory. -/
def shown (session : HeapSession) : Session :=
  ⟨session.objects.map (HeapObject.content session.heap), session.registers⟩

/-- Registers do not depend on the memory. -/
def read (session : HeapSession) (source : Source) : Except Fault Value :=
  Session.read ⟨[], session.registers⟩ source

/-- A reference that leads nowhere does not arise. -/
def follow (session : HeapSession) : Value → Handle
  | .object reference =>
      match session.objects[reference]? with
      | some object => .object object
      | none => .plain (.other .nothing)
  | value => .plain (Session.follow {} value)

def hold (session : HeapSession) (source : Source) : Except Fault Handle :=
  (session.read source).map session.follow

/-- A step that only looks at the objects, and may build a new one. -/
def inspect (session : HeapSession) (action : Action) : Program Made := do
  Program.buildProduct (← session.shown.compute action)

/-- A program on the object that a source leads to, if it leads to one and there is a program for it. -/
def onObject (session : HeapSession) (action : Action) (source : Source)
    (program? : HeapObject → Option (Program Made)) : Program Made := do
  match ← session.hold source with
  | .object object => (program? object).getD (session.inspect action)
  | .plain _ => session.inspect action

def onPolynomial (session : HeapSession) (action : Action) (source : Source)
    (program : Place → Program Made) : Program Made :=
  session.onObject action source fun
    | .polynomial place => some (program place)
    | .trig _ => none

def onTrig (session : HeapSession) (action : Action) (source : Source)
    (program : TrigPlace → Program Made) : Program Made :=
  session.onObject action source fun
    | .polynomial _ => none
    | .trig place => some (program place)

/-- The map of a new copy is shown. -/
def showAngles (place : TrigPlace) : Program Made := do
  let copied ← Program.newAngles (← Program.read fun heap => heap.angles place.angles)
  return .value (.angles (← Program.read fun heap => heap.angles copied))

/-- A new trigonometric polynomial of an angle, on a copy of the polynomial that is the angle. -/
def makeAngle (checked : TrigPolynomial Number) : Handle → Program Made
  | .object (.polynomial place) => Program.makeTrig (Program.wrap place checked.angles)
  | _ => Program.makeTrig (Program.buildTrig checked)

/-- The steps that leave every object as it is. -/
def make (session : HeapSession) (action : Action) : Program Made :=
  match action with
  | .operate operator left right => do
      let left ← session.hold left
      Program.operate operator false left (← session.hold right)
  | .negate source => do Program.negate (← session.hold source)
  | .confirm source => do Program.confirm (← session.hold source)
  | .copy _ source => session.onObject action source fun object =>
      some (Program.makeObject (Program.copyObject object))
  | .circular function _ source => session.onTrig action source fun place =>
      Program.makeTrig (Program.expand function place)
  | .property .polynomial source => session.onTrig action source fun place =>
      Program.makePolynomial (Program.copy place.polynomial)
  | .property .angles source => session.onTrig action source showAngles
  | .constant source => session.onPolynomial action source fun place =>
      Program.makePolynomial (Program.copy place)
  | .trig (.source source) angles => session.onPolynomial action source fun place =>
      Program.makeTrig (Program.wrap place (.ofList angles))
  | .angle angle sine cosine => do
      let angle ← session.hold angle
      let sine ← session.hold sine
      let cosine ← session.hold cosine
      let checked ← Session.ofAngle (angle.view session.heap) (sine.view session.heap)
        (cosine.view session.heap)
      makeAngle checked angle
  | .substitute source values => session.onPolynomial action source fun place =>
      Program.makePolynomial (Program.evaluatePartial place (.ofList values))
  | .derivative source order => session.onPolynomial action source fun place =>
      Program.makePolynomial (Program.derivative place order)
  | .integral source constant => session.onPolynomial action source fun place => do
      let number ← session.shown.readOptional Coefficient.zero .multiply .real constant
      Program.makePolynomial (Program.integral place number)
  | action => session.inspect action

/-- How a step ended, what it noted and the session after it. -/
structure Outcome where
  session : HeapSession
  notes : List String
  answer : Except Fault Value

/-- The outcome with all objects read from the memory. -/
def Outcome.shown (outcome : Outcome) : Session.Outcome :=
  ⟨outcome.session.shown, outcome.notes, outcome.answer⟩

/-- A new object is the last one. -/
def settle (session : HeapSession) : Made → HeapSession × Value
  | .value value => (session, value)
  | .object object =>
      ({ session with objects := session.objects ++ [object] }, .object session.objects.length)

/-- What the program has written stays, also when it has failed. -/
def finish (session : HeapSession) (program : Program Made) : Outcome :=
  let ended := program session.heap
  let after := { session with heap := ended.heap }
  match ended.traced.outcome with
  | .ok made =>
      let (after, value) := after.settle made
      ⟨after, ended.traced.notes, .ok value⟩
  | .error fault => ⟨after, ended.traced.notes, .error fault⟩

def failed (session : HeapSession) (fault : Fault) : Outcome := ⟨session, [], .error fault⟩

/-- The program writes the object, and the reference to it is answered. -/
def change (session : HeapSession) (reference : Nat) (program : Program Unit) : Outcome :=
  let ended := program session.heap
  ⟨{ session with heap := ended.heap }, ended.traced.notes,
    ended.traced.outcome.map fun _ => .object reference⟩

/-- An operation in place on a value that cannot change, or with an operand that takes the
operation over, makes a new value. The operand is read before the target is written, so that `p -= p`
on one object returns here; where the list is read while it grows, that step never returns, and what
it gives here stands for nothing. -/
def updateStep (session : HeapSession) (operator : Operator) (target operand : Value) : Outcome :=
  let right := session.follow operand
  let plain := session.finish (Program.operate operator true (session.follow target) right)
  match target with
  | .object reference =>
      match session.objects[reference]? with
      | some (.polynomial place) =>
          match Program.editPolynomial? operator right with
          | some edit => session.change reference (edit place)
          | none => plain
      | some (.trig place) => session.change reference (Program.editTrig operator right place)
      | none => plain
  | _ => plain

def renameStep (session : HeapSession) (target : Value) (old new : Int) : Outcome :=
  let missing := session.failed (((session.follow target).view session.heap).missing "subs")
  match target with
  | .object reference =>
      match session.objects[reference]? with
      | some (.polynomial place) => session.change reference (Program.renameIn place old new)
      | _ => missing
  | _ => missing

/-- Operations in place and renaming write an object, and all other actions make something. -/
def perform (session : HeapSession) (action : Action) : Outcome :=
  match action with
  | .update operator target operand =>
      match session.read target, session.read operand with
      | .error fault, _ => session.failed fault
      | .ok _, .error fault => session.failed fault
      | .ok target, .ok operand => session.updateStep operator target operand
  | .rename source old new =>
      match session.read source with
      | .error fault => session.failed fault
      | .ok target => session.renameStep target old new
  | action => session.finish (session.make action)

/-- A newer value hides an older one of the same register. -/
def keep (session : HeapSession) (name : String) (value : Value) : HeapSession :=
  { session with registers := (name, value) :: session.registers }

/-- A step that fails keeps nothing. -/
def take (session : HeapSession) (step : Step) : Outcome :=
  let outcome := session.perform step.action
  match outcome.answer, step.register? with
  | .ok value, some name => { outcome with session := outcome.session.keep name value }
  | _, _ => outcome

/-- The outcomes of all steps in order, each from the session that the one before left. -/
def run (session : HeapSession) : List Step → List Outcome
  | [] => []
  | step :: rest =>
      let outcome := session.take step
      outcome :: run outcome.session rest

end HeapSession

end TrigAlgebra
