/-
This file says what the operators do with values of any two kinds, where polynomials are kept in memory.
-/

import TrigAlgebra.Heap.TrigPolynomials
import TrigAlgebra.Session.Operators

namespace TrigAlgebra

open TrigAlgebra.Session (View Content)

/-- A polynomial or trigonometric polynomial in memory. -/
inductive HeapObject where
  | polynomial (place : Place)
  | trig (place : TrigPlace)

/-- The object as the memory has it now. -/
def HeapObject.content (heap : Heap) : HeapObject → Content
  | .polynomial place => .polynomial (heap.polynomial place)
  | .trig place => .trig (heap.trig place)

def HeapObject.kind : HeapObject → Kind
  | .polynomial _ => .polynomial
  | .trig _ => .trigPolynomial

/-- A value with its reference followed to the object, whose content is not looked at yet. -/
inductive Handle where
  | object (object : HeapObject)
  | plain (view : View)

/-- The value as the memory has it now. -/
def Handle.view (heap : Heap) : Handle → View
  | .object held => (held.content heap).view
  | .plain view => view

def Handle.kind : Handle → Kind
  | .object held => held.kind
  | .plain view => view.kind

/-- What a program brings: a value, or a new object. -/
inductive Made where
  | value (value : Session.Value)
  | object (object : HeapObject)

/-- The right operand of an operation on a polynomial. -/
inductive HeapOperand where
  | number (value : Number)
  | polynomial (place : Place)

/-- Only numbers and polynomials are operands of a polynomial. -/
def Handle.operand? : Handle → Option HeapOperand
  | .plain (.number value) => some (.number value)
  | .object (.polynomial place) => some (.polynomial place)
  | _ => none

namespace Program

def newPolynomialObject (program : Program Place) : Program HeapObject := return .polynomial (← program)

def newTrigObject (program : Program TrigPlace) : Program HeapObject := return .trig (← program)

def makeObject (program : Program HeapObject) : Program Made := return .object (← program)

def makePolynomial (program : Program Place) : Program Made := makeObject (newPolynomialObject program)

def makeTrig (program : Program TrigPlace) : Program Made := makeObject (newTrigObject program)

/-- New content becomes an object. -/
def buildProduct : Session.Product → Program Made
  | .value value => pure (.value value)
  | .content (.polynomial content) => makePolynomial (build content)
  | .content (.trig content) => makeTrig (buildTrig content)

def copyObject : HeapObject → Program HeapObject
  | .polynomial place => newPolynomialObject (copy place)
  | .trig place => newTrigObject (copyTrig place)

/-- The operation in place that an operator stands for; only numbers divide. -/
def editWith (operator : Operator) (operand : HeapOperand) (place : Place) : Program Unit :=
  match operator, operand with
  | .add, .number value => addScalarTo place value
  | .add, .polynomial other => addTo place other
  | .subtract, .number value => addScalarTo place (Coefficient.neg value)
  | .subtract, .polynomial other => subtractFrom place other
  | .multiply, .number value => scaleBy place value
  | .multiply, .polynomial other => multiplyBy place other
  | .divide, .number value => divideBy place value
  | operator, _ => fail (.unsupportedOperands operator true .polynomial .polynomial)

/-- The second operand is read and not written; there is no division. -/
def editTrigWith (operator : Operator) (other place : TrigPlace) : Program Unit :=
  match operator with
  | .add => addTrigTo place other
  | .subtract => subtractTrigFrom place other
  | .multiply => multiplyTrigBy place other
  | operator => fail (.unsupportedOperands operator true .polynomial .trigPolynomial)

/-- A value that is neither a number nor a polynomial changes nothing. -/
def meetOther (operator : Operator) (other : Handle) (place : Place) : Program Unit := do
  let view ← read other.view
  match Session.objection? operator (← read fun heap => heap.polynomial place) view with
  | some fault => fail fault
  | none => pure ()

/-- An operation in place on a polynomial with a value that is not a trigonometric polynomial. -/
def editPlain (operator : Operator) (other : Handle) (place : Place) : Program Unit :=
  match other.operand? with
  | some operand => editWith operator operand place
  | none => meetOther operator other place

/-- An operation in place on a polynomial; `none` where the other operand takes it over. -/
def editPolynomial? (operator : Operator) (other : Handle) : Option (Place → Program Unit) :=
  match operator, other with
  | _, .object (.trig _) => none
  | .divide, .object (.polynomial _) => none
  | operator, other => some (editPlain operator other)

/-- An operation in place on a trigonometric polynomial. -/
def editTrig (operator : Operator) (other : Handle) (place : TrigPlace) : Program Unit :=
  match other with
  | .object (.trig right) => editTrigWith operator right place
  | other => editPlain operator other place.polynomial

/-- The left operand is copied, and the copy is edited in place. -/
def onCopy (operator : Operator) (object : HeapObject) (other : Handle) : Option (Program HeapObject) :=
  match object with
  | .polynomial place =>
      (editPolynomial? operator other).map fun edit => newPolynomialObject (editNew (copy place) edit)
  | .trig place => some (newTrigObject (editNew (copyTrig place) (editTrig operator other)))

/-- A value before a polynomial: sums and products are taken in the other order, and a difference
starts from the negated polynomial. -/
def reflected (operator : Operator) (left : Handle) (object : HeapObject) : Option (Program HeapObject) :=
  match operator, object with
  | .add, object => onCopy .add object left
  | .multiply, object => onCopy .multiply object left
  | .subtract, .polynomial place =>
      (editPolynomial? .add left).map fun edit => newPolynomialObject (editNew (neg place) edit)
  | .subtract, .trig place => some (newTrigObject (editNew (negTrig place) (editTrig .add left)))
  | _, _ => none

/-- Values that are not changed are only looked at. -/
def onViews (compute : View → View → Except Fault Session.Product) (left right : Handle) : Program Made := do
  let left ← read left.view
  let right ← read right.view
  buildProduct (← compute left right)

/-- The exponent must be a number that is not negative; the base is only read. -/
def power (base exponent : Handle) : Program Made :=
  match base, exponent with
  | .object (.polynomial place), .plain (.number (.integer value)) =>
      if 0 ≤ value then makePolynomial (pow place value.toNat)
      else onViews Session.power base exponent
  | base, exponent => onViews Session.power base exponent

/-- Where the kinds do not allow the operation, there is no program. -/
def orUnsupported (fault : Fault) : Option (Program HeapObject) → Program Made
  | some program => makeObject program
  | none => fail fault

/-- The operators on values of any kinds; `inPlace` only changes how a failure is worded. -/
def operate (operator : Operator) (inPlace : Bool) (left right : Handle) : Program Made :=
  let unsupported : Fault := .unsupportedOperands operator inPlace left.kind right.kind
  if operator == .power then power left right
  else
    match left, right with
    | .object (.polynomial _), .object (.trig second) =>
        orUnsupported unsupported (reflected operator left (.trig second))
    | .object first, right => orUnsupported unsupported (onCopy operator first right)
    | left, .object second => orUnsupported unsupported (reflected operator left second)
    | .plain _, .plain _ => onViews (Session.operate operator inPlace) left right

/-- A polynomial is negated on a new one. -/
def negate : Handle → Program Made
  | .object (.polynomial place) => makePolynomial (neg place)
  | .object (.trig place) => makeTrig (negTrig place)
  | .plain view => do buildProduct (← Session.negate view)

/-- Only a plain polynomial is copied by its sign. -/
def confirm : Handle → Program Made
  | .object (.polynomial place) => makePolynomial (copy place)
  | .object (.trig _) => fail (.unsupportedSign "+" .trigPolynomial)
  | .plain view => do buildProduct (← Session.confirm view)

end Program

end TrigAlgebra
