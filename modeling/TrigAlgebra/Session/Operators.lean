/-
This file says what the operators do with values of any two kinds.
-/

import TrigAlgebra.Number.Text
import TrigAlgebra.Session.Value

namespace TrigAlgebra.Session

abbrev Numeric : Type := Polynomial Number

abbrev Trigonometric : Type := TrigPolynomial Number

/-- The right operand of an operation on a polynomial. -/
inductive Operand where
  | number (value : Number)
  | polynomial (content : Numeric)

def View.operand? : View → Option Operand
  | .number value => some (.number value)
  | .polynomial content => some (.polynomial content)
  | _ => none

namespace Operand

def addTo (polynomial : Numeric) : Operand → Edit Numeric
  | .number value => polynomial.addScalarTo value
  | .polynomial other => polynomial.addTo other

def subtractFrom (polynomial : Numeric) : Operand → Edit Numeric
  | .number value => polynomial.subtractScalarFrom value
  | .polynomial other => polynomial.subtractFrom other

def multiplyBy (polynomial : Numeric) : Operand → Edit Numeric
  | .number value => polynomial.scaleBy value
  | .polynomial other => polynomial.multiplyBy other

/-- The operation in place that an operator stands for; only numbers divide. -/
def edit (operator : Operator) (polynomial : Numeric) (operand : Operand) : Edit Numeric :=
  match operator, operand with
  | .add, operand => addTo polynomial operand
  | .subtract, operand => subtractFrom polynomial operand
  | .multiply, operand => multiplyBy polynomial operand
  | .divide, .number value => polynomial.divideBy value
  | operator, _ =>
      .failed (.unsupportedOperands operator true .polynomial .polynomial) polynomial

end Operand

/-- The operation in place on a trigonometric polynomial with a plain operand. -/
def editTrig (operator : Operator) (trig : Trigonometric) (operand : Operand) :
    Edit Trigonometric :=
  trig.onPolynomial (operand.edit operator trig.polynomial)

/-- The operation in place on a trigonometric polynomial with another one. -/
def editTrigs (operator : Operator) (trig other : Trigonometric) : Edit Trigonometric :=
  match operator with
  | .add => trig.addTo other
  | .subtract => trig.subtractFrom other
  | .multiply => trig.multiplyBy other
  | operator => .failed (.unsupportedOperands operator true .polynomial .trigPolynomial) trig

/-- Why a polynomial cannot meet a value that is neither a number nor a polynomial: the coefficients
meet the value one by one, so that no coefficient at all is no reason against a product or
quotient. -/
def objection? (operator : Operator) (polynomial : Numeric) (other : View) : Option Fault :=
  match operator, polynomial.monomials, other with
  | .subtract, _, .factor _ => some (.unsupportedSign "-" .factor)
  | .multiply, [], _ => none
  | .divide, [], _ => none
  | .multiply, first :: _, other =>
      some (.unsupportedOperands .multiply false first.coefficient.kind other.kind)
  | .divide, first :: _, other =>
      some (.unsupportedOperands .divide false first.coefficient.kind other.kind)
  | operator, monomials, other =>
      some (match monomials.find? Monomial.isConstant with
        | some constant => .unsupportedOperands .add false constant.coefficient.kind other.kind
        | none => .unsupportedOperands operator false .polynomial other.kind)

/-- Content that meets such a value stays as it is. -/
def meetOther (operator : Operator) (content : Content) (polynomial : Numeric) (other : View) :
    Edit Content :=
  match objection? operator polynomial other with
  | some fault => .failed fault content
  | none => .done content

def isArithmetic : Operator → Bool
  | .add => true
  | .subtract => true
  | .multiply => true
  | _ => false

/-- An operation in place on content; `none` where the kinds leave the content untouched. -/
def editContent (operator : Operator) (content : Content) (other : View) :
    Option (Edit Content) :=
  match content, other with
  | .trig trig, .trig right => some ((editTrigs operator trig right).map .trig)
  | .trig trig, other =>
      match other.operand? with
      | some operand => some ((editTrig operator trig operand).map .trig)
      | none => some (meetOther operator content trig.polynomial other)
  | .polynomial _, .trig _ => none
  | .polynomial polynomial, other =>
      match operator, other.operand? with
      | .divide, some (.polynomial _) => none
      | operator, some operand => some ((operand.edit operator polynomial).map .polynomial)
      | operator, none => some (meetOther operator content polynomial other)

/-- The operation on a copy of content. -/
def onCopy (operator : Operator) (content : Content) (other : View) :
    Option (Except Fault Product) :=
  (editContent operator content other).map fun edit => edit.result.map .content

/-- A value before a polynomial: sums and products are taken in the other order, and a difference
starts from the negated polynomial. -/
def reflected (operator : Operator) (left : View) (content : Content) :
    Option (Except Fault Product) :=
  match operator, content with
  | .add, content => onCopy .add content left
  | .multiply, content => onCopy .multiply content left
  | .subtract, .polynomial polynomial => onCopy .add (.polynomial polynomial.neg) left
  | .subtract, .trig trig => onCopy .add (.trig trig.neg) left
  | _, _ => none

def numberOperation (operator : Operator) (left right : Number) : Except Fault Number :=
  match operator, right with
  | .add, _ => left.add right
  | .subtract, _ => left.sub right
  | .multiply, _ => left.mul right
  | .divide, _ => left.div right
  | .power, .integer exponent =>
      if 0 ≤ exponent then left.pow exponent.toNat
      else do (← left.pow exponent.natAbs) |> Number.div (.integer 1)
  | operator, _ => .error (.unsupportedOperands operator false left.kind right.kind)

/-- The form in which a value is quoted in a message. -/
def View.quoted : View → Except Fault String
  | .number value => value.quoted
  | .polynomial content => return "Polynomial(" ++ (← content.text) ++ ")"
  | .trig content => return "TrigPoly(" ++ (← content.polynomial.text) ++ ")"
  | .monomial value => monomialForm value
  | .factor value => factorForm value
  | .other _ => .ok "None"
where
  factorForm (factor : Factor) : Except Fault String := return "Term(var=" ++
    (← Text.writeLimited factor.var) ++ ", power=" ++ (← Text.writeLimited factor.power) ++ ")"
  monomialForm (monomial : Monomial Number) : Except Fault String := do
    let coefficient ← monomial.coefficient.quoted
    let factors ← monomial.powers.factors.mapM factorForm
    let terms := ", ".intercalate factors ++ (if factors.length = 1 then "," else "")
    return "Monomial(coefficient=" ++ coefficient ++ ", terms=(" ++ terms ++ "))"

def power (base exponent : View) : Except Fault Product := do
  match base, exponent with
  | .polynomial polynomial, .number (.integer value) =>
      if 0 ≤ value then return .polynomial (← polynomial.pow value.toNat)
      else .error (.exponentNotNatural (← exponent.quoted))
  | .polynomial _, _ => .error (.exponentNotNatural (← exponent.quoted))
  | .number left, .number right => return .number (← numberOperation .power left right)
  | _, _ => .error (.unsupportedOperands .power false base.kind exponent.kind)

/-- The operators on values of any kinds; `inPlace` only changes how a failure is worded. -/
def operate (operator : Operator) (inPlace : Bool) (left right : View) : Except Fault Product :=
  let unsupported := .error (.unsupportedOperands operator inPlace left.kind right.kind)
  if operator == .power then power left right
  else
    match left, right with
    | .number first, .number second => (numberOperation operator first second).map .number
    | .monomial first, .monomial second =>
        if operator == .multiply then (first.mul second).map .monomial else unsupported
    | .polynomial first, .trig second =>
        (reflected operator (.polynomial first) (.trig second)).getD unsupported
    | .polynomial first, right => (onCopy operator (.polynomial first) right).getD unsupported
    | .trig first, right => (onCopy operator (.trig first) right).getD unsupported
    | left, .polynomial second =>
        (reflected operator left (.polynomial second)).getD unsupported
    | left, .trig second => (reflected operator left (.trig second)).getD unsupported
    | _, _ => unsupported

def same (left right : View) : Bool :=
  match left, right with
  | .number first, .number second => first.same second
  | .polynomial first, .polynomial second => first.same second
  | .trig first, .trig second => first.same second
  | .monomial first, .monomial second => first.same second
  | .factor first, .factor second => first == second
  | .other first, .other second => first == second
  | _, _ => false

def isOrdered (operator : Operator) (ordering : Ordering) : Bool :=
  match operator, ordering with
  | _, .lt => true
  | .lessOrEqual, .eq => true
  | _, _ => false

/-- Factors are ordered by variable and then by power; polynomials have no order. -/
def compare (operator : Operator) (left right : View) : Except Fault Bool :=
  match left, right with
  | .factor first, .factor second =>
      .ok (isOrdered operator
        ((Ord.compare first.var second.var).then (Ord.compare first.power second.power)))
  | .number first, .number second =>
      if first.isReal && second.isReal then
        .ok ((first.compare? second).elim false (isOrdered operator))
      else .error (.unordered operator left.kind right.kind)
  | _, _ => .error (.unordered operator left.kind right.kind)

/-- The sign of an angle map is only to be changed, not to be confirmed. -/
def negate : View → Except Fault Product
  | .number value => .ok (.number value.neg)
  | .polynomial content => .ok (.polynomial content.neg)
  | .trig content => .ok (.trig content.neg)
  | .monomial value => .ok (.monomial value.neg)
  | other => .error (.unsupportedSign "-" other.kind)

def confirm : View → Except Fault Product
  | .number value => .ok (.number value)
  | .polynomial content => .ok (.polynomial content)
  | other => .error (.unsupportedSign "+" other.kind)

end TrigAlgebra.Session
