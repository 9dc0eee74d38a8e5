/-
This file computes the results of those steps that change nothing.
-/

import TrigAlgebra.DenseVector.Comparison
import TrigAlgebra.DenseVector.Evaluation
import TrigAlgebra.Digest
import TrigAlgebra.Polynomial.Calculus
import TrigAlgebra.Session.Operators
import TrigAlgebra.Session.Step
import TrigAlgebra.TrigPolynomial.Evaluation
import TrigAlgebra.TrigPolynomial.Expansion

namespace TrigAlgebra

/-- The objects that references lead to, and the values kept in registers. -/
structure Session where
  objects : List Session.Content := []
  registers : List (String × Session.Value) := []

namespace Session

def read (session : Session) : Source → Except Fault Value
  | .literal value => .ok value
  | .register name =>
      match session.registers.lookup name with
      | some value => .ok value
      | none => .error (.noRegister name)

/-- A reference that leads nowhere does not arise. -/
def follow (session : Session) : Value → View
  | .nothing => .other .nothing
  | .truth _ => .other .truth
  | .number value => .number value
  | .text _ => .other .text
  | .factor value => .factor value
  | .monomial value => .monomial value
  | .object reference => session.objects[reference]?.elim (.other .nothing) Content.view
  | .count value => .number (.integer value)
  | .vars _ => .other .sequence
  | .monomials _ => .other .sequence
  | .angles _ => .other .mapping
  | .vector _ => .other .array
  | .roots _ => .other .array
  | .summary _ => .other .mapping
  | .expression _ => .other .nothing

def look (session : Session) (source : Source) : Except Fault View :=
  (session.read source).map session.follow

namespace View

def missing (view : View) (name : String) : Fault := .missingAttribute view.kind name

def asPolynomial (name : String) : View → Except Fault Numeric
  | .polynomial content => .ok content
  | view => .error (view.missing name)

def asMonomial (name : String) : View → Except Fault (Monomial Number)
  | .monomial value => .ok value
  | view => .error (view.missing name)

/-- Only numbers are coefficients. -/
def asNumber (operator : Operator) (left : Kind) : View → Except Fault Number
  | .number value => .ok value
  | view => .error (.unsupportedOperands operator false left view.kind)

def text : View → Except Fault String
  | .number value => value.text
  | .polynomial content => content.text
  | .trig content => content.polynomial.text
  | .monomial value => value.text
  | .factor value => value.text
  | view => view.quoted

/-- Values that can change have no digest. -/
def digest : View → Except Fault Int
  | .number value => .ok value.digest
  | .monomial value => .ok value.digest
  | .factor value => .ok value.digest
  | view => .error (.unhashable view.kind)

def copied : View → Value → Product
  | .polynomial content, _ => .polynomial content
  | .trig content, _ => .trig content
  | _, value => .value value

/-- Numbers, monomials and factors cannot change and have no copying method. -/
def hasCopyMethod : View → Bool
  | .polynomial _ => true
  | .trig _ => true
  | .other .sequence => true
  | .other .mapping => true
  | .other .array => true
  | _ => false

def circular (function : Circular) (asking : Asking) (view : View) : Traced Product :=
  match view, asking with
  | .trig content, _ => do return .trig (← content.expand function)
  | .number value, .coefficient => .ofResult ((value.circular function).map .number)
  | view, .coefficient => .ofResult (.error (.noCircularMethod function view.kind))
  | view, .method => .ofResult (.error (view.missing function.name))
  | view, .function => .ofResult (.error (view.missing "_poly"))

def property (property : Property) (view : View) : Except Fault Product :=
  match property, view with
  | .polynomial, .trig content => .ok (.polynomial content.polynomial)
  | .polynomial, view => .error (view.missing "polynomial")
  | .angles, .trig content => .ok (.value (.angles content.angles))
  | .angles, view => .error (view.missing "sin_cos_map")
  | .monomials, .polynomial content => .ok (.value (.monomials content.monomials))
  | .monomials, view => .error (view.missing "monomials")
  | .constancy, .monomial value => .ok (.truth value.isConstant)
  | .constancy, view => .error (view.missing "is_constant")
  | .degree, .polynomial content => .ok (.value (.count content.degree))
  | .degree, .monomial value => .ok (.value (.count value.degree))
  | .degree, view => .error (view.missing "degree")
  | .vars, .polynomial content => .ok (.value (.vars content.vars))
  | .vars, .monomial value => .ok (.value (.vars value.powers.vars))
  | .vars, view => .error (view.missing "variables")

def summary : View → Except Fault Summary
  | .polynomial content =>
      .ok ⟨content.degree, content.univariate, content.monomials.length, content.vars,
        content.simpleVariable⟩
  | .monomial value => .error ((View.monomial value).missing "is_univariate")
  | view => .error (view.missing "degree")

/-- A polynomial is copied and a number becomes a constant. -/
def toPolynomial : View → Except Fault Numeric
  | .number value => .ok (.constant value)
  | .polynomial content => .ok content
  | .trig _ => .error (.wrappedPolynomial .trigPolynomial)
  | .other .nothing => .ok .zero
  | view => .error (.wrappedPolynomial view.kind)

/-- A linear variable, asked for its degree and then for the variable itself. -/
def simple (label : String) : View → Except Fault Int
  | .polynomial content => TrigPolynomial.requireSimple label content
  | .monomial value => do
      if value.degree = 1 then .error ((View.monomial value).missing "get_simple_variable")
      else .error (.notSimple label (← value.text))
  | view => .error (view.missing "degree")

def evaluateMany (values : Assignment Number) (content : Numeric) : Except Fault Product :=
  (content.evaluate values).map .number

/-- A polynomial has no value at anything but a number. -/
def evaluateOne (point : View) (content : Numeric) : Except Fault Product := do
  let number ← point.asNumber .multiply .real
  return .number (← content.evaluateAt number)

end View

/-- The argument of an evaluation, with its source read. -/
inductive Given where
  | point (view : View)
  | values (values : Assignment Number)

def give (session : Session) : Argument → Except Fault Given
  | .point source => (session.look source).map .point
  | .values pairs => .ok (.values (.ofList pairs))

def evaluate (way : Way) (view : View) (given : Given) : Except Fault Product :=
  match way, view, given with
  | .evaluate, .monomial value, .values values => (value.evaluate values).map .number
  | .evaluate, .trig content, .values values => (content.evaluate values).map .number
  | .evaluate, view, _ => .error (view.missing "evaluate")
  | _, .polynomial content, .values values => View.evaluateMany values content
  | _, .polynomial content, .point point => View.evaluateOne point content
  | .call, view, _ => .error (.notCallable view.kind)
  | .value, view, _ => .error (view.missing "value")
  | .univariate, view, _ => .error (view.missing "evaluate_univariate")
  | .multivariate, view, _ => .error (view.missing "evaluate_multivariate")

def readMonomial (session : Session) : MonomialSource → Except Fault (Monomial Number)
  | .register name => do (← session.look (.register name)).asMonomial "terms"
  | .written coefficient powers => do
      let number ← (← session.look coefficient).asNumber .multiply .real
      Monomial.create number powers

def approx (first second : View) (tolerance : Number) : Except Fault Product := do
  let left ← (← first.asPolynomial "is_approx").coefficients
  let right ← (← second.asPolynomial "get_coefficients").coefficients
  return .truth (← left.isApprox right tolerance)

def divideMonomial (monomial : Monomial Number) (divisor : View) : Except Fault Product := do
  let divisor ← divisor.asMonomial (if monomial.isConstant then "terms" else "degree_of")
  return match ← monomial.divide? divisor with
    | some quotient => .monomial quotient
    | none => .value .nothing

def readOptional (session : Session) (default : Number) (operator : Operator) (kind : Kind) :
    Option Source → Except Fault Number
  | none => .ok default
  | some source => do (← session.look source).asNumber operator kind

def readBase (session : Session) : Base → Except Fault Numeric
  | .nothing => .ok .zero
  | .named name => Polynomial.named name 1
  | .source source => do (← session.look source).toPolynomial

def ofAngle (angle sine cosine : View) : Except Fault Trigonometric := do
  let angleVar ← angle.simple "q"
  let sineVar ← sine.simple "s"
  let cosineVar ← cosine.simple "c"
  let polynomial ← angle.asPolynomial "degree"
  return ⟨polynomial, AngleMap.empty.set angleVar ⟨sineVar, cosineVar⟩⟩

/-- The steps that change no object and note nothing; the others have no result here. -/
def calculate (session : Session) : Action → Except Fault Product
  | .update _ _ _ => .ok (.value .nothing)
  | .rename _ _ _ => .ok (.value .nothing)
  | .circular _ _ _ => .ok (.value .nothing)
  | .roots _ _ => .ok (.value .nothing)
  | .operate operator left right => do
      let left ← session.look left
      operate operator false left (← session.look right)
  | .equal negated left right => do
      let left ← session.look left
      return .truth (same left (← session.look right) != negated)
  | .order operator left right => do
      let left ← session.look left
      return .truth (← compare operator left (← session.look right))
  | .negate source => do Session.negate (← session.look source)
  | .confirm source => do Session.confirm (← session.look source)
  | .copy byMethod source => do
      let value ← session.read source
      let view := session.follow value
      if byMethod && !view.hasCopyMethod then .error (view.missing "copy")
      else return view.copied value
  | .text source => do return .text (← (← session.look source).text)
  | .quote source => do return .text (← (← session.look source).quoted)
  | .digest source => do return .number (.integer (← (← session.look source).digest))
  | .view source => do return .value (← session.read source)
  | .property property source => do (← session.look source).property property
  | .degreeOf source var => do
      let monomial ← (← session.look source).asMonomial "degree_of"
      return .value (.count (monomial.degreeOf var))
  | .coefficients source => do
      let polynomial ← (← session.look source).asPolynomial "get_coefficients"
      return .value (.vector (← polynomial.coefficients))
  | .summary source => do return .value (.summary (← (← session.look source).summary))
  | .zero => .ok (.polynomial .zero)
  | .constant source => do return .polynomial (← (← session.look source).toPolynomial)
  | .named name index => (Polynomial.named name index).map .polynomial
  | .ofPowers coefficient powers => do
      let number ← (← session.look coefficient).asNumber .multiply .real
      return .polynomial (← Polynomial.ofPowers number powers)
  | .ofVariable var coefficient => do
      let number ← session.readOptional Coefficient.one .multiply .real coefficient
      return .polynomial (← Polynomial.ofVariable var number)
  | .ofMonomials monomials => do
      return .polynomial (← Polynomial.ofMonomials (← monomials.mapM session.readMonomial))
  | .factor var power => (Factor.make var power).map fun factor => .value (.factor factor)
  | .monomial coefficient powers => do
      let number ← (← session.look coefficient).asNumber .multiply .real
      return .monomial (← Monomial.create number powers)
  | .trig base angles => do return .trig ⟨← session.readBase base, .ofList angles⟩
  | .angle angle sine cosine => do
      let angle ← session.look angle
      let sine ← session.look sine
      return .trig (← ofAngle angle sine (← session.look cosine))
  | .substitute source values => do
      let polynomial ← (← session.look source).asPolynomial "evaluate_partial"
      return .polynomial (← polynomial.evaluatePartial (.ofList values))
  | .evaluate way source argument => do
      let view ← session.look source
      Session.evaluate way view (← session.give argument)
  | .derivative source order => do
      let polynomial ← (← session.look source).asPolynomial "derivative"
      return .polynomial (← polynomial.derivative order)
  | .integral source constant => do
      let view ← session.look source
      let number ← session.readOptional Coefficient.zero .multiply .real constant
      return .polynomial (← (← view.asPolynomial "integral").integral number)
  | .approx first second tolerance => do
      let first ← session.look first
      let second ← session.look second
      approx first second
        (← session.readOptional DenseVector.defaultTolerance .lessOrEqual .real tolerance)
  | .divide source divisor => do
      let view ← session.look source
      let divisor ← session.look divisor
      divideMonomial (← view.asMonomial "factor") divisor
  | .sameExponents first second => do
      let first ← session.look first
      let second ← session.look second
      let left ← first.asMonomial "has_same_exponents"
      return .truth (left.sameExponents (← second.asMonomial "terms"))
  | .scaled source factor => do
      let view ← session.look source
      let factor ← session.look factor
      let monomial ← view.asMonomial "scaled"
      return .monomial (← monomial.scaled (← factor.asNumber .multiply monomial.coefficient.kind))
  | .withCoefficient source coefficient => do
      let view ← session.look source
      let coefficient ← session.look coefficient
      let monomial ← view.asMonomial "with_coefficient"
      return .monomial
        (monomial.withCoefficient (← coefficient.asNumber .multiply .monomial))
  | .expression source => do
      let polynomial ← (← session.look source).asPolynomial "monomials"
      return .value (.expression (← polynomial.toExpression).expand)
  | .roundTrip source => do
      let polynomial ← (← session.look source).asPolynomial "monomials"
      return .polynomial (← (← polynomial.toExpression).toPolynomial)

def rootsOf (precise : Bool) : View → Traced Product
  | .polynomial content => do return .value (.roots (← content.roots precise))
  | view => .ofResult (.error (view.missing "roots"))

def lookThen (session : Session) (source : Source) (next : View → Traced Product) : Traced Product :=
  match session.look source with
  | .ok view => next view
  | .error fault => .ofResult (.error fault)

/-- The steps that leave every object as it is, with their notes. -/
def compute (session : Session) : Action → Traced Product
  | .circular function asking source => session.lookThen source (View.circular function asking)
  | .roots source precise => session.lookThen source (rootsOf precise)
  | action => .ofResult (session.calculate action)

end Session

end TrigAlgebra
