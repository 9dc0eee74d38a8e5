/-
This file defines polynomials some of whose variables stand for sines and cosines of others, and
their arithmetic.
-/

import TrigAlgebra.Polynomial.Arithmetic
import TrigAlgebra.TrigPolynomial.Angles

namespace TrigAlgebra

structure TrigPolynomial (K : Type) where
  polynomial : Polynomial K
  angles : AngleMap

namespace TrigPolynomial

variable {K : Type}

/-- The change of the polynomial is one of the whole; the angles stay. -/
def onPolynomial (trig : TrigPolynomial K) (edit : Edit (Polynomial K)) :
    Edit (TrigPolynomial K) :=
  edit.map fun polynomial => { trig with polynomial := polynomial }

/-- The angles of the other operand are taken over once the polynomial has been changed. -/
def joined (edit : Edit (TrigPolynomial K)) (angles : AngleMap) : Edit (TrigPolynomial K) :=
  edit.followedBy fun trig => { trig with angles := trig.angles.update angles }

def constant (value : K) (angles : AngleMap) : TrigPolynomial K :=
  ⟨.constant value, angles⟩

variable [Coefficient K]

def addTo (trig other : TrigPolynomial K) : Edit (TrigPolynomial K) :=
  joined (trig.onPolynomial (trig.polynomial.addTo other.polynomial)) other.angles

def subtractFrom (trig other : TrigPolynomial K) : Edit (TrigPolynomial K) :=
  joined (trig.onPolynomial (trig.polynomial.subtractFrom other.polynomial)) other.angles

def multiplyBy (trig other : TrigPolynomial K) : Edit (TrigPolynomial K) :=
  joined (trig.onPolynomial (trig.polynomial.multiplyBy other.polynomial)) other.angles

def add (first second : TrigPolynomial K) : Except Fault (TrigPolynomial K) :=
  (first.addTo second).result

def sub (first second : TrigPolynomial K) : Except Fault (TrigPolynomial K) :=
  (first.subtractFrom second).result

def mul (first second : TrigPolynomial K) : Except Fault (TrigPolynomial K) :=
  (first.multiplyBy second).result

def neg (trig : TrigPolynomial K) : TrigPolynomial K :=
  { trig with polynomial := trig.polynomial.neg }

def same (first second : TrigPolynomial K) : Bool :=
  first.polynomial.same second.polynomial && first.angles.same second.angles

/-- The variable of a polynomial that is one linear variable; the label names it in the fault. -/
def requireSimple (label : String) (polynomial : Polynomial K) : Except Fault Int :=
  if polynomial.degree != 1 || polynomial.simpleVariable == noVariable then do
    .error (.notSimple label (← polynomial.text))
  else .ok polynomial.simpleVariable

/-- An angle together with the variables of its sine and cosine. -/
def ofAngle (angle sine cosine : Polynomial K) : Except Fault (TrigPolynomial K) := do
  let angleVar ← requireSimple "q" angle
  let sineVar ← requireSimple "s" sine
  let cosineVar ← requireSimple "c" cosine
  return ⟨angle, AngleMap.empty.set angleVar ⟨sineVar, cosineVar⟩⟩

end TrigPolynomial

end TrigAlgebra
