/-
This file evaluates trigonometric polynomials, the values of sines and cosines following from
those of their angles.
-/

import TrigAlgebra.Polynomial.Substitution
import TrigAlgebra.TrigPolynomial.Basic

namespace TrigAlgebra

variable {K : Type}

/-- A value that is already there stays. -/
def Assignment.setDefault (values : Assignment K) (var : Int) (value : K) : Assignment K :=
  match values var with
  | some _ => values
  | none => values.set var value

variable [Coefficient K]

/-- Sine and cosine of an angle with a value are computed whether or not they are needed. -/
def Assignment.deriveEntry (values : Assignment K) (entry : Int × Placeholders) :
    Except Fault (Assignment K) :=
  match values entry.1 with
  | none => .ok values
  | some angle => do
      let sine ← Coefficient.circular .sine angle
      let values := values.setDefault entry.2.sine sine
      let cosine ← Coefficient.circular .cosine angle
      return values.setDefault entry.2.cosine cosine

/-- The entries are taken in their order, so a derived value can serve a later angle. -/
def Assignment.derive (values : Assignment K) (angles : AngleMap) :
    Except Fault (Assignment K) :=
  angles.entries.foldlM deriveEntry values

def TrigPolynomial.evaluate (trig : TrigPolynomial K) (values : Assignment K) :
    Except Fault K := do
  trig.polynomial.evaluate (← values.derive trig.angles)

end TrigAlgebra
