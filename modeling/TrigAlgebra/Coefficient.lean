/-
This file states the arithmetic that a polynomial asks of its coefficients.
-/

import TrigAlgebra.Fault

namespace TrigAlgebra

/-- Every operation that rounds may fail; a negation never does. -/
class Coefficient (K : Type) where
  /-- Sums start from this zero. -/
  zero : K
  /-- A variable without a written coefficient has this one. -/
  one : K
  ofInt : Int → K
  add : K → K → Except Fault K
  mul : K → K → Except Fault K
  div : K → K → Except Fault K
  pow : K → Nat → Except Fault K
  neg : K → K
  circular : Circular → K → Except Fault K
  /-- Two coefficients are compared by their values, not by their forms. -/
  same : K → K → Bool
  /-- The integer equal to a finite real coefficient, if there is one. -/
  integer? : K → Except Fault (Option Int)
  text : K → Except Fault String

namespace Coefficient

variable {K : Type} [Coefficient K]

def isZero (value : K) : Bool := same value (ofInt 0)

def isOne (value : K) : Bool := same value (ofInt 1)

end Coefficient

end TrigAlgebra
