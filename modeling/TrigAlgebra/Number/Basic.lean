/-
This file defines the numbers that can stand as coefficients, and when two of them are equal.
-/

import TrigAlgebra.BigFloat.Complex

namespace TrigAlgebra

/-- Integers are exact, `real` and `complex` are rounded to 53 binary digits with a bounded
exponent, and the big kinds are rounded to 53 binary digits with an unbounded one. -/
inductive Number where
  | integer (value : Int)
  | real (value : Float)
  | complex (re im : Float)
  | bigReal (value : BigFloat)
  | bigComplex (value : BigComplex)
deriving Inhabited

namespace Number

/-- The binary digits kept by the big kinds. -/
def bigPrecision : Nat := 53

def kind : Number → Kind
  | .integer _ => .integer
  | .real _ => .real
  | .complex _ _ => .complex
  | .bigReal _ => .bigReal
  | .bigComplex _ => .bigComplex

/-- An integer of 1024 binary digits or more has no rounded value. -/
def floatOfInt (value : Int) : Except Fault Float :=
  let rounded := Binary64.ofInt value
  if rounded.isFinite then .ok rounded else .error .integerTooLarge

/-- A complex number is not a real one, whatever its imaginary part. -/
def toFloat : Number → Except Fault Float
  | .integer value => floatOfInt value
  | .real value => .ok value
  | .bigReal value => .ok value.toFloat
  | .complex _ _ => .error (.notReal .complex)
  | .bigComplex _ => .error (.notReal .bigComplex)

def toComplex : Number → Except Fault (Float × Float)
  | .integer value => (floatOfInt value).map fun real => (real, 0.0)
  | .real value => .ok (value, 0.0)
  | .complex re im => .ok (re, im)
  | .bigReal value => .ok (value.toFloat, 0.0)
  | .bigComplex value => .ok (value.re.toFloat, value.im.toFloat)

def toBigComplex : Number → BigComplex
  | .integer value => .ofReal (.ofInt value)
  | .real value => .ofReal (.ofFloat value)
  | .complex re im => .ofFloats re im
  | .bigReal value => .ofReal value
  | .bigComplex value => value

def isReal : Number → Bool
  | .complex _ _ => false
  | .bigComplex _ => false
  | _ => true

def isBig : Number → Bool
  | .bigReal _ => true
  | .bigComplex _ => true
  | _ => false

/-- The order of two real numbers by their exact values, unless one is undefined. -/
def compare? (first second : Number) : Option Ordering :=
  match first, second with
  | .integer first, .integer second => some (compare first second)
  | _, _ => BigFloat.compare? first.toBigComplex.re second.toBigComplex.re

/-- Numbers of different kinds are compared by their exact values. -/
def same (first second : Number) : Bool :=
  match first, second with
  | .integer first, .integer second => first == second
  | .real first, .real second => first == second
  | first, second =>
      let first := first.toBigComplex
      let second := second.toBigComplex
      first.re.same second.re && first.im.same second.im

def isZero (value : Number) : Bool :=
  same value (.integer 0)

/-- A complex number counts as finite in neither case: only a real one is asked for. -/
def isFiniteReal : Number → Except Fault Bool
  | .integer value => (floatOfInt value).map fun _ => true
  | .real value => .ok value.isFinite
  | .bigReal value => .ok value.isFinite
  | .complex _ _ => .ok false
  | .bigComplex _ => .ok false

/-- The integer equal to a finite real number, if there is one. -/
def integer? : Number → Except Fault (Option Int)
  | .integer value => (floatOfInt value).map fun _ => some value
  | .real value => .ok (Binary64.integer? value)
  | .bigReal value => .ok value.integer?
  | .complex _ _ => .ok none
  | .bigComplex _ => .ok none

end Number

end TrigAlgebra
