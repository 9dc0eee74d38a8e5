/-
This file takes binary floating-point numbers of 64 bits apart and rounds quotients to them.
-/

import TrigAlgebra.Decimal.Rounding

namespace TrigAlgebra.Binary64

/-- What the bits of a number say. -/
inductive Decoded where
  | finite (negative : Bool) (mantissa : Nat) (exponent : Int)
  | infinite (negative : Bool)
  | undefined

/-- The weight of the bit that holds the sign. -/
def signWeight : Nat := 0x8000000000000000

/-- The weight of the binary digit before the stored fraction. -/
def leadingWeight : Nat := 0x10000000000000

/-- The stored exponent of the numbers that are not finite. -/
def topExponent : Nat := 0x7ff

def isNegative (value : Float) : Bool :=
  value.toBits.toNat / signWeight == 1

def decode (value : Float) : Decoded :=
  let bits := value.toBits.toNat
  let negative := bits / signWeight == 1
  let biased : Nat := bits / leadingWeight % (topExponent + 1)
  let fraction : Nat := bits % leadingWeight
  if biased == topExponent then
    if fraction == 0 then .infinite negative else .undefined
  else if biased == 0 then .finite negative fraction (-1074)
  else .finite negative (fraction + leadingWeight) ((biased : Int) - 1075)

/-- The number of binary digits, none for zero. -/
def bitLength (value : Nat) : Nat :=
  if value == 0 then 0 else value.log2 + 1

/-- The greatest exponent at which a quotient keeps 53 binary digits, but never below that of the
least positive number. -/
def unitExponent (numerator denominator : Nat) : Int :=
  let guess : Int := (bitLength numerator : Int) - bitLength denominator - 53
  let (upper, lower) := Decimal.scale 2 numerator denominator guess
  if numerator == 0 then -1074
  else max (if lower <<< 53 ≤ upper then guess + 1 else guess) (-1074)

/-- The number for a quotient whose last place is decided by a rule of integer division; it is
infinite when the quotient is too large. -/
def ofRatioBy (divide : Nat → Nat → Nat) (negative : Bool) (numerator denominator : Nat) : Float :=
  let exponent := unitExponent numerator denominator
  let (upper, lower) := Decimal.scale 2 numerator denominator exponent
  let bits := (exponent + 1074).toNat * leadingWeight + divide upper lower
  let magnitude := min bits (topExponent * leadingWeight)
  Float.ofBits (UInt64.ofNat (magnitude + (if negative then signWeight else 0)))

/-- The nearest number to a quotient. -/
def ofRatio (negative : Bool) (numerator denominator : Nat) : Float :=
  ofRatioBy Decimal.divideNearest negative numerator denominator

def ofInt (value : Int) : Float :=
  ofRatio (value < 0) value.natAbs 1

/-- The number next to an integer on the side of zero. -/
def towardZero (value : Int) : Float :=
  ofRatioBy (· / ·) (value < 0) value.natAbs 1

def infinity (negative : Bool) : Float :=
  Float.ofBits (if negative then 0xfff0000000000000 else 0x7ff0000000000000)

def undefined : Float :=
  Float.ofBits 0x7ff8000000000000

/-- The magnitude of the first number with the sign of the second. -/
def withSign (magnitude sign : Float) : Float :=
  if isNegative magnitude == isNegative sign then magnitude else -magnitude

/-- The value of a finite number as a quotient with a positive denominator. -/
def ratio (mantissa : Nat) (exponent : Int) : Nat × Nat :=
  Decimal.scale 2 mantissa 1 (-exponent)

/-- The integer equal to a number, if there is one. -/
def integer? (value : Float) : Option Int :=
  match decode value with
  | .finite negative mantissa exponent =>
      let (upper, lower) := ratio mantissa exponent
      if upper % lower == 0 then
        some (if negative then -((upper / lower : Nat) : Int) else (upper / lower : Nat))
      else none
  | _ => none

def compareInt (value : Float) (integer : Int) : Option Ordering :=
  match decode value with
  | .finite negative mantissa exponent =>
      let (upper, lower) := ratio mantissa exponent
      some (compare (if negative then -(upper : Int) else (upper : Int)) (integer * lower))
  | .infinite negative => some (if negative then .lt else .gt)
  | .undefined => none

end TrigAlgebra.Binary64
