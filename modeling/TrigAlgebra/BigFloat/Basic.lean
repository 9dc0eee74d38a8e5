/-
This file defines binary floating-point numbers of any precision, with an exponent that never
overflows.
-/

import TrigAlgebra.Binary64

namespace TrigAlgebra

open Binary64 Decimal

/-- A finite number is `mantissa * 2 ^ exponent`; one number has many such forms. -/
inductive BigFloat where
  | finite (mantissa exponent : Int)
  | infinite (negative : Bool)
  | undefined
deriving Repr, Inhabited

namespace BigFloat

def zero : BigFloat := .finite 0 0

def ofInt (value : Int) : BigFloat := .finite value 0

def signedNat (negative : Bool) (value : Nat) : Int :=
  if negative then -(value : Int) else value

def ofFloat (value : Float) : BigFloat :=
  match decode value with
  | .finite negative mantissa exponent => .finite (signedNat negative mantissa) exponent
  | .infinite negative => .infinite negative
  | .undefined => .undefined

/-- The nearest number with at most `precision` binary digits; a half goes to the even one. -/
def round (precision : Nat) : BigFloat → BigFloat
  | .finite mantissa exponent =>
      let excess := bitLength mantissa.natAbs - precision
      if excess == 0 then .finite mantissa exponent
      else
        .finite (signedNat (mantissa < 0) (divideNearest mantissa.natAbs (1 <<< excess)))
          (exponent + excess)
  | other => other

/-- The number with at most `precision` binary digits that lies next toward zero. -/
def truncate (precision : Nat) : BigFloat → BigFloat
  | .finite mantissa exponent =>
      let excess := bitLength mantissa.natAbs - precision
      .finite (signedNat (mantissa < 0) (mantissa.natAbs >>> excess)) (exponent + excess)
  | other => other

/-- The position of the binary digit above the leading one, for a finite nonzero number. -/
def magnitude : BigFloat → Int
  | .finite mantissa exponent => bitLength mantissa.natAbs + exponent
  | _ => 0

/-- Magnitudes far outside the range are decided without computing the quotient. -/
def toFloat : BigFloat → Float
  | .finite mantissa exponent =>
      let negative := mantissa < 0
      let size : Int := bitLength mantissa.natAbs + exponent
      if mantissa == 0 then 0.0
      else if 1100 < size then infinity negative
      else if size < -1200 then if negative then -0.0 else 0.0
      else
        let (numerator, denominator) := ratio mantissa.natAbs exponent
        ofRatio negative numerator denominator
  | .infinite negative => infinity negative
  | .undefined => Binary64.undefined

def isZero : BigFloat → Bool
  | .finite mantissa _ => mantissa == 0
  | _ => false

def isFinite : BigFloat → Bool
  | .finite _ _ => true
  | _ => false

def isNegative : BigFloat → Bool
  | .finite mantissa _ => mantissa < 0
  | .infinite negative => negative
  | .undefined => false

def neg : BigFloat → BigFloat
  | .finite mantissa exponent => .finite (-mantissa) exponent
  | .infinite negative => .infinite !negative
  | .undefined => .undefined

def abs (value : BigFloat) : BigFloat :=
  if value.isNegative then value.neg else value

/-- The two mantissas over the smaller of the two exponents. -/
def align (mantissa exponent mantissa' exponent' : Int) : Int × Int × Int :=
  if exponent ≤ exponent' then
    (mantissa, mantissa' * (1 <<< (exponent' - exponent).toNat : Nat), exponent)
  else (mantissa * (1 <<< (exponent - exponent').toNat : Nat), mantissa', exponent')

/-- The two mantissas over a common exponent, for numbers other than zero. Where one number lies
below all the digits that are kept of the other, a single unit behind those digits stands for it. -/
def alignWithin (precision : Nat) (mantissa exponent mantissa' exponent' : Int) : Int × Int × Int :=
  let guard := precision + 4
  if bitLength mantissa'.natAbs + exponent' ≤ exponent - guard then
    (mantissa * (1 <<< guard : Nat), mantissa'.sign, exponent - guard)
  else if bitLength mantissa.natAbs + exponent ≤ exponent' - guard then
    (mantissa.sign, mantissa' * (1 <<< guard : Nat), exponent' - guard)
  else align mantissa exponent mantissa' exponent'

/-- A sum that has the sign of the exact one and rounds, to at most `precision` binary digits, as
the exact one does. -/
def addWithin (precision : Nat) : BigFloat → BigFloat → BigFloat
  | .finite mantissa exponent, .finite mantissa' exponent' =>
      if mantissa == 0 then .finite mantissa' exponent'
      else if mantissa' == 0 then .finite mantissa exponent
      else
        let (first, second, common) := alignWithin precision mantissa exponent mantissa' exponent'
        .finite (first + second) common
  | .infinite negative, .infinite negative' =>
      if negative == negative' then .infinite negative else .undefined
  | .undefined, _ => .undefined
  | _, .undefined => .undefined
  | .infinite negative, _ => .infinite negative
  | _, .infinite negative => .infinite negative

def mulExact : BigFloat → BigFloat → BigFloat
  | .finite mantissa exponent, .finite mantissa' exponent' =>
      .finite (mantissa * mantissa') (exponent + exponent')
  | .undefined, _ => .undefined
  | _, .undefined => .undefined
  | first, second =>
      if first.isZero || second.isZero then .undefined
      else .infinite (first.isNegative != second.isNegative)

def add (precision : Nat) (first second : BigFloat) : BigFloat :=
  (addWithin precision first second).round precision

def sub (precision : Nat) (first second : BigFloat) : BigFloat :=
  add precision first second.neg

def mul (precision : Nat) (first second : BigFloat) : BigFloat :=
  (mulExact first second).round precision

/-- A last odd digit stands for a remainder that was dropped, so that rounding sees it. -/
def sticky (quotient : Nat) (exact : Bool) : Nat :=
  2 * quotient + (if exact then 0 else 1)

/-- The quotient of a finite number by zero is left undefined. -/
def div (precision : Nat) : BigFloat → BigFloat → BigFloat
  | .finite mantissa exponent, .finite mantissa' exponent' =>
      if mantissa' == 0 then .undefined
      else
        let shift := precision + 2 + bitLength mantissa'.natAbs - bitLength mantissa.natAbs
        let numerator := mantissa.natAbs <<< shift
        let quotient := numerator / mantissa'.natAbs
        let exact := numerator % mantissa'.natAbs == 0
        (finite (signedNat ((mantissa < 0) != (mantissa' < 0)) (sticky quotient exact))
          (exponent - exponent' - shift - 1)).round precision
  | .finite _ _, .infinite _ => zero
  | .infinite negative, .finite mantissa _ => .infinite (negative != decide (mantissa < 0))
  | _, _ => .undefined

/-- The mean of a guess and its quotient replaces the guess as long as it is smaller. -/
def sqrtDown (value : Nat) : (fuel : Nat) → (guess : Nat) → Nat
  | 0, guess => guess
  | fuel + 1, guess =>
      let next := (guess + value / guess) / 2
      if next < guess then sqrtDown value fuel next else guess

/-- The greatest natural number whose square is at most `value`. -/
def floorSqrt (value : Nat) : Nat :=
  if value == 0 then 0
  else sqrtDown value (bitLength value + 2) (1 <<< (bitLength value / 2 + 1))

/-- The root of a negative number is left undefined. -/
def sqrt (precision : Nat) : BigFloat → BigFloat
  | .finite mantissa exponent =>
      if mantissa < 0 then .undefined
      else
        let wanted := 2 * precision + 6 - bitLength mantissa.natAbs
        let shift := if (exponent - wanted) % 2 == 0 then wanted else wanted + 1
        let scaled := mantissa.natAbs <<< shift
        let root := floorSqrt scaled
        (finite (sticky root (root * root == scaled)) ((exponent - shift) / 2 - 1)).round precision
  | .infinite false => .infinite false
  | _ => .undefined

def compare? : BigFloat → BigFloat → Option Ordering
  | .finite mantissa exponent, .finite mantissa' exponent' =>
      match addWithin 1 (.finite mantissa exponent) (.finite (-mantissa') exponent') with
      | .finite difference _ => some (compare difference 0)
      | _ => none
  | .infinite negative, .infinite negative' => some (compare negative' negative)
  | .undefined, _ => none
  | _, .undefined => none
  | .infinite negative, _ => some (if negative then .lt else .gt)
  | _, .infinite negative => some (if negative then .gt else .lt)

def same (first second : BigFloat) : Bool :=
  compare? first second == some .eq

def less (first second : BigFloat) : Bool :=
  compare? first second == some .lt

/-- A power of two times a number. -/
def shift (amount : Int) : BigFloat → BigFloat
  | .finite mantissa exponent => .finite mantissa (exponent + amount)
  | other => other

/-- The integer equal to a number, if there is one. -/
def integer? : BigFloat → Option Int
  | .finite mantissa exponent =>
      if 0 ≤ exponent then some (mantissa * (1 <<< exponent.toNat : Nat))
      else
        let unit : Int := (1 <<< (-exponent).toNat : Nat)
        if mantissa % unit == 0 then some (mantissa / unit) else none
  | _ => none

/-- Squares are multiplied together, each product rounded. -/
def pow (precision : Nat) (base : BigFloat) (exponent : Nat) : BigFloat :=
  if exponent = 0 then .finite 1 0
  else
    let half := pow precision base (exponent / 2)
    let square := mul precision half half
    if exponent % 2 = 1 then mul precision square base else square

end BigFloat

end TrigAlgebra
