/-
This file computes sines, cosines and exponentials to any precision.
-/

import TrigAlgebra.BigFloat.Complex

namespace TrigAlgebra.BigFloat

open Binary64

/-- The number one in units of `2 ^ -bits`. -/
def oneUnits (bits : Nat) : Int := (1 <<< bits : Nat)

/-- The series of the inverse tangent of `1 / base`, in units of `2 ^ -bits`. -/
def arctangentSeries (base : Nat) : (fuel : Nat) → (power : Int) → (odd : Int) → Int
  | 0, _, _ => 0
  | fuel + 1, power, odd =>
      if power == 0 then 0
      else power / odd - arctangentSeries base fuel (power / (base * base)) (odd + 2)

def arctangent (bits base : Nat) : Int :=
  arctangentSeries base (bits + 1) (oneUnits bits / base) 1

/-- The ratio of a circle's circumference to its diameter in units of `2 ^ -bits`, from the inverse
tangents of `1 / 5` and `1 / 239`. -/
def circleRatio (bits : Nat) : Int :=
  let guard := 20
  (4 * (4 * arctangent (bits + guard) 5 - arctangent (bits + guard) 239)) / oneUnits guard

/-- The terms of the series of sine or cosine from a given one on; each is the one before times
`-square / (index * (index + 1))`. -/
def circularSeries (bits : Nat) (square : Int) : (fuel : Nat) → (term : Int) → (index : Int) → Int
  | 0, _, _ => 0
  | fuel + 1, term, index =>
      if term == 0 then 0
      else
        term + circularSeries bits square fuel
          (-(term * square / oneUnits bits) / (index * (index + 1))) (index + 2)

/-- Sine and cosine of `angle * 2 ^ -bits` in the same units, for an angle of at most one. -/
def circularUnits (bits : Nat) (angle : Int) : Int × Int :=
  let square := angle * angle / oneUnits bits
  (circularSeries bits square (bits + 1) angle 2,
    circularSeries bits square (bits + 1) (oneUnits bits) 1)

/-- Sine and cosine: the angle is brought within an eighth of a turn of zero by whole quarters. -/
def sineCosine (precision : Nat) (value : BigFloat) : BigFloat × BigFloat :=
  match value with
  | .finite mantissa exponent =>
      if mantissa == 0 then (zero, ofInt 1)
      else
        let size := value.magnitude
        if size < -2 * (precision : Int) - 20 then (value.round precision, ofInt 1)
        else
          let bits := precision + 30 + 2 * size.natAbs
          let (numerator, denominator) := Decimal.scale 2 mantissa.natAbs 1 (-exponent - bits)
          let angle := signedNat (mantissa < 0) (numerator / denominator)
          let quarter := circleRatio bits / 2
          let turns := (2 * angle + quarter) / (2 * quarter)
          let (sine, cosine) := circularUnits bits (angle - turns * quarter)
          let (sine, cosine) :=
            if turns % 4 == 0 then (sine, cosine)
            else if turns % 4 == 1 then (cosine, -sine)
            else if turns % 4 == 2 then (-sine, -cosine)
            else (-cosine, sine)
          ((finite sine (-bits)).round precision, (finite cosine (-bits)).round precision)
  | _ => (undefined, undefined)

def exponentialSeries (precision : Nat) (value : BigFloat) :
    (fuel : Nat) → (term : BigFloat) → (index : Int) → (sum : BigFloat) → BigFloat
  | 0, _, _, sum => sum
  | fuel + 1, term, index, sum =>
      if term.isZero || term.magnitude < -(precision : Int) then sum
      else
        exponentialSeries precision value fuel
          ((term.mul precision value).div precision (ofInt index)) (index + 1)
          (sum.add precision term)

def squareTimes (precision : Nat) : Nat → BigFloat → BigFloat
  | 0, value => value
  | times + 1, value => squareTimes precision times (value.mul precision value)

/-- The argument is halved until it is small, and the result squared as often. -/
def exp (precision : Nat) (value : BigFloat) : BigFloat :=
  match value with
  | .finite mantissa _ =>
      if mantissa == 0 then ofInt 1
      else
        let halvings := (value.magnitude + 8).toNat
        let working := precision + halvings + 20
        let reduced := value.shift (-halvings)
        (squareTimes working halvings
          (exponentialSeries working reduced (working + 1) (ofInt 1) 1 zero)).round precision
  | .infinite false => .infinite false
  | .infinite true => zero
  | .undefined => undefined

/-- Hyperbolic sine and cosine; a small argument costs the difference of exponentials digits, so
the exponentials carry as many more. -/
def hyperbolicSineCosine (precision : Nat) (value : BigFloat) : BigFloat × BigFloat :=
  if value.isZero then (zero, ofInt 1)
  else
    let size := value.magnitude
    if size < -2 * (precision : Int) - 20 then (value.round precision, ofInt 1)
    else
      let working := precision + 20 + 2 * size.natAbs
      let rising := value.exp working
      let falling := value.neg.exp working
      (((rising.sub working falling).shift (-1)).round precision,
        ((rising.add working falling).shift (-1)).round precision)

end TrigAlgebra.BigFloat

namespace TrigAlgebra.BigComplex

open BigFloat

def sine (precision : Nat) (value : BigComplex) : BigComplex :=
  if value.im.isZero then ⟨(sineCosine precision value.re).1, BigFloat.zero⟩
  else
    let working := precision + 10
    let (sine, cosine) := sineCosine working value.re
    let (sineH, cosineH) := hyperbolicSineCosine working value.im
    ⟨sine.mul precision cosineH, cosine.mul precision sineH⟩

def cosine (precision : Nat) (value : BigComplex) : BigComplex :=
  if value.im.isZero then ⟨(sineCosine precision value.re).2, BigFloat.zero⟩
  else
    let working := precision + 10
    let (sine, cosine) := sineCosine working value.re
    let (sineH, cosineH) := hyperbolicSineCosine working value.im
    ⟨cosine.mul precision cosineH, (sine.mul precision sineH).neg⟩

end TrigAlgebra.BigComplex
