/-
This file writes binary numbers in decimal: with a given count of digits, or with the fewest digits
that read back to the same number.
-/

import TrigAlgebra.Binary64

namespace TrigAlgebra.Decimal

open Binary64

/-- The quotients that round to a binary number, as bounds over one denominator. -/
structure Interval where
  lower : Nat
  upper : Nat
  denominator : Nat
  closed : Bool

/-- The gap below a power of two is half the gap above it. -/
def Interval.around (mantissa : Nat) (exponent : Int) : Interval :=
  let (unit, denominator) := ratio 1 (exponent - 2)
  let below := if mantissa == leadingWeight && exponent != -1074 then 1 else 2
  ⟨unit * (4 * mantissa - below), unit * (4 * mantissa + 2), denominator, mantissa % 2 == 0⟩

def Interval.contains (interval : Interval) (numerator denominator : Nat) : Bool :=
  let value := numerator * interval.denominator
  let lower := interval.lower * denominator
  let upper := interval.upper * denominator
  if interval.closed then lower ≤ value && value ≤ upper else lower < value && value < upper

/-- The decimal number of `count` digits nearest to the quotient among those that read back. -/
def Interval.candidate? (interval : Interval) (numerator denominator : Nat) (position : Int)
    (count : Nat) : Option Digits :=
  let step := position - count + 1
  let (upper, lower) := scale 10 numerator denominator step
  let floor := upper / lower
  let reads := fun (mantissa : Nat) =>
    let (top, bottom) := scale 10 mantissa 1 (-step)
    mantissa != 0 && interval.contains top bottom
  let nearest := divideNearest upper lower
  let other := if nearest == floor then floor + 1 else floor
  let written := fun (mantissa : Nat) =>
    let digits := Text.decimalDigits mantissa
    Digits.mk digits (step + digits.length - 1)
  if reads nearest then some (written nearest)
  else if reads other then some (written other)
  else none

/-- Seventeen digits always suffice. -/
def shortest (mantissa : Nat) (exponent : Int) : Digits :=
  let (numerator, denominator) := ratio mantissa exponent
  let interval := Interval.around mantissa exponent
  let position := leadingPosition numerator denominator
  ((List.range 17).findSome? fun index =>
    interval.candidate? numerator denominator position (index + 1)).getD
      (significant 17 numerator denominator)

def signed (negative : Bool) (digits : List Char) : String :=
  String.ofList (if negative then '-' :: digits else digits)

/-- A number that is not finite is written as a word. -/
def special : Decoded → String
  | .infinite negative => if negative then "-inf" else "inf"
  | _ => "nan"

/-- At most `count` significant digits are written. -/
def generalText (count : Nat) (value : Float) : String :=
  match decode value with
  | .finite negative 0 _ => signed negative ['0']
  | .finite negative mantissa exponent =>
      let (numerator, denominator) := ratio mantissa exponent
      signed negative (general count numerator denominator)
  | other => special other

/-- The layout keeps whole numbers below ten to the sixteenth free of an exponent. -/
def shortestText (pointed : Bool) (value : Float) : String :=
  let layout := Layout.mk (-4) 16 pointed
  match decode value with
  | .finite negative 0 _ => signed negative (layout.write ⟨['0'], 0⟩)
  | .finite negative mantissa exponent =>
      signed negative (layout.write (shortest mantissa exponent).trimmed)
  | other => special other

/-- A value that rounds to zero is written without a sign. -/
def fixedText (places : Nat) (value : Float) : String :=
  match decode value with
  | .finite negative mantissa exponent =>
      let (numerator, denominator) := ratio mantissa exponent
      let digits := fixed places numerator denominator
      signed (negative && digits.any fun digit => digit != '0' && digit != '.') digits
  | other => special other

end TrigAlgebra.Decimal
