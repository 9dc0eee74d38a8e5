/-
This file rounds a positive quotient to whole units, to places and to significant digits.
-/

import TrigAlgebra.Text.Numeral

namespace TrigAlgebra.Decimal

/-- The nearest natural number to a quotient; a half goes to the even neighbour. -/
def divideNearest (numerator denominator : Nat) : Nat :=
  let quotient := numerator / denominator
  let twice := 2 * (numerator % denominator)
  if denominator < twice || (twice == denominator && quotient % 2 == 1) then quotient + 1
  else quotient

/-- A quotient over a signed power of a base, as a numerator and a denominator. -/
def scale (base numerator denominator : Nat) (exponent : Int) : Nat × Nat :=
  if 0 ≤ exponent then (numerator, denominator * base.pow exponent.toNat)
  else (numerator * base.pow (-exponent).toNat, denominator)

/-- The position of the leading digit of a positive quotient. -/
def leadingPosition (numerator denominator : Nat) : Int :=
  let guess : Int :=
    ((Text.decimalDigits numerator).length : Int) - (Text.decimalDigits denominator).length
  let (upper, lower) := scale 10 numerator denominator guess
  if lower ≤ upper then guess else guess - 1

/-- A decimal number with its digits, the first one standing at `position`. -/
structure Digits where
  digits : List Char
  position : Int
deriving Repr

/-- Trailing zeros carry no value. -/
def Digits.trimmed (number : Digits) : Digits :=
  let kept := (number.digits.reverse.dropWhile (· == '0')).reverse
  { number with digits := if kept.isEmpty then ['0'] else kept }

/-- The nearest decimal number of `count` significant digits to a positive quotient. -/
def significant (count numerator denominator : Nat) : Digits :=
  let position := leadingPosition numerator denominator
  let (upper, lower) := scale 10 numerator denominator (position - count + 1)
  let mantissa := divideNearest upper lower
  if mantissa == Nat.pow 10 count then ⟨Text.decimalDigits (Nat.pow 10 (count - 1)), position + 1⟩
  else ⟨Text.decimalDigits mantissa, position⟩

/-- A quotient written with a fixed number of places. -/
def fixed (places numerator denominator : Nat) : List Char :=
  let one := Nat.pow 10 places
  let units := divideNearest (numerator * one) denominator
  let fraction := Text.decimalDigits (units % one)
  Text.decimalDigits (units / one) ++
    '.' :: (List.replicate (places - fraction.length) '0' ++ fraction)

/-- The choices by which digits are laid out: the positions of the leading digit that are written
without an exponent, and whether a whole number keeps a zero after the point. -/
structure Layout where
  lowest : Int
  below : Int
  pointed : Bool

def Layout.exponentText (position : Int) : List Char :=
  let digits := Text.decimalDigits position.natAbs
  'e' :: (if position < 0 then '-' else '+') ::
    (if digits.length < 2 then '0' :: digits else digits)

def Layout.write (layout : Layout) (number : Digits) : List Char :=
  let position := number.position
  if layout.lowest ≤ position ∧ position < layout.below then
    if position < 0 then
      '0' :: '.' :: (List.replicate (-position - 1).toNat '0' ++ number.digits)
    else
      let whole := position.toNat + 1
      let fraction := number.digits.drop whole
      number.digits.take whole ++ List.replicate (whole - number.digits.length) '0' ++
        (if !fraction.isEmpty then '.' :: fraction
          else if layout.pointed then ['.', '0'] else [])
  else
    let fraction := number.digits.drop 1
    number.digits.take 1 ++ (if fraction.isEmpty then [] else '.' :: fraction) ++
      Layout.exponentText position

/-- Digits beyond the last nonzero one are dropped, and an exponent is used outside the range
from four places below the point to the last kept digit. -/
def general (count numerator denominator : Nat) : List Char :=
  (Layout.mk (-4) count false).write (significant count numerator denominator).trimmed

end TrigAlgebra.Decimal
