/-
This file reads numbers of any precision from decimal text and writes them in decimal.
-/

import TrigAlgebra.BigFloat.Basic
import TrigAlgebra.Decimal.Shortest

namespace TrigAlgebra.BigFloat

open Decimal Text

/-- The first `count` digits of a positive number, of which a last rounding makes `count - 3`:
digits from five on round the rest up. -/
def roundedDigits (count numerator denominator : Nat) : Digits :=
  let position := leadingPosition numerator denominator
  let kept := count + 3
  let (upper, lower) := scale 10 numerator denominator (position - kept + 1)
  let rounded := (upper / lower / 100 + 5) / 10
  if rounded == Nat.pow 10 count then ⟨decimalDigits (Nat.pow 10 (count - 1)), position + 1⟩
  else ⟨decimalDigits rounded, position⟩

/-- Whole numbers keep a zero after the point, and so does a mantissa before an exponent. -/
def digitsText (count : Nat) (number : Digits) : List Char :=
  let lowest : Int := min (-((count / 3 : Nat) : Int)) (-5)
  let digits := number.trimmed.digits
  if lowest < number.position ∧ number.position < count then
    (Layout.mk lowest count true).write ⟨digits, number.position⟩
  else
    let fraction := if digits.length == 1 then ['0'] else digits.drop 1
    digits.take 1 ++ '.' :: fraction ++ 'e' :: (if number.position < 0 then '-' else '+') ::
      decimalDigits number.position.natAbs

/-- At most `count` significant digits are written. -/
def text (count : Nat) : BigFloat → String
  | .finite mantissa exponent =>
      if mantissa == 0 then "0.0"
      else
        let (numerator, denominator) := Binary64.ratio mantissa.natAbs exponent
        signed (mantissa < 0) (digitsText count (roundedDigits count numerator denominator))
  | .infinite negative => if negative then "-inf" else "+inf"
  | .undefined => "nan"

def generalText (count : Nat) : BigFloat → String
  | .finite mantissa exponent =>
      if mantissa == 0 then "0"
      else
        let (numerator, denominator) := Binary64.ratio mantissa.natAbs exponent
        signed (mantissa < 0) (general count numerator denominator)
  | .infinite negative => if negative then "-inf" else "inf"
  | .undefined => "nan"

/-- The nearest number with `precision` binary digits to `mantissa * 10 ^ exponent`. -/
def ofDecimal (precision : Nat) (mantissa exponent : Int) : BigFloat :=
  if 0 ≤ exponent then (ofInt (mantissa * Nat.pow 10 exponent.toNat)).round precision
  else div precision (ofInt mantissa) (ofInt (Nat.pow 10 (-exponent).toNat))

/-- A sign before a text is taken off; the first component says whether it was a minus. -/
def readSign : List Char → Bool × List Char
  | '-' :: rest => (true, rest)
  | '+' :: rest => (false, rest)
  | rest => (false, rest)

def readDigits? (digits : List Char) : Option Nat :=
  if digits.all Char.isDigit then some (numeralValue digits) else none

def readExponent? : List Char → Option Int
  | [] => some 0
  | _ :: rest =>
      let (negative, digits) := readSign rest
      if digits.isEmpty then none
      else (readDigits? digits).map (signedNat negative)

/-- A numeral has an optional sign, digits around an optional point and an optional exponent. -/
def read? (precision : Nat) (text : String) : Option BigFloat :=
  let (negative, body) := readSign text.toList
  if body == ['i', 'n', 'f'] then some (.infinite negative)
  else if body == ['n', 'a', 'n'] then some .undefined
  else do
    let isMark := fun character => character == 'e' || character == 'E'
    let mantissa := body.takeWhile fun character => !isMark character
    let exponent ← readExponent? (body.dropWhile fun character => !isMark character)
    let whole := mantissa.takeWhile (· != '.')
    let fraction := (mantissa.dropWhile (· != '.')).drop 1
    let digits ← if whole.isEmpty && fraction.isEmpty then none
      else readDigits? (whole ++ fraction)
    return ofDecimal precision (signedNat negative digits) (exponent - fraction.length)

end TrigAlgebra.BigFloat
