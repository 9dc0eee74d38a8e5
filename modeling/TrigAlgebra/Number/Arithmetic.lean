/-
This file adds, multiplies and divides numbers of any two kinds; the result has the wider kind.
-/

import TrigAlgebra.Number.Basic

namespace TrigAlgebra.Number

/-- The operations on numbers of one kind, from which the mixed ones follow. -/
structure Operation where
  real : Float → Float → Except Fault Float
  complex : Float × Float → Float × Float → Except Fault (Float × Float)
  bigReal : BigFloat → BigFloat → Except Fault BigFloat
  bigComplex : Number → Number → Except Fault BigComplex

/-- Both numbers are brought to the wider of the two kinds, and big kinds are wider than the
bounded ones. -/
def Operation.mixed (operation : Operation) (first second : Number) : Except Fault Number :=
  if first.isBig || second.isBig then
    if first.isReal && second.isReal then
      (operation.bigReal first.toBigComplex.re second.toBigComplex.re).map .bigReal
    else (operation.bigComplex first second).map .bigComplex
  else if first.isReal && second.isReal then do
    let first ← first.toFloat
    let second ← second.toFloat
    return .real (← operation.real first second)
  else do
    let first ← first.toComplex
    let second ← second.toComplex
    let (re, im) ← operation.complex first second
    return .complex re im

def complexProduct (first second : Float × Float) : Float × Float :=
  (first.1 * second.1 - first.2 * second.2, first.1 * second.2 + first.2 * second.1)

/-- Smith's method scales by the larger part of the divisor; a divisor with an undefined part
gives an undefined quotient. -/
def complexQuotient (first second : Float × Float) : Except Fault (Float × Float) :=
  let (re, im) := second
  let sizeRe := re.abs
  let sizeIm := im.abs
  if sizeIm ≤ sizeRe then
    if sizeRe == 0.0 then .error (.divisionByZero .complex)
    else
      let ratio := im / re
      let divisor := re + im * ratio
      .ok ((first.1 + first.2 * ratio) / divisor, (first.2 - first.1 * ratio) / divisor)
  else if sizeRe ≤ sizeIm then
    let ratio := re / im
    let divisor := re * ratio + im
    .ok ((first.1 * ratio + first.2) / divisor, (first.2 * ratio - first.1) / divisor)
  else .ok (Binary64.undefined, Binary64.undefined)

def addition : Operation where
  real first second := .ok (first + second)
  complex first second := .ok (first.1 + second.1, first.2 + second.2)
  bigReal first second := .ok (first.add bigPrecision second)
  bigComplex first second := .ok (first.toBigComplex.add bigPrecision second.toBigComplex)

def subtraction : Operation where
  real first second := .ok (first - second)
  complex first second := .ok (first.1 - second.1, first.2 - second.2)
  bigReal first second := .ok (first.sub bigPrecision second)
  bigComplex first second := .ok (first.toBigComplex.sub bigPrecision second.toBigComplex)

/-- A real factor scales the two parts of a complex one. -/
def multiplication : Operation where
  real first second := .ok (first * second)
  complex first second := .ok (complexProduct first second)
  bigReal first second := .ok (first.mul bigPrecision second)
  bigComplex first second :=
    if first.isReal then .ok (second.toBigComplex.scale bigPrecision first.toBigComplex.re)
    else if second.isReal then .ok (first.toBigComplex.scale bigPrecision second.toBigComplex.re)
    else .ok (first.toBigComplex.mul bigPrecision second.toBigComplex)

def division : Operation where
  real first second :=
    if second == 0.0 then .error (.divisionByZero .real) else .ok (first / second)
  complex := complexQuotient
  bigReal first second :=
    if second.isZero then .error (.divisionByZero .bigReal)
    else .ok (first.div bigPrecision second)
  bigComplex first second :=
    if second.toBigComplex.isZero then .error (.divisionByZero .bigComplex)
    else if second.isReal then
      .ok (first.toBigComplex.shrink bigPrecision second.toBigComplex.re)
    else .ok (first.toBigComplex.div bigPrecision second.toBigComplex)

/-- The nearest rounded value to a quotient of integers; zero keeps the sign of the quotient. -/
def integerQuotient (first second : Int) : Except Fault Float :=
  if second == 0 then .error (.divisionByZero .integer)
  else
    let rounded := Binary64.ofRatio ((first < 0) != (second < 0)) first.natAbs second.natAbs
    if rounded.isFinite then .ok rounded else .error .quotientTooLarge

def add : Number → Number → Except Fault Number
  | .integer first, .integer second => .ok (.integer (first + second))
  | first, second => addition.mixed first second

def sub : Number → Number → Except Fault Number
  | .integer first, .integer second => .ok (.integer (first - second))
  | first, second => subtraction.mixed first second

def mul : Number → Number → Except Fault Number
  | .integer first, .integer second => .ok (.integer (first * second))
  | first, second => multiplication.mixed first second

def div : Number → Number → Except Fault Number
  | .integer first, .integer second => (integerQuotient first second).map .real
  | first, second => division.mixed first second

def neg : Number → Number
  | .integer value => .integer (-value)
  | .real value => .real (-value)
  | .complex re im => .complex (-re) (-im)
  | .bigReal value => .bigReal value.neg
  | .bigComplex value => .bigComplex value.neg

end TrigAlgebra.Number
