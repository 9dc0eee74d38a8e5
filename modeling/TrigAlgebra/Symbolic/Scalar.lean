/-
This file defines the numbers of symbolic expressions: exact complex rationals, and rounded numbers
wherever a rounded one takes part.
-/

import TrigAlgebra.Number.Arithmetic

namespace TrigAlgebra.Symbolic

/-- Infinite and undefined values are not told apart. -/
inductive Scalar where
  | exact (re im : Rat)
  | real (value : Float)
  | complex (re im : Float)
  | unbounded
deriving DecidableEq

namespace Scalar

def ofInt (value : Int) : Scalar := .exact value 0

def zero : Scalar := ofInt 0

def one : Scalar := ofInt 1

def ofRat (value : Rat) : Scalar := .exact value 0

/-- Numerator and denominator are rounded toward zero before they are divided. -/
def floatOfRat (value : Rat) : Float :=
  if value.den = 1 then Binary64.towardZero value.num
  else Binary64.towardZero value.num / Binary64.towardZero value.den

def isZero : Scalar → Bool
  | .exact re im => re == 0 && im == 0
  | .real value => value == 0.0
  | .complex re im => re == 0.0 && im == 0.0
  | .unbounded => false

/-- Whether a number is exactly zero, not rounded to it. -/
def isExactZero (scalar : Scalar) : Bool := scalar == zero

def isOne (scalar : Scalar) : Bool := scalar == one

def toParts : Scalar → Float × Float
  | .exact re im => (floatOfRat re, floatOfRat im)
  | .real value => (value, 0.0)
  | .complex re im => (re, im)
  | .unbounded => (Binary64.undefined, Binary64.undefined)

/-- The rounded value of a real number. -/
def toReal? : Scalar → Option Float
  | .exact re im => if im = 0 then some (floatOfRat re) else none
  | .real value => some value
  | _ => none

/-- Two numbers that are not both exact meet as real ones if both are real. -/
def rounded (real : Float → Float → Float)
    (complex : Float × Float → Float × Float → Float × Float) (first second : Scalar) : Scalar :=
  match first.toReal?, second.toReal? with
  | some left, some right => .real (real left right)
  | _, _ =>
      let (re, im) := complex first.toParts second.toParts
      .complex re im

def add : Scalar → Scalar → Scalar
  | .unbounded, _ => .unbounded
  | _, .unbounded => .unbounded
  | .exact re im, .exact re' im' => .exact (re + re') (im + im')
  | first, second =>
      rounded (· + ·) (fun left right => (left.1 + right.1, left.2 + right.2)) first second

/-- An exact zero makes any product exactly zero. -/
def mul : Scalar → Scalar → Scalar
  | .unbounded, _ => .unbounded
  | _, .unbounded => .unbounded
  | .exact re im, .exact re' im' => .exact (re * re' - im * im') (re * im' + im * re')
  | first, second =>
      if first.isExactZero || second.isExactZero then zero
      else rounded (· * ·) Number.complexProduct first second

/-- The inverse of zero is unbounded. -/
def inverse (re im : Rat) : Scalar :=
  let size := re * re + im * im
  if size = 0 then .unbounded else .exact (re / size) (-im / size)

def powNat (base : Scalar) (exponent : Nat) : Scalar :=
  if exponent = 0 then one
  else
    let half := powNat base (exponent / 2)
    let square := half.mul half
    if exponent % 2 = 1 then square.mul base else square

/-- Whether the powers of an exact number are among zero, one, minus one and the imaginary units. -/
def isCyclic (re im : Rat) : Bool :=
  re.den == 1 && im.den == 1 && re.num.natAbs + im.num.natAbs ≤ 1

/-- An exponent must be smaller than this one unless the powers repeat. -/
def exponentBound : Nat := 0x10000000000000000

/-- A complex power is taken through the logarithm of the base. -/
def complexPower (base : Float × Float) (exponent : Float) : Scalar :=
  let length := Float.sqrt (base.1 * base.1 + base.2 * base.2)
  let size := Float.exp (exponent * length.log)
  let angle := exponent * Float.atan2 base.2 base.1
  .complex (size * angle.cos) (size * angle.sin)

def realPower (base exponent : Float) : Scalar :=
  let result := Float.pow base exponent
  if base < 0.0 && result.isNaN then complexPower (base, 0.0) exponent else .real result

def powInt (base : Scalar) (exponent : Int) : Scalar :=
  match base with
  | .exact re im =>
      if !isCyclic re im && exponentBound ≤ exponent.natAbs then .unbounded
      else if 0 ≤ exponent then powNat base exponent.toNat
      else powNat (inverse re im) exponent.natAbs
  | .real value => realPower value (Binary64.towardZero exponent)
  | .complex re im => complexPower (re, im) (Binary64.towardZero exponent)
  | .unbounded => if exponent = 0 then one else .unbounded

def powFloat (base : Scalar) (exponent : Float) : Scalar :=
  match base.toReal? with
  | some value => realPower value exponent
  | none => complexPower base.toParts exponent

/-- The natural number whose power is the given one, found by bisection between two bounds. -/
def rootBetween (value power : Nat) : (fuel : Nat) → (lower upper : Nat) → Option Nat
  | 0, _, _ => none
  | fuel + 1, lower, upper =>
      if upper < lower then none
      else
        let middle := (lower + upper) / 2
        if middle.pow power = value then some middle
        else if middle.pow power < value then rootBetween value power fuel (middle + 1) upper
        else if middle = 0 then none
        else rootBetween value power fuel lower (middle - 1)

def exactRoot? (value power : Nat) : Option Nat :=
  rootBetween value power (Binary64.bitLength value + 2) 0 value

/-- A rational power of a rational number, where it is rational, or imaginary for a square root. -/
def rationalPower? (base exponent : Rat) : Option Scalar := do
  let upper ← exactRoot? base.num.natAbs exponent.den
  let lower ← exactRoot? base.den exponent.den
  let root : Rat := (upper : Rat) / lower
  if 0 ≤ base then return powInt (ofRat root) exponent.num
  else if exponent.den = 2 then return powInt (.exact 0 root) exponent.num
  else none

/-- The number with a finite or infinite rounded value. -/
def toNumber? : Scalar → Option Number
  | .exact re im =>
      if im = 0 then some (.real (floatOfRat re)) else some (.complex (floatOfRat re) (floatOfRat im))
  | .real value => some (.real value)
  | .complex re im => some (.complex re im)
  | .unbounded => none

end Scalar

end TrigAlgebra.Symbolic
