/-
This file raises numbers to natural powers.
-/

import TrigAlgebra.Number.Arithmetic

namespace TrigAlgebra.Number

/-- Powers up to this one are products; above it a complex power is taken in polar form. -/
def largestProductPower : Nat := 100

/-- Squares are multiplied together from the lowest binary digit of the exponent up. -/
def complexProductPower (result square : Float × Float) (exponent : Nat) : Float × Float :=
  if exponent = 0 then result
  else
    complexProductPower
      (if exponent % 2 = 1 then complexProduct result square else result)
      (complexProduct square square) (exponent / 2)

/-- The length of a complex number, infinite when a part is. -/
def complexLength (re im : Float) : Float :=
  if re.isInf || im.isInf then Binary64.infinity false
  else ((BigComplex.ofFloats re im).abs (2 * bigPrecision)).toFloat

def complexPolarPower (base : Float × Float) (exponent : Float) : Float × Float :=
  if base.1 == 0.0 && base.2 == 0.0 then (0.0, 0.0)
  else
    let length := Float.pow (complexLength base.1 base.2) exponent
    let angle := Float.atan2 base.2 base.1 * exponent
    (length * angle.cos, length * angle.sin)

def complexPower (base : Float × Float) (exponent : Nat) : Except Fault (Float × Float) := do
  let rounded ← floatOfInt exponent
  let (re, im) :=
    if exponent ≤ largestProductPower then complexProductPower (1.0, 0.0) base exponent
    else complexPolarPower base rounded
  if re.isInf || im.isInf then .error .complexPowerTooLarge else return (re, im)

/-- A finite number has no infinite power; an infinite or undefined one may. -/
def realPower (base : Float) (exponent : Nat) : Except Fault Float := do
  let result := Float.pow base (← floatOfInt exponent)
  if base.isFinite && result.isInf then .error .powerTooLarge else return result

/-- The powers of an integer of size zero or one need no products. -/
def integerPower (base : Int) (exponent : Nat) : Int :=
  if base.natAbs ≤ 1 then
    if exponent = 0 then 1 else if exponent % 2 = 0 then base * base else base
  else base.pow exponent

@[simp] theorem integerPower_eq_pow (base : Int) (exponent : Nat) :
    integerPower base exponent = base.pow exponent := by
  change integerPower base exponent = base ^ exponent
  unfold integerPower
  split
  case isFalse => rfl
  case isTrue small =>
    have cases : base = 0 ∨ base = 1 ∨ base = -1 := by omega
    have steps : exponent = 2 * (exponent / 2) + exponent % 2 := by omega
    split
    case isTrue none => simp [none]
    case isFalse some =>
      rcases cases with rfl | rfl | rfl
      · simp [Int.zero_pow some]
      · rw [Int.one_pow]
        split <;> rfl
      · split
        case isTrue even =>
          rw [steps, even, Nat.add_zero, Int.pow_mul, show (-1 : Int) ^ 2 = 1 from rfl, Int.one_pow]
          rfl
        case isFalse odd =>
          have odd : exponent % 2 = 1 := by omega
          rw [steps, odd, Int.pow_succ, Int.pow_mul, show (-1 : Int) ^ 2 = 1 from rfl, Int.one_pow]
          rfl

/-- Digits kept while a power of a big number is formed. -/
def powerPrecision (exponent : Nat) : Nat := bigPrecision + 30 + Binary64.bitLength exponent

def pow (base : Number) (exponent : Nat) : Except Fault Number :=
  match base with
  | .integer value => .ok (.integer (integerPower value exponent))
  | .real value => (realPower value exponent).map .real
  | .complex re im => (complexPower (re, im) exponent).map fun parts => .complex parts.1 parts.2
  | .bigReal value =>
      .ok (.bigReal ((value.pow (powerPrecision exponent) exponent).round bigPrecision))
  | .bigComplex value =>
      .ok (.bigComplex ((value.pow (powerPrecision exponent) exponent).round bigPrecision))

end TrigAlgebra.Number
