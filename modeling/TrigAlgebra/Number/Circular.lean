/-
This file takes sines and cosines of numbers.
-/

import TrigAlgebra.Number.Arithmetic
import TrigAlgebra.BigFloat.Elementary

namespace TrigAlgebra.Number

open Binary64

def realCircular (function : Circular) (value : Float) : Except Fault Float :=
  if value.isInf then .error .outsideDomain
  else
    match function with
    | .sine => .ok value.sin
    | .cosine => .ok value.cos

/-- An exponential that may pass the largest number is taken in two steps. -/
def scaledExponential (function : Float → Float) (size factor : Float) : Float :=
  let limit := 708.396418532264
  if limit < size.abs then
    let step : Float := if size < 0.0 then -1.0 else 1.0
    factor * function (size - step) * Float.exp 1.0
  else factor * function size

/-- Hyperbolic sine with an infinite or undefined part; `none` stands for a result that the
function does not have. -/
def hyperbolicSineLimit (re im : Float) : Option (Float × Float) :=
  if re.isInf && im.isFinite && im != 0.0 then
    some (withSign (infinity false) (re * im.cos), withSign (infinity false) im.sin)
  else if re.isInf && im == 0.0 then some (re, im)
  else if im == 0.0 then some (re, im)
  else if im.isInf && !re.isNaN then none
  else if re == 0.0 then some (0.0, undefined)
  else if re.isInf then some (infinity false, undefined)
  else some (undefined, undefined)

def hyperbolicCosineLimit (re im : Float) : Option (Float × Float) :=
  if re.isInf && im.isFinite && im != 0.0 then
    some (withSign (infinity false) im.cos,
      withSign (infinity false) (if re < 0.0 then -im.sin else im.sin))
  else if re.isInf && im == 0.0 then
    some (infinity false, if isNegative re then -im else im)
  else if im == 0.0 then some (re.abs, 0.0)
  else if im.isInf && !re.isNaN then none
  else if re == 0.0 then some (undefined, 0.0)
  else if re.isInf then some (infinity false, undefined)
  else some (undefined, undefined)

def checkedRange (parts : Float × Float) : Except Fault (Float × Float) :=
  if parts.1.isInf || parts.2.isInf then .error .outsideRange else .ok parts

def complexHyperbolicSine (re im : Float) : Except Fault (Float × Float) :=
  if re.isFinite && im.isFinite then
    checkedRange (scaledExponential Float.sinh re im.cos, scaledExponential Float.cosh re im.sin)
  else
    match hyperbolicSineLimit re im with
    | some parts => .ok parts
    | none => .error .outsideDomain

def complexHyperbolicCosine (re im : Float) : Except Fault (Float × Float) :=
  if re.isFinite && im.isFinite then
    checkedRange (scaledExponential Float.cosh re im.cos, scaledExponential Float.sinh re im.sin)
  else
    match hyperbolicCosineLimit re im with
    | some parts => .ok parts
    | none => .error .outsideDomain

/-- Sine and cosine are hyperbolic functions of the number turned by a quarter. -/
def complexCircular (function : Circular) (re im : Float) : Except Fault (Float × Float) :=
  match function with
  | .sine => (complexHyperbolicSine (-im) re).map fun parts => (parts.2, -parts.1)
  | .cosine => complexHyperbolicCosine (-im) re

def circular (function : Circular) : Number → Except Fault Number
  | .integer value => do return .real (← realCircular function (← floatOfInt value))
  | .real value => (realCircular function value).map .real
  | .complex re im => (complexCircular function re im).map fun parts => .complex parts.1 parts.2
  | .bigReal value =>
      let (sine, cosine) := value.sineCosine bigPrecision
      .ok (.bigReal (match function with | .sine => sine | .cosine => cosine))
  | .bigComplex value =>
      .ok (.bigComplex
        (match function with
        | .sine => value.sine bigPrecision
        | .cosine => value.cosine bigPrecision))

end TrigAlgebra.Number
