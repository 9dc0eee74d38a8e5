/-
This file defines complex numbers whose parts are binary floating-point numbers of any precision.
-/

import TrigAlgebra.BigFloat.Basic

namespace TrigAlgebra

structure BigComplex where
  re : BigFloat
  im : BigFloat
deriving Repr, Inhabited

namespace BigComplex

open BigFloat

def zero : BigComplex := ⟨BigFloat.zero, BigFloat.zero⟩

def one : BigComplex := ⟨.ofInt 1, BigFloat.zero⟩

def ofReal (value : BigFloat) : BigComplex := ⟨value, BigFloat.zero⟩

def isZero (value : BigComplex) : Bool :=
  value.re.isZero && value.im.isZero

def neg (value : BigComplex) : BigComplex :=
  ⟨value.re.neg, value.im.neg⟩

def add (precision : Nat) (first second : BigComplex) : BigComplex :=
  ⟨first.re.add precision second.re, first.im.add precision second.im⟩

def sub (precision : Nat) (first second : BigComplex) : BigComplex :=
  ⟨first.re.sub precision second.re, first.im.sub precision second.im⟩

def conjugate (value : BigComplex) : BigComplex :=
  ⟨value.re, value.im.neg⟩

def round (precision : Nat) (value : BigComplex) : BigComplex :=
  ⟨value.re.round precision, value.im.round precision⟩

/-- A product that rounds, to at most `precision` binary digits, as the exact one does. -/
def mulWithin (precision : Nat) (first second : BigComplex) : BigComplex :=
  ⟨addWithin precision (first.re.mulExact second.re) (first.im.mulExact second.im).neg,
    addWithin precision (first.re.mulExact second.im) (first.im.mulExact second.re)⟩

def truncate (precision : Nat) (value : BigComplex) : BigComplex :=
  ⟨value.re.truncate precision, value.im.truncate precision⟩

/-- Each part is a sum of two exact products and is rounded once. -/
def mul (precision : Nat) (first second : BigComplex) : BigComplex :=
  (mulWithin precision first second).round precision

def scale (precision : Nat) (factor : BigFloat) (value : BigComplex) : BigComplex :=
  ⟨value.re.mul precision factor, value.im.mul precision factor⟩

def shrink (precision : Nat) (value : BigComplex) (divisor : BigFloat) : BigComplex :=
  ⟨value.re.div precision divisor, value.im.div precision divisor⟩

/-- A sum of two squares that rounds, to at most `precision` binary digits, as the exact one. -/
def squaredSize (precision : Nat) (value : BigComplex) : BigFloat :=
  addWithin precision (value.re.mulExact value.re) (value.im.mulExact value.im)

def abs (precision : Nat) (value : BigComplex) : BigFloat :=
  if value.im.isZero then value.re.abs
  else if value.re.isZero then value.im.abs
  else ((squaredSize (precision + 4) value).truncate (precision + 4)).sqrt precision

/-- The numerator and the squared size of the divisor keep ten digits more than the result, and
are cut off there. -/
def div (precision : Nat) (first second : BigComplex) : BigComplex :=
  let working := precision + 10
  shrink precision ((mulWithin working first second.conjugate).truncate working)
    ((squaredSize working second).truncate working)

def pow (precision : Nat) (base : BigComplex) (exponent : Nat) : BigComplex :=
  if exponent = 0 then one
  else
    let half := pow precision base (exponent / 2)
    let square := mul precision half half
    if exponent % 2 = 1 then mul precision square base else square

def ofFloats (re im : Float) : BigComplex :=
  ⟨.ofFloat re, .ofFloat im⟩

/-- The root in the right half plane. -/
def sqrt (precision : Nat) (value : BigComplex) : BigComplex :=
  if value.im.isZero then
    if value.re.isNegative then ⟨BigFloat.zero, value.re.neg.sqrt precision⟩
    else ⟨value.re.sqrt precision, BigFloat.zero⟩
  else
    let working := precision + 20
    let size := value.abs working
    let half := fun (part : BigFloat) => ((size.add working part).shift (-1)).sqrt working
    if value.re.isNegative then
      let im := half value.re.neg
      let im := if value.im.isNegative then im.neg else im
      ⟨value.im.div precision (im.shift 1), im.round precision⟩
    else
      let re := half value.re
      ⟨re.round precision, value.im.div precision (re.shift 1)⟩

end BigComplex

end TrigAlgebra
