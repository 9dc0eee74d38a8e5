/-
This file evaluates stored coefficients at a number.
-/

import TrigAlgebra.DenseVector.Basic

namespace TrigAlgebra

namespace DenseVector

/-- Rounded coefficients are evaluated from zero on. -/
def evaluateReals (entries : List Float) (point : Float) : Except Fault Number :=
  Horner.fromStart (.real 0.0) (.real point) (entries.map .real)

def evaluateComplexes (entries : List (Float × Float)) (point : Float × Float) :
    Except Fault Number :=
  Horner.fromStart (.complex 0.0 0.0) (.complex point.1 point.2)
    (entries.map fun entry => .complex entry.1 entry.2)

/-- Products and sums of words wrap around. -/
def evaluateWords (wrap : Int → Int) (point leading : Int) (lower : List Int) : Int :=
  lower.foldl (fun result entry => wrap (wrap (result * point) + entry)) leading

def requireSigned (point : Int) : Except Fault Unit :=
  if Word.isSigned point then .ok () else .error .wordTooLarge

def requireUnsigned (point : Int) : Except Fault Unit :=
  if Word.isUnsigned point then .ok ()
  else if point < 0 then .error (.wordNegative point)
  else .error .wordTooLarge

/-- Words meet a rounded number as rounded numbers. -/
def evaluateRounded (entries : List Int) (point : Number) : Option (Except Fault Number) :=
  Horner.fromLeading point
    (entries.map fun entry => if point.isBig then .integer entry else .real (Binary64.ofInt entry))

/-- A single coefficient is the value whatever the point is. -/
def evaluateIntegers (wrap : Int → Int) (require : Int → Except Fault Unit) (entries : List Int)
    (point : Number) : Option (Except Fault Number) :=
  match entries.reverse, point with
  | [], _ => none
  | [entry], _ => some (.ok (.integer entry))
  | leading :: lower, .integer point =>
      some ((require point).map fun _ => .integer (evaluateWords wrap point leading lower))
  | _, point => evaluateRounded entries point

/-- There is no value without coefficients. -/
def evaluate (vector : DenseVector) (point : Number) : Option (Except Fault Number) :=
  match vector with
  | .reals entries =>
      some (if point.isReal then do evaluateReals entries (← point.toFloat)
        else do evaluateComplexes (entries.map fun entry => (entry, 0.0)) (← point.toComplex))
  | .complexes entries => some (do evaluateComplexes entries (← point.toComplex))
  | .signedWords entries => evaluateIntegers Word.wrapSigned requireSigned entries point
  | .unsignedWords entries => evaluateIntegers Word.wrapUnsigned requireUnsigned entries point
  | .numbers entries => Horner.fromLeading point entries

end DenseVector

/-- The value of a polynomial in one variable at a number. -/
def Polynomial.evaluateAt (polynomial : Polynomial Number) (point : Number) :
    Except Fault Number := do
  let vector ← polynomial.coefficients
  (vector.evaluate point).getD (.ok (.real 0.0))

end TrigAlgebra
