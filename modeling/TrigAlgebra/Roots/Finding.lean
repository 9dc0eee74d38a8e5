/-
This file finds the roots of stored coefficients.
-/

import TrigAlgebra.DenseVector.Basic
import TrigAlgebra.Roots.Companion
import TrigAlgebra.Roots.Eigenvalues
import TrigAlgebra.Roots.Simultaneous
import TrigAlgebra.Traced

namespace TrigAlgebra

abbrev Root : Type := Float × Float

namespace DenseVector

/-- The quotient by a divisor that is scaled to one in its larger part. -/
def scaledQuotient (first second : Float × Float) : Float × Float :=
  let (re, im) := second
  if im.abs ≤ re.abs then
    if re == 0.0 && im == 0.0 then (first.1 / re.abs, first.2 / re.abs)
    else
      let ratio := im / re
      let factor := 1.0 / (re + im * ratio)
      ((first.1 + first.2 * ratio) * factor, (first.2 - first.1 * ratio) * factor)
  else
    let ratio := re / im
    let factor := 1.0 / (im + re * ratio)
    ((first.1 * ratio + first.2) * factor, (first.2 * ratio - first.1) * factor)

def wordQuotient (wrap : Int → Int) (constant linear : Int) : Root :=
  (Binary64.ofInt (wrap (-constant)) / Binary64.ofInt linear, 0.0)

/-- The root of two coefficients, the constant one first. -/
def linearRoot : DenseVector → Except Fault (List Root)
  | .reals [constant, linear] => .ok [(-constant / linear, 0.0)]
  | .complexes [constant, linear] =>
      .ok [scaledQuotient (-constant.1, -constant.2) linear]
  | .signedWords [constant, linear] => .ok [wordQuotient Word.wrapSigned constant linear]
  | .unsignedWords [constant, linear] => .ok [wordQuotient Word.wrapUnsigned constant linear]
  | .numbers [constant, linear] => do
      return [← (← Number.div constant.neg linear).toComplex]
  | _ => .ok []

def isFinitePair (pair : Float × Float) : Bool := pair.1.isFinite && pair.2.isFinite

/-- The companion matrix of rounded coefficients. -/
def companion (coefficients : List (Float × Float)) :
    Except Fault (List (List (Float × Float))) := do
  let numbers := coefficients.map fun pair => Number.complex pair.1 pair.2
  (← Companion.matrix numbers).mapM fun row => row.mapM Number.toComplex

def toRoot (value : BigComplex) : Root := (value.re.toFloat, value.im.toFloat)

/-- The eigenvalues of a matrix with finite entries. -/
def eigenvalues (rows : List (List (Float × Float))) : Except Fault (List Root) :=
  if rows.all fun row => row.all isFinitePair then
    match rows with
    | [[entry]] => .ok [entry]
    | rows =>
        .ok ((Eigenvalues.ofRows
          (rows.map fun row => row.map fun pair => .ofFloats pair.1 pair.2)).map toRoot)
  else .error .entriesNotFinite

def companionRoots (vector : DenseVector) : Except Fault (List Root) := do
  eigenvalues (← companion (← vector.toComplexes))

/-- Without a number of decimal places the default one is used. -/
def preciseRoots (places? : Option Int) (vector : DenseVector) : Except Fault (List Root) := do
  let coefficients := vector.toNumbers.reverse.map Number.toBigComplex
  let roots ← SimultaneousRoots.find (places?.getD SimultaneousRoots.defaultPlaces) coefficients
  return roots.map toRoot

/-- Vectors are trimmed first; constants have no roots, and from the second degree on the way of
finding them is noted. -/
def roots (precise : Bool) (vector : DenseVector) : Traced (List Root) :=
  let trimmed := vector.trim
  let degree := trimmed.length - 1
  let count := "Finding " ++ toString degree ++ " roots "
  if degree = 0 then pure []
  else if degree = 1 then trimmed.linearRoot
  else if precise then do
    Traced.note (count ++ "with mpmath")
    trimmed.preciseRoots none
  else do
    Traced.note (count ++ "from the companion matrix")
    trimmed.companionRoots

end DenseVector

def Polynomial.roots (precise : Bool) (polynomial : Polynomial Number) : Traced (List Root) := do
  polynomial.requireUnivariate "roots"
  DenseVector.roots precise (← polynomial.coefficients)

end TrigAlgebra
