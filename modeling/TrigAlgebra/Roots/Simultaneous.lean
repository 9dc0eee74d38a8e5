/-
This file finds all roots of a list of coefficients at once, by correcting every root with the
distances to the others.
-/

import TrigAlgebra.Number.Power

namespace TrigAlgebra.SimultaneousRoots

open BigComplex

/-- The binary digits that hold a number of decimal places, and one digit more. -/
def binaryDigits (places : Int) : Nat :=
  max 1 (((places + 1) * 33219280948873626 + 5000000000000000) / 10000000000000000).toNat

/-- The decimal places used when none are asked for. -/
def defaultPlaces : Int := 50

/-- The corrections are repeated at most this often. -/
def sweepLimit : Nat := 200

/-- The value at a point of coefficients listed by decreasing power. -/
def evaluate (precision : Nat) (coefficients : List BigComplex) (point : BigComplex) :
    BigComplex :=
  match coefficients with
  | [] => BigComplex.zero
  | leading :: lower =>
      lower.foldl (fun result coefficient =>
        coefficient.add precision (point.mul precision result)) leading

/-- A root that coincides with the corrected one is passed over. -/
def correction (precision : Nat) (coefficients : List BigComplex) (root : BigComplex)
    (others : List BigComplex) : BigComplex :=
  others.foldl
    (fun result other =>
      let distance := root.sub precision other
      if distance.isZero then result else result.div precision distance)
    (evaluate precision coefficients root)

/-- Corrects the roots from left to right; those before `rest` are corrected already. Each root
comes with the size of its correction. -/
def sweep (precision : Nat) (coefficients : List BigComplex) (corrected : List (BigComplex × BigFloat)) :
    (rest : List BigComplex) → List (BigComplex × BigFloat)
  | [] => corrected
  | root :: rest =>
      let change := correction precision coefficients root (corrected.map Prod.fst ++ rest)
      sweep precision coefficients
        (corrected ++ [(root.sub precision change, change.abs precision)]) rest

/-- A later size replaces the largest one so far only if it compares as larger. -/
def largest (sizes : List BigFloat) : BigFloat :=
  match sizes with
  | [] => BigFloat.zero
  | first :: rest => rest.foldl (fun best size => if best.less size then size else best) first

/-- Sweeps until all corrections are below the tolerance; the second component is the largest
correction of the last sweep. -/
def iterate (precision : Nat) (tolerance : BigFloat) (coefficients : List BigComplex) :
    (fuel : Nat) → (roots : List BigComplex) → (size : BigFloat) → List BigComplex × BigFloat
  | 0, roots, size => (roots, size)
  | fuel + 1, roots, size =>
      if size.less tolerance then (roots, size)
      else
        let corrected := sweep precision coefficients [] roots
        iterate precision tolerance coefficients fuel (corrected.map Prod.fst)
          (largest (corrected.map Prod.snd))

/-- Parts below the tolerance are taken for zero. -/
def clean (precision : Nat) (tolerance : BigFloat) (root : BigComplex) : BigComplex :=
  if (root.abs precision).less tolerance then BigComplex.zero
  else if root.im.abs.less tolerance then ⟨root.re, BigFloat.zero⟩
  else if root.re.abs.less tolerance then ⟨BigFloat.zero, root.im⟩
  else root

/-- The first roots are the powers of one number that is neither real nor on the unit circle. -/
def starts (count : Nat) : Except Fault (List BigComplex) :=
  (List.range count).mapM fun exponent => do
    let (re, im) ← Number.complexPower (0.4, 0.9) exponent
    return .ofFloats re im

/-- Coefficients with a leading one, by decreasing power. -/
def monic (precision : Nat) (leading : BigComplex) (coefficients : List BigComplex) :
    Except Fault (List BigComplex) :=
  if leading.isZero then .error (.divisionByZero .bigComplex)
  else if leading.im.isZero && leading.re.same (.ofInt 1) then .ok coefficients
  else if leading.im.isZero then
    .ok (coefficients.map fun coefficient => coefficient.shrink precision leading.re)
  else .ok (coefficients.map fun coefficient => coefficient.div precision leading)

/-- The roots of coefficients listed by decreasing power, at the given number of decimal places. -/
def find (places : Int) (coefficients : List BigComplex) : Except Fault (List BigComplex) :=
  let precision := binaryDigits places
  let working := 3 * precision
  let tolerance := BigFloat.finite 1 (1 - precision)
  match coefficients with
  | [] => .error .zeroPolynomial
  | [constant] => if constant.isZero then .error .zeroPolynomial else .ok []
  | leading :: _ => do
      let coefficients ← monic working leading coefficients
      let first ← starts (coefficients.length - 1)
      let (roots, size) :=
        iterate working tolerance coefficients sweepLimit first (.ofInt 1)
      if tolerance.less size || tolerance.same size then .error (.noConvergence sweepLimit)
      else return roots.map fun root => (clean working tolerance root).round precision

end TrigAlgebra.SimultaneousRoots
