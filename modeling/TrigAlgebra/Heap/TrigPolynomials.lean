/-
This file computes with trigonometric polynomials that are kept in memory. A sine or cosine is expanded
with copies and new polynomials, some of which are then changed in place.
-/

import TrigAlgebra.Heap.Polynomials
import TrigAlgebra.TrigPolynomial.Expansion

namespace TrigAlgebra.Program

open TrigAlgebra.TrigPolynomial (checkArgument placeholders)

/-- A new trigonometric polynomial on a copy of a polynomial and with an angle map of its own. -/
def wrap (place : Place) (angles : AngleMap) : Program TrigPlace := do
  return ⟨← copy place, ← newAngles angles⟩

/-- A new trigonometric polynomial on a new polynomial that is written out. -/
def buildTrig (trig : TrigPolynomial Number) : Program TrigPlace := do
  return ⟨← build trig.polynomial, ← newAngles trig.angles⟩

/-- Polynomial and map are both copied. -/
def copyTrig (place : TrigPlace) : Program TrigPlace := do
  wrap place.polynomial (← read fun heap => heap.angles place.angles)

/-- The angles of the other operand are written into the map, once the polynomial has been changed. -/
def joinAngles (place other : TrigPlace) : Program Unit := do
  let added ← read fun heap => heap.angles other.angles
  write fun heap => heap.writeAngles place.angles ((heap.angles place.angles).update added)

/-- The polynomial is added to in place, and then the map takes the other one in. -/
def addTrigTo (place other : TrigPlace) : Program Unit := do
  addTo place.polynomial other.polynomial
  joinAngles place other

def subtractTrigFrom (place other : TrigPlace) : Program Unit := do
  subtractFrom place.polynomial other.polynomial
  joinAngles place other

def multiplyTrigBy (place other : TrigPlace) : Program Unit := do
  multiplyBy place.polynomial other.polynomial
  joinAngles place other

def addTrig (first second : TrigPlace) : Program TrigPlace :=
  editNew (copyTrig first) fun fresh => addTrigTo fresh second

def subtractTrig (first second : TrigPlace) : Program TrigPlace :=
  editNew (copyTrig first) fun fresh => subtractTrigFrom fresh second

def multiplyTrig (first second : TrigPlace) : Program TrigPlace :=
  editNew (copyTrig first) fun fresh => multiplyTrigBy fresh second

def negTrig (place : TrigPlace) : Program TrigPlace := do
  let negated ← neg place.polynomial
  wrap negated (← read fun heap => heap.angles place.angles)

/-- Sine and cosine of one more than a multiple of an angle. -/
def addAngle (sine cosine : TrigPlace) (multiple : TrigPlace × TrigPlace) :
    Program (TrigPlace × TrigPlace) := do
  let sineCosine ← multiplyTrig multiple.1 cosine
  let cosineSine ← multiplyTrig multiple.2 sine
  let nextSine ← addTrig sineCosine cosineSine
  let cosineCosine ← multiplyTrig multiple.2 cosine
  let sineSine ← multiplyTrig multiple.1 sine
  let nextCosine ← subtractTrig cosineCosine sineSine
  return (nextSine, nextCosine)

def addAngles (sine cosine : TrigPlace) : Nat → Program (TrigPlace × TrigPlace)
  | 0 => pure (sine, cosine)
  | additions + 1 => do addAngle sine cosine (← addAngles sine cosine additions)

/-- A new trigonometric polynomial of the given monomials. -/
def wrapMonomials (monomials : List (Monomial Number)) (angles : AngleMap) : Program TrigPlace := do
  wrap (← ofMonomials monomials) angles

def wrapVariable (var : Int) (angles : AngleMap) : Program TrigPlace :=
  wrapMonomials [⟨Coefficient.one, .ofFactor (.linear var)⟩] angles

/-- Sine and cosine are multiplied up together from new ones. -/
def multipleAngle (function : Circular) (angles : AngleMap) (monomial : Monomial Number)
    (found : Placeholders) (multiple : Int) : Program TrigPlace := do
  let sine ← wrapVariable found.sine angles
  let cosine ← wrapVariable found.cosine angles
  let shown ← monomial.text
  let additions := multiple.natAbs - 1
  Traced.note ("Expanding " ++ function.name ++ "(" ++ shown ++ ") by " ++
    Text.writeInteger additions ++ " angle additions")
  let (sine, cosine) ← addAngles sine cosine additions
  let sine ← if multiple < 0 then negTrig sine else pure sine
  return match function with
    | .sine => sine
    | .cosine => cosine

/-- The angle variable is renamed in place, in the polynomial of a copy. -/
def singleAngle (function : Circular) (place : TrigPlace) (var : Int) (found : Placeholders)
    (multiple : Int) : Program TrigPlace :=
  editNew (copyTrig place) fun fresh => do
    renameIn fresh.polynomial var (found.of function)
    if function = .cosine ∧ multiple = -1 then scaleBy fresh.polynomial (Coefficient.ofInt (-1))

/-- The sine or cosine of a single monomial; the original is never written. -/
def expandMonomial (function : Circular) (place : TrigPlace) (monomial : Monomial Number) :
    Program TrigPlace := do
  let angles ← read fun heap => heap.angles place.angles
  match monomial.powers.factors with
  | [] => buildTrig (.constant (← Coefficient.circular function monomial.coefficient) angles)
  | factor :: _ =>
      if Coefficient.isZero monomial.coefficient then
        buildTrig (.constant (← Coefficient.circular function (Coefficient.zero : Number)) angles)
      else
        let (found, multiple) ← placeholders function angles factor.var monomial
        if multiple.natAbs = 1 then singleAngle function place factor.var found multiple
        else multipleAngle function angles monomial found multiple

/-- The formula for the sum of two angles, each of which is expanded whenever it is needed. -/
def sumFormula (function : Circular) (expandFirst expandRest : Circular → Program TrigPlace) :
    Program TrigPlace :=
  match function with
  | .sine => do
      let left ← multiplyTrig (← expandFirst .sine) (← expandRest .cosine)
      let right ← multiplyTrig (← expandFirst .cosine) (← expandRest .sine)
      addTrig left right
  | .cosine => do
      let left ← multiplyTrig (← expandFirst .cosine) (← expandRest .cosine)
      let right ← multiplyTrig (← expandFirst .sine) (← expandRest .sine)
      subtractTrig left right

/-- The first monomial and the others, as new trigonometric polynomials. -/
def split (place : TrigPlace) (first : Monomial Number) (others : List (Monomial Number)) :
    Program (TrigPlace × TrigPlace) := do
  let angles ← read fun heap => heap.angles place.angles
  let first ← wrapMonomials [first] angles
  let rest ← wrapMonomials others angles
  return (first, rest)

/-- A sine or cosine whose sum is taken apart at most as often as `depth` tells. Every part is shorter, so
that a list as long as the depth is taken apart completely. -/
def expandWithin (function : Circular) (place : TrigPlace) : (depth : Nat) → Program TrigPlace
  | 0 => copyTrig place
  | depth + 1 => do
      let trig ← read fun heap => heap.trig place
      checkArgument function trig
      match trig.polynomial.monomials with
      | [] => buildTrig (.constant (← Coefficient.circular function (Coefficient.zero : Number)) trig.angles)
      | [monomial] => expandMonomial function place monomial
      | monomial :: second :: others =>
          let (first, rest) ← split place monomial (second :: others)
          let shown ← trig.polynomial.text
          Traced.note ("Expanding " ++ function.name ++ "(" ++ shown ++ ")")
          sumFormula function (fun part => expandWithin part first depth)
            (fun part => expandWithin part rest depth)

/-- A sum is taken apart at most as often as it has monomials. -/
def expand (function : Circular) (place : TrigPlace) : Program TrigPlace := do
  let count ← read fun heap => (heap.polynomial place.polynomial).monomials.length
  expandWithin function place (count + 1)

end TrigAlgebra.Program
