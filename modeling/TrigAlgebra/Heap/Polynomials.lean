/-
This file computes with polynomials that are kept in memory: operations in place change lists or point to
new ones, and the other operations work on copies of their own.
-/

import TrigAlgebra.Heap.Basic
import TrigAlgebra.Polynomial.Calculus
import TrigAlgebra.Polynomial.Substitution

namespace TrigAlgebra.Program

open TrigAlgebra.Polynomial (isUnivariate)

/-- The polynomial gets a new list of its own. -/
def assign (place : Place) (monomials : List (Monomial Number)) : Program Unit := do
  let list ← newList monomials
  write fun heap => heap.pointTo place list

/-- A polynomial without monomials. -/
def newPolynomial : Program Place := do
  newCell ⟨← newList [], true⟩

/-- Nothing is written unless the coefficients can be added. -/
def mergeList (place : Place) : Program Unit := do
  let polynomial ← read fun heap => heap.polynomial place
  let merged ← Polynomial.merge polynomial.monomials
  assign place merged
  write fun heap => heap.writeFlag place (isUnivariate merged)

/-- The monomials are appended to the list in place, before they are merged. -/
def addTo (place other : Place) : Program Unit := do
  let added ← read fun heap => (heap.polynomial other).monomials
  write fun heap => heap.writeList place ((heap.polynomial place).monomials ++ added)
  mergeList place

/-- A polynomial subtracted from itself ends here, as the list that is read is the one from before. Read
while it grows, the list would never come to an end. -/
def subtractFrom (place other : Place) : Program Unit := do
  let subtracted ← read fun heap => (heap.polynomial other).monomials
  write fun heap =>
    heap.writeList place ((heap.polynomial place).monomials ++ Polynomial.negated subtracted)
  mergeList place

/-- All products are computed before the list is replaced. -/
def multiplyBy (place other : Place) : Program Unit := do
  let left ← read fun heap => (heap.polynomial place).monomials
  let right ← read fun heap => (heap.polynomial other).monomials
  assign place (← Polynomial.products left right)
  mergeList place

/-- The constant monomial is exchanged, or appended, in the list itself. -/
def addScalarTo (place : Place) (scalar : Number) : Program Unit := do
  let monomials ← read fun heap => (heap.polynomial place).monomials
  let changed ← Polynomial.addConstant scalar monomials
  write fun heap => heap.writeList place changed

def scaleBy (place : Place) (scalar : Number) : Program Unit := do
  let monomials ← read fun heap => (heap.polynomial place).monomials
  assign place (← (monomials.mapM fun monomial => monomial.scaled scalar : Except Fault _))

/-- Coefficients are all divided before the list is replaced. -/
def divideBy (place : Place) (scalar : Number) : Program Unit := do
  let monomials ← read fun heap => (heap.polynomial place).monomials
  assign place (← (monomials.mapM fun monomial => monomial.divideScalar scalar : Except Fault _))

/-- The renamed monomials replace the list, which is then merged. -/
def renameIn (place : Place) (old new : Int) : Program Unit := do
  let monomials ← read fun heap => (heap.polynomial place).monomials
  assign place (monomials.map (Monomial.rename old new))
  mergeList place

/-- The operation in place on something new, which only becomes known when the operation succeeds. -/
def editNew {A : Type} (start : Program A) (edit : A → Program Unit) : Program A := do
  let fresh ← start
  edit fresh
  return fresh

/-- A new polynomial with a list of its own. -/
def copy (place : Place) : Program Place :=
  editNew newPolynomial fun fresh => do
    assign fresh (← read fun heap => (heap.polynomial place).monomials)
    let flag ← read fun heap => (heap.polynomial place).univariate
    write fun heap => heap.writeFlag fresh flag

/-- A new polynomial of the given monomials, merged. -/
def ofMonomials (monomials : List (Monomial Number)) : Program Place :=
  editNew newPolynomial fun fresh => do
    assign fresh monomials
    mergeList fresh

/-- A new polynomial that is written out. -/
def build (polynomial : Polynomial Number) : Program Place :=
  editNew newPolynomial fun fresh => do
    write fun heap => heap.writeList fresh polynomial.monomials
    write fun heap => heap.writeFlag fresh polynomial.univariate

/-- The coefficients of a copy, all negated. -/
def neg (place : Place) : Program Place :=
  editNew (copy place) fun fresh => do
    assign fresh (Polynomial.negated (← read fun heap => (heap.polynomial fresh).monomials))

/-- The factor is multiplied in place that often. -/
def multiplyTimes (place factor : Place) : Nat → Program Unit
  | 0 => pure ()
  | times + 1 => do
      multiplyTimes place factor times
      multiplyBy place factor

/-- A power is a repeated product, in place, on a new polynomial that starts as one. -/
def pow (place : Place) (exponent : Nat) : Program Place :=
  editNew (build (.constant Coefficient.one)) fun fresh => multiplyTimes fresh place exponent

/-- Nothing of the polynomial is shared with the result. -/
def evaluatePartial (place : Place) (values : Assignment Number) : Program Place := do
  let monomials ← read fun heap => (heap.polynomial place).monomials
  ofMonomials (← (monomials.mapM (Monomial.substitute values) : Except Fault _))

def derivative (place : Place) (order : Int) : Program Place := do
  let polynomial ← read fun heap => heap.polynomial place
  polynomial.requireUnivariate "derivative"
  if order < 0 then fail ((Fault.orderBelowZero order).showing [order])
  else if order = 0 then copy place
  else
    let monomials ← (polynomial.monomials.mapM (Monomial.derivative? order.toNat) : Except Fault _)
    ofMonomials (monomials.filterMap id)

/-- The constant is one more monomial of the new polynomial. -/
def integral (place : Place) (constant : Number) : Program Place := do
  let polynomial ← read fun heap => heap.polynomial place
  polynomial.requireUnivariate "integral"
  let monomials ← (polynomial.monomials.mapM (Polynomial.integralOf polynomial.vars) : Except Fault _)
  ofMonomials (monomials ++ [.constant constant])

end TrigAlgebra.Program
