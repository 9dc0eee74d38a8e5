/-
This file adds, subtracts, multiplies, divides and raises polynomials.
-/

import TrigAlgebra.Edit
import TrigAlgebra.Polynomial.Basic

namespace TrigAlgebra.Polynomial

variable {K : Type} [Coefficient K]

/-- The monomials are written first and merged afterwards, so a merging that fails leaves them
as they were written, with the old flag. -/
def mergeFrom (polynomial : Polynomial K) (monomials : List (Monomial K)) : Edit (Polynomial K) :=
  match merge monomials with
  | .ok merged => .done ⟨merged, isUnivariate merged⟩
  | .error fault => .failed fault ⟨monomials, polynomial.univariate⟩

/-- The monomials are exchanged without merging them, if all can be computed. -/
def exchange (polynomial : Polynomial K) (monomials : Except Fault (List (Monomial K))) :
    Edit (Polynomial K) :=
  .ofResult polynomial (monomials.map fun new => { polynomial with monomials := new })

def negated (monomials : List (Monomial K)) : List (Monomial K) :=
  monomials.map Monomial.neg

/-- Every monomial of the first list times every one of the second, in that order. -/
def products (first second : List (Monomial K)) : Except Fault (List (Monomial K)) :=
  (first.flatMap fun left => second.map fun right => (left, right)).mapM fun pair =>
    pair.1.mul pair.2

def addTo (polynomial other : Polynomial K) : Edit (Polynomial K) :=
  polynomial.mergeFrom (polynomial.monomials ++ other.monomials)

def subtractFrom (polynomial other : Polynomial K) : Edit (Polynomial K) :=
  polynomial.mergeFrom (polynomial.monomials ++ negated other.monomials)

def multiplyBy (polynomial other : Polynomial K) : Edit (Polynomial K) :=
  match products polynomial.monomials other.monomials with
  | .ok monomials => polynomial.mergeFrom monomials
  | .error fault => .failed fault polynomial

/-- The scalar joins the first constant monomial, or becomes one at the end. -/
def addConstant (scalar : K) : List (Monomial K) → Except Fault (List (Monomial K))
  | [] => .ok [.constant scalar]
  | head :: rest =>
      if head.isConstant then
        (Coefficient.add head.coefficient scalar).map fun coefficient =>
          head.withCoefficient coefficient :: rest
      else (addConstant scalar rest).map (head :: ·)

def addScalarTo (polynomial : Polynomial K) (scalar : K) : Edit (Polynomial K) :=
  polynomial.exchange (addConstant scalar polynomial.monomials)

def subtractScalarFrom (polynomial : Polynomial K) (scalar : K) : Edit (Polynomial K) :=
  polynomial.addScalarTo (Coefficient.neg scalar)

def scaleBy (polynomial : Polynomial K) (scalar : K) : Edit (Polynomial K) :=
  polynomial.exchange (polynomial.monomials.mapM fun monomial => monomial.scaled scalar)

def divideBy (polynomial : Polynomial K) (scalar : K) : Edit (Polynomial K) :=
  polynomial.exchange (polynomial.monomials.mapM fun monomial => monomial.divideScalar scalar)

def add (first second : Polynomial K) : Except Fault (Polynomial K) :=
  (first.addTo second).result

def sub (first second : Polynomial K) : Except Fault (Polynomial K) :=
  (first.subtractFrom second).result

def mul (first second : Polynomial K) : Except Fault (Polynomial K) :=
  (first.multiplyBy second).result

def addScalar (polynomial : Polynomial K) (scalar : K) : Except Fault (Polynomial K) :=
  (polynomial.addScalarTo scalar).result

def subScalar (polynomial : Polynomial K) (scalar : K) : Except Fault (Polynomial K) :=
  (polynomial.subtractScalarFrom scalar).result

def scale (polynomial : Polynomial K) (scalar : K) : Except Fault (Polynomial K) :=
  (polynomial.scaleBy scalar).result

def divide (polynomial : Polynomial K) (scalar : K) : Except Fault (Polynomial K) :=
  (polynomial.divideBy scalar).result

def neg (polynomial : Polynomial K) : Polynomial K :=
  { polynomial with monomials := negated polynomial.monomials }

/-- A power is a repeated product that starts from the constant one. -/
def pow (polynomial : Polynomial K) : Nat → Except Fault (Polynomial K)
  | 0 => .ok (constant Coefficient.one)
  | exponent + 1 => do (← polynomial.pow exponent).mul polynomial

end TrigAlgebra.Polynomial
