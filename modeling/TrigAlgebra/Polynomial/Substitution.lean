/-
This file renames variables of a polynomial and gives values to some or all of them.
-/

import TrigAlgebra.Polynomial.Arithmetic

namespace TrigAlgebra

/-- The values given to variables. -/
def Assignment (K : Type) : Type := Int → Option K

namespace Assignment

variable {K : Type}

def empty : Assignment K := fun _ => none

def set (values : Assignment K) (var : Int) (value : K) : Assignment K := fun other =>
  if other = var then some value else values other

/-- Of two values for one variable the later one counts. -/
def ofList (pairs : List (Int × K)) : Assignment K :=
  pairs.foldl (fun values pair => values.set pair.1 pair.2) empty

end Assignment

variable {K : Type} [Coefficient K]

/-- Each factor with a value is multiplied into the coefficient, in the order of the factors. -/
def Monomial.foldValues (values : Assignment K) (coefficient : K) :
    List Factor → Except Fault K
  | [] => .ok coefficient
  | factor :: rest =>
      match values factor.var with
      | none => foldValues values coefficient rest
      | some value => do
          let power ← Coefficient.pow value factor.power
          foldValues values (← Coefficient.mul coefficient power) rest

/-- The factors with a value are multiplied into the coefficient. -/
def Monomial.substitute (values : Assignment K) (monomial : Monomial K) :
    Except Fault (Monomial K) :=
  (foldValues values monomial.coefficient monomial.powers.factors).map fun coefficient =>
    ⟨coefficient, monomial.powers.filter fun factor => (values factor.var).isNone⟩

/-- Every variable needs a value; the first one without ends the evaluation. -/
def Monomial.evaluateFactors (values : Assignment K) (result : K) :
    List Factor → Except Fault K
  | [] => .ok result
  | factor :: rest =>
      match values factor.var with
      | none => .error (.valueMissing factor.var)
      | some value => do
          let power ← Coefficient.pow value factor.power
          evaluateFactors values (← Coefficient.mul result power) rest

def Monomial.evaluate (values : Assignment K) (monomial : Monomial K) : Except Fault K :=
  evaluateFactors values monomial.coefficient monomial.powers.factors

namespace Polynomial

def renameIn (polynomial : Polynomial K) (old new : Int) : Edit (Polynomial K) :=
  polynomial.mergeFrom (polynomial.monomials.map (Monomial.rename old new))

def rename (polynomial : Polynomial K) (old new : Int) : Except Fault (Polynomial K) :=
  (polynomial.renameIn old new).result

/-- Variables without a value stay, and monomials that become alike are merged. -/
def evaluatePartial (polynomial : Polynomial K) (values : Assignment K) :
    Except Fault (Polynomial K) := do
  ofMonomials (← polynomial.monomials.mapM (Monomial.substitute values))

/-- The values of the monomials are added from zero on, in order. -/
def sumValues (values : Assignment K) (result : K) : List (Monomial K) → Except Fault K
  | [] => .ok result
  | monomial :: rest => do
      let value ← monomial.evaluate values
      sumValues values (← Coefficient.add result value) rest

/-- All variables that have no value are named together. -/
def evaluate (polynomial : Polynomial K) (values : Assignment K) : Except Fault K :=
  let missing := polynomial.vars.filter fun var => (values var).isNone
  if missing.isEmpty then sumValues values Coefficient.zero polynomial.monomials
  else .error ((Fault.valuesMissing missing).showing missing)

end Polynomial

end TrigAlgebra
