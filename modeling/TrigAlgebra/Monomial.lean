/-
This file defines products of a coefficient and powers of variables.
-/

import TrigAlgebra.Coefficient
import TrigAlgebra.PowerProduct

namespace TrigAlgebra

structure Monomial (K : Type) where
  coefficient : K
  powers : PowerProduct

namespace Monomial

variable {K : Type}

def constant (coefficient : K) : Monomial K := ⟨coefficient, .one⟩

/-- Powers of one variable are added, and a power below one is refused. -/
def create (coefficient : K) (powers : List (Int × Int)) : Except Fault (Monomial K) := do
  let factors ← powers.mapM fun power => Factor.make power.1 power.2
  return ⟨coefficient, .ofFactors factors⟩

def isConstant (monomial : Monomial K) : Bool := monomial.powers.isOne

def degree (monomial : Monomial K) : Nat := monomial.powers.degree

def degreeOf (monomial : Monomial K) (var : Int) : Nat := monomial.powers.degreeOf var

def sameExponents (first second : Monomial K) : Bool := first.powers == second.powers

def withCoefficient (monomial : Monomial K) (coefficient : K) : Monomial K :=
  ⟨coefficient, monomial.powers⟩

def rename (old new : Int) (monomial : Monomial K) : Monomial K :=
  ⟨monomial.coefficient, monomial.powers.rename old new⟩

variable [Coefficient K]

open Coefficient

def neg (monomial : Monomial K) : Monomial K :=
  ⟨Coefficient.neg monomial.coefficient, monomial.powers⟩

def scaled (monomial : Monomial K) (scalar : K) : Except Fault (Monomial K) :=
  (Coefficient.mul monomial.coefficient scalar).map monomial.withCoefficient

def mul (first second : Monomial K) : Except Fault (Monomial K) :=
  (Coefficient.mul first.coefficient second.coefficient).map fun coefficient =>
    ⟨coefficient, first.powers.mul second.powers⟩

def divideScalar (monomial : Monomial K) (scalar : K) : Except Fault (Monomial K) :=
  (Coefficient.div monomial.coefficient scalar).map monomial.withCoefficient

/-- The coefficients are divided only if the powers can be. -/
def divide? (monomial divisor : Monomial K) : Except Fault (Option (Monomial K)) :=
  match monomial.powers.divide? divisor.powers with
  | none => .ok none
  | some powers =>
      (Coefficient.div monomial.coefficient divisor.coefficient).map fun coefficient =>
        some ⟨coefficient, powers⟩

/-- Equal monomials have the same powers and coefficients of the same value. -/
def same (first second : Monomial K) : Bool :=
  Coefficient.same first.coefficient second.coefficient && first.powers == second.powers

/-- A coefficient of one is written only on its own. -/
def text (monomial : Monomial K) : Except Fault String :=
  if monomial.isConstant then Coefficient.text monomial.coefficient
  else do
    let factors ← monomial.powers.text
    if isOne monomial.coefficient then return factors
    else return (← Coefficient.text monomial.coefficient) ++ "*" ++ factors

end Monomial

end TrigAlgebra
