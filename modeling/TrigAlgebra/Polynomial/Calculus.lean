/-
This file differentiates and integrates polynomials in one variable.
-/

import TrigAlgebra.Polynomial.Basic

namespace TrigAlgebra

variable {K : Type} [Coefficient K]

/-- The coefficient times `power`, `power - 1` and so on, for the given number of factors. -/
def Monomial.fallingProduct (coefficient : K) (power : Nat) : (order : Nat) → Except Fault K
  | 0 => .ok coefficient
  | order + 1 => do
      let product ← Coefficient.mul coefficient (Coefficient.ofInt power)
      fallingProduct product (power - 1) order

/-- A power of the variable, or no factor at all for the power zero. -/
def PowerProduct.power (var : Int) (power : Nat) : PowerProduct :=
  if positive : 0 < power then .ofFactor ⟨var, power, positive⟩ else .one

/-- A monomial whose power is below the order vanishes. -/
def Monomial.derivative? (order : Nat) (monomial : Monomial K) :
    Except Fault (Option (Monomial K)) :=
  match monomial.powers.factors with
  | [] => .ok none
  | factor :: _ =>
      if factor.power < order then .ok none
      else
        (fallingProduct monomial.coefficient factor.power order).map fun coefficient =>
          some ⟨coefficient, .power factor.var (factor.power - order)⟩

namespace Polynomial

def derivative (polynomial : Polynomial K) (order : Int) : Except Fault (Polynomial K) := do
  polynomial.requireUnivariate "derivative"
  if order < 0 then .error ((Fault.orderBelowZero order).showing [order])
  else if order = 0 then return polynomial
  else
    let monomials ← polynomial.monomials.mapM (Monomial.derivative? order.toNat)
    ofMonomials (monomials.filterMap id)

/-- A constant becomes a multiple of the first variable, if there is one. -/
def integralOf (vars : List Int) (monomial : Monomial K) : Except Fault (Monomial K) :=
  match monomial.powers.factors with
  | [] =>
      match vars with
      | [] => .error .noIntegrationVariable
      | var :: _ => .ok ⟨monomial.coefficient, .ofFactor (.linear var)⟩
  | factor :: _ =>
      (Coefficient.div monomial.coefficient (Coefficient.ofInt (factor.power + 1))).map
        fun coefficient => ⟨coefficient, .power factor.var (factor.power + 1)⟩

/-- The constant of integration comes last. -/
def integral (polynomial : Polynomial K) (constant : K) : Except Fault (Polynomial K) := do
  polynomial.requireUnivariate "integral"
  let monomials ← polynomial.monomials.mapM (integralOf polynomial.vars)
  ofMonomials (monomials ++ [.constant constant])

end Polynomial

end TrigAlgebra
