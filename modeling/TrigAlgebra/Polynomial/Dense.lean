/-
This file lists the coefficients of a polynomial in one variable by power, and evaluates such a
list.
-/

import TrigAlgebra.Polynomial.Basic

namespace TrigAlgebra

variable {K : Type} [Coefficient K]

namespace Polynomial

/-- Each monomial writes its coefficient into the slot of its leading power; the other slots hold
zero. -/
def denseSlots (polynomial : Polynomial K) : List K :=
  polynomial.monomials.foldl
    (fun slots monomial => slots.set monomial.powers.leadingPower monomial.coefficient)
    (List.replicate (polynomial.degree + 1) Coefficient.zero)

def dense (polynomial : Polynomial K) : Except Fault (List K) :=
  (polynomial.requireUnivariate "get_coefficients").map fun _ => polynomial.denseSlots

end Polynomial

namespace Horner

/-- One step multiplies by the point and adds the next lower coefficient. -/
def step (point result coefficient : K) : Except Fault K := do
  Coefficient.add (← Coefficient.mul result point) coefficient

/-- Starts from an accumulator above the highest power. -/
def fromStart (start point : K) (coefficients : List K) : Except Fault K :=
  coefficients.reverse.foldlM (step point) start

/-- Starts from the coefficient of the highest power; there is no value without coefficients. -/
def fromLeading (point : K) (coefficients : List K) : Option (Except Fault K) :=
  match coefficients.reverse with
  | [] => none
  | leading :: lower => some (lower.foldlM (step point) leading)

end Horner

end TrigAlgebra
