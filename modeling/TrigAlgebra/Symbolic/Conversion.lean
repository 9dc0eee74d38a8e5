/-
This file turns polynomials into symbolic expressions and back.
-/

import TrigAlgebra.Number.Coefficient
import TrigAlgebra.Polynomial.Basic
import TrigAlgebra.Symbolic.Expression

namespace TrigAlgebra

open Symbolic

/-- The big kinds of numbers have no symbolic form of their own and are rounded. -/
def Number.toScalar : Number → Scalar
  | .integer value => .ofInt value
  | .real value => .real value
  | .complex re im => .complex re im
  | .bigReal value => .real value.toFloat
  | .bigComplex value => .complex value.re.toFloat value.im.toFloat

def Factor.toExpression (factor : Factor) : Except Fault Expression := do
  let name ← NamingTable.render {} factor.var
  return .pow (.symbol name) (.number (.ofInt factor.power))

def Monomial.toExpression (monomial : Monomial Number) : Except Fault Expression := do
  let factors ← monomial.powers.factors.mapM Factor.toExpression
  return factors.foldl .mul (.number monomial.coefficient.toScalar)

/-- Every variable is written as a symbol with its index. -/
def Polynomial.toExpression (polynomial : Polynomial Number) : Except Fault Expression :=
  polynomial.monomials.foldlM
    (fun expression monomial => return .add expression (← monomial.toExpression))
    (.number .zero)

namespace Symbolic

/-- Only positive integer powers of variables are factors of a monomial. -/
def factorOfPower (power : Atom × Rat) : Except Fault Factor :=
  match power.1 with
  | .compound _ => .error .notPolynomial
  | .variable name =>
      if natural : power.2.den = 1 ∧ 0 < power.2.num then do
        let (stem, index) ← NamingTable.split {} name
        let var ← NamingTable.encode {} stem index
        return ⟨var, power.2.num.toNat, by omega⟩
      else .error .notPolynomial

/-- The coefficient is rounded before the powers are read. -/
def monomialOfTerm (term : Powers × Scalar) : Except Fault (Monomial Number) :=
  match term.2.toNumber? with
  | none => .error .unevaluable
  | some number => do
      let coefficient ← if term.2.isOne then pure (.real 1.0) else Number.mul (.real 1.0) number
      let factors ← term.1.mapM factorOfPower
      return ⟨coefficient, .ofFactors factors⟩

/-- Spellings of one variable are brought together. -/
def Sum.toPolynomial (sum : Sum) : Except Fault (Polynomial Number) := do
  Polynomial.ofMonomials (← sum.allTerms.mapM monomialOfTerm)

def Expression.toPolynomial (expression : Expression) : Except Fault (Polynomial Number) :=
  expression.expand.toPolynomial

end Symbolic

end TrigAlgebra
