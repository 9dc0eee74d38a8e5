/-
This file makes numbers coefficients.
-/

import TrigAlgebra.Coefficient
import TrigAlgebra.Number.Circular
import TrigAlgebra.Number.Power
import TrigAlgebra.Number.Text

namespace TrigAlgebra

instance : Coefficient Number where
  zero := .real 0.0
  one := .real 1.0
  ofInt := .integer
  add := Number.add
  mul := Number.mul
  div := Number.div
  pow := Number.pow
  neg := Number.neg
  circular := Number.circular
  same := Number.same
  integer? := Number.integer?
  text := Number.coefficientText

end TrigAlgebra
