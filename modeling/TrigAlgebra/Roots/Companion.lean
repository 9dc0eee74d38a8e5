/-
This file builds the companion matrix of a list of coefficients.
-/

import TrigAlgebra.Coefficient

namespace TrigAlgebra.Companion

variable {K : Type} [Coefficient K]

/-- The last column holds the lower coefficients over the leading one, with changed sign. -/
def lastColumn (coefficients : List K) : Except Fault (List K) :=
  match coefficients.reverse with
  | [] => .ok []
  | leading :: lower =>
      lower.reverse.mapM fun coefficient => Coefficient.div (Coefficient.neg coefficient) leading

/-- Ones stand below the diagonal and zeros everywhere else outside the last column. -/
def entry (column : List K) (row col : Nat) : K :=
  if col + 1 = column.length then column.getD row Coefficient.zero
  else if row = col + 1 then Coefficient.one
  else Coefficient.zero

def rows (column : List K) : List (List K) :=
  (List.range column.length).map fun row =>
    (List.range column.length).map fun col => entry column row col

/-- The rows of the matrix whose eigenvalues are the roots of the coefficients, which are listed
by increasing power. -/
def matrix (coefficients : List K) : Except Fault (List (List K)) :=
  (lastColumn coefficients).map rows

end TrigAlgebra.Companion
