/-
This file names the two circular functions.
-/

namespace TrigAlgebra

inductive Circular where
  | sine
  | cosine
deriving DecidableEq, Repr

/-- The short name by which messages call the function. -/
def Circular.name : Circular → String
  | .sine => "sin"
  | .cosine => "cos"

end TrigAlgebra
