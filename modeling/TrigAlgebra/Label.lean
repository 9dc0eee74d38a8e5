/-
This file defines what can be offered where a name is expected.
-/

namespace TrigAlgebra

inductive Label where
  | text (value : String)
  | integer (value : Int)
  | nothing
deriving DecidableEq, Repr

end TrigAlgebra
