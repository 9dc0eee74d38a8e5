/-
This file writes numbers.
-/

import TrigAlgebra.Number.Basic
import TrigAlgebra.BigFloat.Text

namespace TrigAlgebra.Number

/-- The significant digits to which a real coefficient is written. -/
def coefficientDigits : Nat := 6

/-- The significant digits to which a big number is written in full. -/
def bigDigits : Nat := 15

/-- The significant digits of a big number from which it can be read back. -/
def quotedDigits : Nat := 17

def imaginaryText (value : Float) : String :=
  Decimal.shortestText false value ++ "j"

/-- A real part that is zero and not negative is left out, together with the brackets. -/
def complexText (re im : Float) : String :=
  if re == 0.0 && !Binary64.isNegative re then imaginaryText im
  else
    let sign := if Binary64.isNegative im && !im.isNaN then "" else "+"
    "(" ++ Decimal.shortestText false re ++ sign ++ imaginaryText im ++ ")"

/-- The sign stands apart from the size of the imaginary part. -/
def bigComplexText (value : BigComplex) : String :=
  let sign := if value.im.isNegative then " - " else " + "
  "(" ++ value.re.text bigDigits ++ sign ++ value.im.abs.text bigDigits ++ "j)"

/-- The full form of a number. -/
def text : Number → Except Fault String
  | .integer value => Text.writeLimited value
  | .real value => .ok (Decimal.shortestText true value)
  | .complex re im => .ok (complexText re im)
  | .bigReal value => .ok (value.text bigDigits)
  | .bigComplex value => .ok (bigComplexText value)

/-- The form in which a number is quoted in a message. -/
def quoted : Number → Except Fault String
  | .bigReal value => .ok ("mpf('" ++ value.text quotedDigits ++ "')")
  | .bigComplex value => .ok
      ("mpc(real='" ++ value.re.text quotedDigits ++ "', imag='" ++ value.im.text quotedDigits ++ "')")
  | value => value.text

/-- Real coefficients are written with few digits, an integer only if it can be rounded. -/
def coefficientText : Number → Except Fault String
  | .integer value => (floatOfInt value).map (Decimal.generalText coefficientDigits)
  | .real value => .ok (Decimal.generalText coefficientDigits value)
  | .bigReal value => .ok (value.generalText coefficientDigits)
  | value => value.text

end TrigAlgebra.Number
