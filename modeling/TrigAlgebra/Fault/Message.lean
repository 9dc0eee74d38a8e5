/-
This file words the reason of a failure for the reader.
-/

import TrigAlgebra.Text.Numeral
import TrigAlgebra.Text.Quoted

namespace TrigAlgebra

open Text

def Kind.name : Kind → String
  | .integer => "int"
  | .real => "float"
  | .complex => "complex"
  | .bigReal => "mpf"
  | .bigComplex => "mpc"
  | .polynomial => "Polynomial"
  | .trigPolynomial => "TrigPoly"
  | .monomial => "Monomial"
  | .factor => "Term"
  | .truth => "bool"
  | .text => "str"
  | .nothing => "NoneType"
  | .sequence => "list"
  | .mapping => "dict"
  | .array => "ndarray"

def Operator.symbol : Operator → String
  | .add => "+"
  | .subtract => "-"
  | .multiply => "*"
  | .divide => "/"
  | .power => "** or pow()"
  | .less => "<"
  | .lessOrEqual => "<="

def Label.shown : Label → String
  | .text value => quote value
  | .integer value => writeInteger value
  | .nothing => "None"

/-- Integers are listed between brackets. -/
def integerList (values : List Int) : String :=
  "[" ++ ", ".intercalate (values.map writeInteger) ++ "]"

def Fault.message : Fault → String
  | .invalidName name => "invalid variable name " ++ name.shown
  | .nameTooLong name => "name " ++ quote name ++ " exceeds max allowed"
  | .indexBelowOne index => "index must be > 0, got " ++ writeInteger index
  | .indexTooLarge index limit =>
      "index " ++ writeInteger index ++ " exceeds max ID " ++ writeInteger limit
  | .invalidVariable var => "invalid variable id " ++ writeInteger var
  | .variableTooLarge var => "variable id " ++ writeInteger var ++ " exceeds max ID"
  | .namelessVariable var => "variable id " ++ writeInteger var ++ " does not encode a name"
  | .numeralTooLong digits =>
      "Exceeds the limit (" ++ toString numeralLimit ++
        " digits) for integer string conversion: value has " ++ toString digits ++
        " digits; use sys.set_int_max_str_digits() to increase the limit"
  | .numeralUnwritten =>
      "Exceeds the limit (" ++ toString numeralLimit ++
        " digits) for integer string conversion; use sys.set_int_max_str_digits() to increase the limit"
  | .powerBelowOne power => "term power must be >= 1, got " ++ writeInteger power
  | .orderBelowZero order => "derivative order must be >= 0, got " ++ writeInteger order
  | .exponentNotNatural shown => "exponent must be a non-negative integer, got " ++ shown
  | .notUnivariate operation => operation ++ " is only defined for univariate polynomials"
  | .valuesMissing vars => "no value given for variables " ++ integerList vars
  | .valueMissing var => writeInteger var
  | .noIntegrationVariable => "don't know the variable name"
  | .notSimple label shown =>
      label ++ " must be a simple polynomial of degree 1, got " ++ shown
  | .degreeAboveOne function =>
      function.name ++ " of polynomials with degree > 1 is not supported"
  | .variablesMultiplied function shown =>
      function.name ++ " of a product of variables (" ++ shown ++ ") is not supported"
  | .unmappedVariable function name =>
      "tried taking the " ++ function.name ++ " of " ++ name ++
        ", which does not exist in the sin_cos_map"
  | .multipleNotInteger function shown =>
      function.name ++ " of " ++ shown ++ " is not supported, coefficients must be integers"
  | .divisionByZero .real => "float division by zero"
  | .divisionByZero .complex => "complex division by zero"
  | .divisionByZero .bigReal => ""
  | .divisionByZero .bigComplex => ""
  | .divisionByZero _ => "division by zero"
  | .integerTooLarge => "int too large to convert to float"
  | .wordTooLarge => "Python int too large to convert to C long"
  | .wordNegative value =>
      "Python integer " ++ writeInteger value ++ " out of bounds for uint64"
  | .quotientTooLarge => "integer division result too large for a float"
  | .powerTooLarge => "(34, 'Numerical result out of range')"
  | .complexPowerTooLarge => "complex exponentiation"
  | .magnitudeTooLarge => "absolute value too large"
  | .outsideDomain => "math domain error"
  | .outsideRange => "math range error"
  | .notReal kind => "must be real number, not " ++ kind.name
  | .unsupportedOperands operator inPlace left right =>
      "unsupported operand type(s) for " ++ operator.symbol ++ (if inPlace then "=" else "") ++
        ": '" ++ left.name ++ "' and '" ++ right.name ++ "'"
  | .unsupportedSign sign kind =>
      "bad operand type for unary " ++ sign ++ ": '" ++ kind.name ++ "'"
  | .unordered operator left right =>
      "'" ++ operator.symbol ++ "' not supported between instances of '" ++ left.name ++
        "' and '" ++ right.name ++ "'"
  | .unhashable kind => "unhashable type: '" ++ kind.name ++ "'"
  | .missingAttribute kind name =>
      "'" ++ kind.name ++ "' object has no attribute '" ++ name ++ "'"
  | .notCallable kind => "'" ++ kind.name ++ "' object is not callable"
  | .wrappedPolynomial kind =>
      "cannot build a Polynomial from " ++ kind.name ++ ", use its .polynomial"
  | .noCircularMethod function kind =>
      "loop of ufunc does not support argument 0 of type " ++ kind.name ++
        " which has no callable " ++ function.name ++ " method"
  | .entriesNotFinite => "Array must not contain infs or NaNs"
  | .zeroPolynomial => "Input to polyroots must not be the zero polynomial"
  | .noConvergence sweeps =>
      "mpmath.polyroots did not converge in " ++ toString sweeps ++ " steps"
  | .unknownLevel name => "Unknown level: " ++ quote name
  | .levelMissing => "Level not an integer or a valid string: None"
  | .noRegister name => name
  | .unevaluable => "the expression has no numerical value"
  | .notPolynomial => "the expression is not a polynomial with positive integer exponents"

end TrigAlgebra
