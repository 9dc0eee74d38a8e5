/-
This file lists the reasons for which an operation can fail.
-/

import TrigAlgebra.Circular
import TrigAlgebra.Label

namespace TrigAlgebra

/-- The kinds of value that an operation can meet. -/
inductive Kind where
  | integer
  | real
  | complex
  | bigReal
  | bigComplex
  | polynomial
  | trigPolynomial
  | monomial
  | factor
  | truth
  | text
  | nothing
  | sequence
  | mapping
  | array
deriving DecidableEq, Repr

inductive Operator where
  | add
  | subtract
  | multiply
  | divide
  | power
  | less
  | lessOrEqual
deriving DecidableEq, Repr

inductive Fault where
  | invalidName (name : Label)
  | nameTooLong (name : String)
  | indexBelowOne (index : Int)
  | indexTooLarge (index limit : Int)
  | invalidVariable (var : Int)
  | variableTooLarge (var : Int)
  | namelessVariable (var : Int)
  | numeralTooLong (digits : Nat)
  | numeralUnwritten
  | powerBelowOne (power : Int)
  | orderBelowZero (order : Int)
  | exponentNotNatural (shown : String)
  | notUnivariate (operation : String)
  | valuesMissing (vars : List Int)
  | valueMissing (var : Int)
  | noIntegrationVariable
  | notSimple (label shown : String)
  | degreeAboveOne (function : Circular)
  | variablesMultiplied (function : Circular) (shown : String)
  | unmappedVariable (function : Circular) (name : String)
  | multipleNotInteger (function : Circular) (shown : String)
  | divisionByZero (kind : Kind)
  | integerTooLarge
  | wordTooLarge
  | wordNegative (value : Int)
  | quotientTooLarge
  | powerTooLarge
  | complexPowerTooLarge
  | magnitudeTooLarge
  | outsideDomain
  | outsideRange
  | notReal (kind : Kind)
  | unsupportedOperands (operator : Operator) (inPlace : Bool) (left right : Kind)
  | unsupportedSign (sign : String) (kind : Kind)
  | unordered (operator : Operator) (left right : Kind)
  | unhashable (kind : Kind)
  | missingAttribute (kind : Kind) (name : String)
  | notCallable (kind : Kind)
  | wrappedPolynomial (kind : Kind)
  | noCircularMethod (function : Circular) (kind : Kind)
  | entriesNotFinite
  | zeroPolynomial
  | noConvergence (sweeps : Nat)
  | unknownLevel (name : String)
  | levelMissing
  | noRegister (name : String)
  | unevaluable
  | notPolynomial
deriving DecidableEq, Repr

end TrigAlgebra
