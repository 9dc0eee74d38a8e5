/-
This file lists the steps that a session can take.
-/

import TrigAlgebra.Session.Value

namespace TrigAlgebra.Session

/-- A step reads a register or a value written in the step itself. -/
inductive Source where
  | register (name : String)
  | literal (value : Value)

/-- A monomial is read from a register or written out. -/
inductive MonomialSource where
  | register (name : String)
  | written (coefficient : Source) (powers : List (Int × Int))

/-- What a trigonometric polynomial is built on. -/
inductive Base where
  | nothing
  | named (name : String)
  | source (source : Source)

/-- How a sine or cosine is asked for: by a function of trigonometric polynomials, by a method of
the value, or by a function of coefficients. -/
inductive Asking where
  | function
  | method
  | coefficient
deriving DecidableEq

inductive Property where
  | polynomial
  | angles
  | monomials
  | constancy
  | degree
  | vars
deriving DecidableEq

/-- How a value is asked for; a call picks the way by its argument. -/
inductive Way where
  | value
  | call
  | univariate
  | multivariate
  | evaluate
deriving DecidableEq

inductive Argument where
  | point (source : Source)
  | values (pairs : List (Int × Number))

inductive Action where
  | operate (operator : Operator) (left right : Source)
  | update (operator : Operator) (target operand : Source)
  | equal (negated : Bool) (left right : Source)
  | order (operator : Operator) (left right : Source)
  | negate (source : Source)
  | confirm (source : Source)
  | copy (byMethod : Bool) (source : Source)
  | text (source : Source)
  | quote (source : Source)
  | digest (source : Source)
  | view (source : Source)
  | circular (function : Circular) (asking : Asking) (source : Source)
  | property (property : Property) (source : Source)
  | degreeOf (source : Source) (var : Int)
  | coefficients (source : Source)
  | summary (source : Source)
  | zero
  | constant (source : Source)
  | named (name : String) (index : Int)
  | ofPowers (coefficient : Source) (powers : List (Int × Int))
  | ofVariable (var : Int) (coefficient : Option Source)
  | ofMonomials (monomials : List MonomialSource)
  | factor (var power : Int)
  | monomial (coefficient : Source) (powers : List (Int × Int))
  | trig (base : Base) (angles : List (Int × Placeholders))
  | angle (angle sine cosine : Source)
  | rename (source : Source) (old new : Int)
  | substitute (source : Source) (values : List (Int × Number))
  | evaluate (way : Way) (source : Source) (argument : Argument)
  | derivative (source : Source) (order : Int)
  | integral (source : Source) (constant : Option Source)
  | roots (source : Source) (precise : Bool)
  | approx (first second : Source) (tolerance : Option Source)
  | divide (source divisor : Source)
  | sameExponents (first second : Source)
  | scaled (source factor : Source)
  | withCoefficient (source coefficient : Source)
  | expression (source : Source)
  | roundTrip (source : Source)

/-- The result of a step can be kept in a register. -/
structure Step where
  action : Action
  register? : Option String

end TrigAlgebra.Session
