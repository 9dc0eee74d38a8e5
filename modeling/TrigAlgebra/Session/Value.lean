/-
This file defines the values that a session works with: numbers, parts of polynomials, and
references to polynomials that can change.
-/

import TrigAlgebra.Roots.Finding
import TrigAlgebra.Symbolic.Conversion
import TrigAlgebra.TrigPolynomial.Basic

namespace TrigAlgebra.Session

/-- What a reference leads to. -/
inductive Content where
  | polynomial (content : Polynomial Number)
  | trig (content : TrigPolynomial Number)

/-- The properties of a polynomial that are asked for together. -/
structure Summary where
  degree : Nat
  univariate : Bool
  count : Nat
  vars : List Int
  simple : Int

inductive Value where
  | nothing
  | truth (value : Bool)
  | number (value : Number)
  | text (value : String)
  | factor (value : Factor)
  | monomial (value : Monomial Number)
  | object (reference : Nat)
  | count (value : Int)
  | vars (vars : List Int)
  | monomials (monomials : List (Monomial Number))
  | angles (angles : AngleMap)
  | vector (vector : DenseVector)
  | roots (roots : List Root)
  | summary (summary : Summary)
  | expression (sum : Symbolic.Sum)

/-- A value with its reference followed. -/
inductive View where
  | number (value : Number)
  | polynomial (content : Polynomial Number)
  | trig (content : TrigPolynomial Number)
  | monomial (value : Monomial Number)
  | factor (value : Factor)
  | other (kind : Kind)

def View.kind : View → Kind
  | .number value => value.kind
  | .polynomial _ => .polynomial
  | .trig _ => .trigPolynomial
  | .monomial _ => .monomial
  | .factor _ => .factor
  | .other kind => kind

def Content.view : Content → View
  | .polynomial content => .polynomial content
  | .trig content => .trig content

/-- What a computation brings: a value, or new content to be referred to. -/
inductive Product where
  | value (value : Value)
  | content (content : Content)

namespace Product

def number (value : Number) : Product := .value (.number value)

def truth (value : Bool) : Product := .value (.truth value)

def text (value : String) : Product := .value (.text value)

def monomial (value : Monomial Number) : Product := .value (.monomial value)

def polynomial (content : Polynomial Number) : Product := .content (.polynomial content)

def trig (content : TrigPolynomial Number) : Product := .content (.trig content)

end Product

end TrigAlgebra.Session
