/-
This file defines expanded symbolic sums: a constant and distinct products of powers, each with a
coefficient.
-/

import TrigAlgebra.Symbolic.Scalar

namespace TrigAlgebra.Symbolic

/-- What a power is taken of: a variable, or a part of an expression that is not a polynomial and is
known by its written form alone. -/
inductive Atom where
  | variable (name : String)
  | compound (form : String)
deriving DecidableEq

def Atom.form : Atom → String
  | .variable name => name
  | .compound form => "(" ++ form ++ ")"

def Atom.less (first second : Atom) : Bool := first.form < second.form

/-- Powers with exponents other than zero, in the order of their atoms. -/
abbrev Powers : Type := List (Atom × Rat)

namespace Powers

/-- An exponent that becomes zero takes its atom away. -/
def insert (atom : Atom) (exponent : Rat) : Powers → Powers
  | [] => if exponent = 0 then [] else [(atom, exponent)]
  | head :: rest =>
      if head.1 = atom then
        if head.2 + exponent = 0 then rest else (atom, head.2 + exponent) :: rest
      else if atom.less head.1 then
        if exponent = 0 then head :: rest else (atom, exponent) :: head :: rest
      else head :: insert atom exponent rest

def mul (first second : Powers) : Powers :=
  second.foldl (fun product power => insert power.1 power.2 product) first

def form (powers : Powers) : String :=
  "*".intercalate (powers.map fun power => power.1.form ++ "^" ++ toString power.2)

def less (first second : Powers) : Bool := first.form < second.form

end Powers

/-- No coefficient is zero, and the constant is an exact zero if it is zero beside other terms. -/
structure Sum where
  constant : Scalar
  terms : List (Powers × Scalar)
deriving DecidableEq

namespace Sum

def ofScalar (scalar : Scalar) : Sum := ⟨scalar, []⟩

def ofAtom (atom : Atom) (exponent : Rat) : Sum :=
  if exponent = 0 then ofScalar .one else ⟨.zero, [([(atom, exponent)], .one)]⟩

/-- A coefficient that becomes zero takes its term away. -/
def insertTerm (powers : Powers) (coefficient : Scalar) :
    List (Powers × Scalar) → List (Powers × Scalar)
  | [] => if coefficient.isZero then [] else [(powers, coefficient)]
  | head :: rest =>
      if head.1 = powers then
        let sum := head.2.add coefficient
        if sum.isZero then rest else (powers, sum) :: rest
      else if powers.less head.1 then
        if coefficient.isZero then head :: rest else (powers, coefficient) :: head :: rest
      else head :: insertTerm powers coefficient rest

/-- A constant of zero is dropped from a sum, rounded or not. -/
def cleared (scalar : Scalar) : Scalar := if scalar.isZero then .zero else scalar

def add (first second : Sum) : Sum :=
  ⟨cleared (first.constant.add second.constant),
    second.terms.foldl (fun terms term => insertTerm term.1 term.2 terms) first.terms⟩

/-- A product of terms belongs to the constant when no power is left. -/
def addProduct (sum : Sum) (powers : Powers) (coefficient : Scalar) : Sum :=
  match powers with
  | [] => ⟨sum.constant.add coefficient, sum.terms⟩
  | _ => ⟨sum.constant, insertTerm powers coefficient sum.terms⟩

/-- All terms, the constant first unless it is an exact zero. -/
def allTerms (sum : Sum) : List (Powers × Scalar) :=
  if sum.constant.isExactZero then sum.terms else ([], sum.constant) :: sum.terms

def scale (scalar : Scalar) (sum : Sum) : Sum :=
  if scalar.isZero then ofScalar (scalar.mul (if sum.terms.isEmpty then sum.constant else .one))
  else
    ⟨scalar.mul sum.constant, sum.terms.map fun term => (term.1, scalar.mul term.2)⟩

/-- Every term of the first sum times every term of the second. -/
def mul (first second : Sum) : Sum :=
  if first.terms.isEmpty then second.scale first.constant
  else if second.terms.isEmpty then first.scale second.constant
  else
    let pairs := first.allTerms.flatMap fun left => second.allTerms.map fun right => (left, right)
    let product := pairs.foldl
      (fun sum pair => sum.addProduct (Powers.mul pair.1.1 pair.2.1) (pair.1.2.mul pair.2.2))
      (ofScalar .zero)
    if product.terms.isEmpty then product else { product with constant := cleared product.constant }

def product (base : Sum) : Nat → Sum
  | 0 => ofScalar .one
  | 1 => base
  | exponent + 1 => (base.product exponent).mul base

def pow (base : Sum) (exponent : Nat) : Sum :=
  if base.terms.isEmpty then ofScalar (base.constant.powInt exponent) else base.product exponent

def scalarForm : Scalar → String
  | .exact re im => toString re ++ "," ++ toString im
  | .real value => "r" ++ toString value.toBits
  | .complex re im => "c" ++ toString re.toBits ++ "," ++ toString im.toBits
  | .unbounded => "u"

/-- Sums with the same value and the same kinds of numbers have the same form. -/
def form (sum : Sum) : String :=
  "+".intercalate (sum.allTerms.map fun term => scalarForm term.2 ++ "*" ++ Powers.form term.1)

end Sum

end TrigAlgebra.Symbolic
