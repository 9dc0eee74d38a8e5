/-
This file defines symbolic expressions and expands them into sums.
-/

import TrigAlgebra.Symbolic.Sum

namespace TrigAlgebra.Symbolic

/-- The two transcendental numbers that can be named. -/
inductive Named where
  | circleRatio
  | exponentialBase
deriving DecidableEq

def Named.form : Named → String
  | .circleRatio => "pi"
  | .exponentialBase => "E"

inductive Expression where
  | number (value : Scalar)
  | symbol (name : String)
  | named (value : Named)
  | add (first second : Expression)
  | mul (first second : Expression)
  | pow (base exponent : Expression)
  | sine (argument : Expression)
deriving DecidableEq

namespace Expression

def sum (expressions : List Expression) : Expression :=
  expressions.foldl .add (.number .zero)

def product (expressions : List Expression) : Expression :=
  expressions.foldl .mul (.number .one)

def divide (first second : Expression) : Expression :=
  .mul first (.pow second (.number (.ofInt (-1))))

def squareRoot (argument : Expression) : Expression :=
  .pow argument (.number (.ofRat (1 / 2)))

def exponential (argument : Expression) : Expression :=
  .pow (.named .exponentialBase) argument

end Expression

/-- A product of powers of sums that is not multiplied out. -/
structure Product where
  coefficient : Scalar
  powers : List (Sum × Rat)

namespace Product

def ofScalar (scalar : Scalar) : Product := ⟨scalar, []⟩

/-- A sum of one term falls into its coefficient and the powers of its atoms. -/
def ofSum (sum : Sum) : Product :=
  match sum.allTerms with
  | [] => ofScalar .zero
  | [(powers, coefficient)] =>
      ⟨coefficient, powers.map fun power => (Sum.ofAtom power.1 1, power.2)⟩
  | _ => ⟨.one, [(sum, 1)]⟩

def ofAtom (atom : Atom) : Product := ⟨.one, [(Sum.ofAtom atom 1, 1)]⟩

/-- The exponents of equal bases are added. -/
def insertPower (base : Sum) (exponent : Rat) : List (Sum × Rat) → List (Sum × Rat)
  | [] => [(base, exponent)]
  | head :: rest =>
      if head.1 = base then (base, head.2 + exponent) :: rest
      else head :: insertPower base exponent rest

def mul (first second : Product) : Product :=
  ⟨first.coefficient.mul second.coefficient,
    second.powers.foldl (fun powers power => insertPower power.1 power.2 powers) first.powers⟩

def powInt (product : Product) (exponent : Int) : Product :=
  if exponent = 0 then ofScalar .one
  else
    ⟨product.coefficient.powInt exponent,
      product.powers.map fun power => (power.1, power.2 * exponent)⟩

/-- The variable or compound of which a sum consists. -/
def atom? (sum : Sum) : Option Atom :=
  match sum.terms with
  | [([(atom, exponent)], coefficient)] =>
      if sum.constant.isExactZero && exponent == 1 && coefficient.isOne then some atom else none
  | _ => none

/-- Natural powers are multiplied out; any other power of a sum is a compound. -/
def expandPower (base : Sum) (exponent : Rat) : Sum :=
  match atom? base with
  | some atom => Sum.ofAtom atom exponent
  | none =>
      if exponent.den = 1 ∧ 0 ≤ exponent.num then base.pow exponent.num.toNat
      else Sum.ofAtom (.compound (base.form ++ "^" ++ toString exponent)) 1

/-- An exact or rounded zero as coefficient is the whole product. -/
def expand (product : Product) : Sum :=
  if product.coefficient.isZero then Sum.ofScalar product.coefficient
  else
    (product.powers.foldl (fun sum power => sum.mul (expandPower power.1 power.2))
      (Sum.ofScalar .one)).scale product.coefficient

/-- A rational power that is not an integer one: of a number if the result is one, otherwise as it
stands. -/
def powRational (base : Product) (exponent : Rat) : Product :=
  if base.powers.isEmpty then
    match base.coefficient with
    | .exact re im =>
        match if im = 0 then Scalar.rationalPower? re exponent else none with
        | some scalar => ofScalar scalar
        | none => ⟨.one, [(Sum.ofScalar base.coefficient, exponent)]⟩
    | .unbounded => ofScalar .unbounded
    | scalar => ofScalar (scalar.powFloat (Scalar.floatOfRat exponent))
  else ⟨.one, [(base.expand, exponent)]⟩

/-- A compound for a power whose exponent is not a rational number. -/
def powCompound (base : Product) (exponent : Sum) : Product :=
  ofAtom (.compound (base.expand.form ++ "^" ++ exponent.form))

/-- Only numbers have a value at a rounded exponent. -/
def powReal (base : Product) (exponent : Float) : Product :=
  if exponent == 0.0 then ofScalar (.real 1.0)
  else if base.powers.isEmpty then
    match base.coefficient with
    | .unbounded => ofScalar .unbounded
    | scalar => ofScalar (scalar.powFloat exponent)
  else if base.powers == [(Sum.ofAtom (.compound Named.exponentialBase.form) 1, 1)] then
    ofScalar (base.coefficient.mul (.real exponent.exp))
  else powCompound base (Sum.ofScalar (.real exponent))

def pow (base : Product) (exponent : Sum) : Product :=
  match exponent.terms, exponent.constant with
  | [], .exact re im =>
      if im = 0 then
        if re.den = 1 then base.powInt re.num else base.powRational re
      else powCompound base exponent
  | [], .real value => base.powReal value
  | _, _ => powCompound base exponent

/-- The rational multiple of half the circle that a sum is, if it is one. -/
def turns? (sum : Sum) : Option Rat :=
  match sum.terms, sum.constant with
  | [([(atom, exponent)], .exact re im)], constant =>
      if constant.isExactZero && im == 0 && exponent == 1 &&
          atom == .compound Named.circleRatio.form then some re
      else none
  | [], constant => if constant.isExactZero then some 0 else none
  | _, _ => none

/-- The sine of a multiple of a sixth of half the circle, where it is rational. -/
def sineOfSixths (sixths : Int) : Option Rat :=
  match (sixths % 12).toNat with
  | 0 => some 0
  | 1 => some (1 / 2)
  | 3 => some 1
  | 5 => some (1 / 2)
  | 6 => some 0
  | 7 => some (-1 / 2)
  | 9 => some (-1)
  | 11 => some (-1 / 2)
  | _ => none

def sine (argument : Sum) : Product :=
  let compound := ofAtom (.compound ("sin" ++ argument.form))
  match turns? argument with
  | some turns =>
      let sixths := turns * 6
      match if sixths.den = 1 then sineOfSixths sixths.num else none with
      | some value => ofScalar (.ofRat value)
      | none => compound
  | none =>
      match argument.terms, argument.constant with
      | [], .real value => ofScalar (.real value.sin)
      | _, _ => compound

end Product

namespace Expression

/-- Equal bases are brought together before anything is multiplied out. -/
def toProduct : Expression → Product
  | .number value => .ofScalar value
  | .symbol name => .ofAtom (.variable name)
  | .named value => .ofAtom (.compound value.form)
  | .add first second => .ofSum (first.toProduct.expand.add second.toProduct.expand)
  | .mul first second => first.toProduct.mul second.toProduct
  | .pow base exponent => base.toProduct.pow exponent.toProduct.expand
  | .sine argument => .sine argument.toProduct.expand

def expand (expression : Expression) : Sum := expression.toProduct.expand

end Expression

end TrigAlgebra.Symbolic
