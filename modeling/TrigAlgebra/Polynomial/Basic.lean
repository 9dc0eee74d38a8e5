/-
This file defines polynomials as sums of monomials, and the merging of monomials with equal
exponents.
-/

import TrigAlgebra.Monomial

namespace TrigAlgebra

/-- The flag is kept beside the monomials and not derived from them: an operation that fails half
way can leave monomials that are not merged yet together with the flag from before. -/
structure Polynomial (K : Type) where
  monomials : List (Monomial K) := []
  univariate : Bool := true

namespace Polynomial

variable {K : Type}

def zero : Polynomial K := {}

def constant (value : K) : Polynomial K := ⟨[.constant value], true⟩

/-- Walks over the monomials with the last variable seen on its own, `noVariable` before one. -/
def singleVariable (seen : Int) : List (Monomial K) → Bool
  | [] => true
  | monomial :: rest =>
      match monomial.powers.factors with
      | [] => singleVariable seen rest
      | [factor] =>
          if seen = noVariable then singleVariable factor.var rest
          else if factor.var = seen then singleVariable seen rest
          else false
      | _ :: _ :: _ => false

def isUnivariate (monomials : List (Monomial K)) : Bool :=
  singleVariable noVariable monomials

/-- The variables of all monomials in increasing order, each once. -/
def insertVariable (var : Int) : List Int → List Int
  | [] => [var]
  | head :: rest =>
      if var < head then var :: head :: rest
      else if var = head then head :: rest
      else head :: insertVariable var rest

def vars (polynomial : Polynomial K) : List Int :=
  (polynomial.monomials.flatMap fun monomial => monomial.powers.vars).foldl
    (fun vars var => insertVariable var vars) []

def degree (polynomial : Polynomial K) : Nat :=
  (polynomial.monomials.map Monomial.degree).foldl max 0

/-- The variable of a single monomial of one linear factor, whatever its coefficient. -/
def simpleVariable (polynomial : Polynomial K) : Int :=
  match polynomial.monomials with
  | [monomial] =>
      match monomial.powers.factors with
      | [factor] => if factor.power = 1 then factor.var else noVariable
      | _ => noVariable
  | _ => noVariable

def requireUnivariate (polynomial : Polynomial K) (operation : String) : Except Fault Unit :=
  if polynomial.univariate then .ok () else .error (.notUnivariate operation)

variable [Coefficient K]

/-- The coefficient is added to the monomial of the same powers, or the monomial comes last. -/
def absorb (sum : List (Monomial K)) (monomial : Monomial K) :
    Except Fault (List (Monomial K)) :=
  match sum with
  | [] => .ok [monomial]
  | head :: rest =>
      if head.powers = monomial.powers then
        (Coefficient.add head.coefficient monomial.coefficient).map fun coefficient =>
          ⟨coefficient, head.powers⟩ :: rest
      else (absorb rest monomial).map (head :: ·)

/-- One monomial for each product of powers, in the order of first occurrence. -/
def merge (monomials : List (Monomial K)) : Except Fault (List (Monomial K)) :=
  monomials.foldlM absorb []

def ofMonomials (monomials : List (Monomial K)) : Except Fault (Polynomial K) :=
  (merge monomials).map fun merged => ⟨merged, isUnivariate merged⟩

def ofPowers (coefficient : K) (powers : List (Int × Int)) : Except Fault (Polynomial K) := do
  ofMonomials [← Monomial.create coefficient powers]

def ofVariable (var : Int) (coefficient : K) : Except Fault (Polynomial K) :=
  ofMonomials [⟨coefficient, .ofFactor (.linear var)⟩]

/-- A variable with the coefficient one. -/
def named (name : String) (index : Int) : Except Fault (Polynomial K) :=
  (NamingTable.encode {} name index).map fun var =>
    ⟨[⟨Coefficient.one, .ofFactor (.linear var)⟩], true⟩

/-- The coefficient of the last monomial with the given powers. -/
def coefficient? (polynomial : Polynomial K) (powers : PowerProduct) : Option K :=
  (polynomial.monomials.reverse.find? fun monomial => monomial.powers == powers).map
    Monomial.coefficient

/-- Every monomial of the first polynomial has a counterpart of the same value in the second. -/
def covers (first second : Polynomial K) : Bool :=
  first.monomials.all fun monomial =>
    match first.coefficient? monomial.powers, second.coefficient? monomial.powers with
    | some mine, some other => Coefficient.same mine other
    | _, _ => false

/-- Two polynomials are equal when they have the same powers with coefficients of the same value;
a coefficient of zero counts. -/
def same (first second : Polynomial K) : Bool :=
  first.covers second && second.monomials.all fun monomial =>
    (first.coefficient? monomial.powers).isSome

def text (polynomial : Polynomial K) : Except Fault String :=
  if polynomial.monomials.isEmpty then .ok "0"
  else do
    let monomials ← polynomial.monomials.mapM Monomial.text
    return " + ".intercalate monomials

end Polynomial

end TrigAlgebra
