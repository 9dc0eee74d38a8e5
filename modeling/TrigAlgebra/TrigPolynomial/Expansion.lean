/-
This file expands sines and cosines of sums of integer multiples of angles into polynomials of the
sines and cosines of the single angles.
-/

import TrigAlgebra.Polynomial.Substitution
import TrigAlgebra.Traced
import TrigAlgebra.TrigPolynomial.Basic

namespace TrigAlgebra

namespace Polynomial

variable {K : Type} [Coefficient K]

theorem length_absorb_le {sum merged : List (Monomial K)} {monomial : Monomial K}
    (absorbed : absorb sum monomial = .ok merged) : merged.length ≤ sum.length + 1 := by
  induction sum generalizing merged with
  | nil =>
      cases absorbed
      simp
  | cons head rest hypothesis =>
      simp only [absorb] at absorbed
      split at absorbed
      · cases sumCase : Coefficient.add head.coefficient monomial.coefficient with
        | error => simp [sumCase, Except.map] at absorbed
        | ok =>
            simp only [sumCase, Except.map, Except.ok.injEq] at absorbed
            simp [← absorbed]
      · cases restCase : absorb rest monomial with
        | error => simp [restCase, Except.map] at absorbed
        | ok tail =>
            simp only [restCase, Except.map, Except.ok.injEq] at absorbed
            have shorter := hypothesis restCase
            simp only [← absorbed, List.length_cons]
            omega

theorem length_foldlM_absorb_le {monomials sum merged : List (Monomial K)}
    (absorbed : monomials.foldlM absorb sum = .ok merged) :
    merged.length ≤ sum.length + monomials.length := by
  induction monomials generalizing sum with
  | nil =>
      cases absorbed
      simp
  | cons head rest hypothesis =>
      rw [List.foldlM_cons] at absorbed
      cases headCase : absorb sum head with
      | error => simp [headCase, bind, Except.bind] at absorbed
      | ok next =>
          rw [headCase] at absorbed
          have first := length_absorb_le headCase
          have others := hypothesis absorbed
          simp only [List.length_cons]
          omega

/-- Merging never lengthens a list of monomials. -/
theorem length_ofMonomials_le {monomials : List (Monomial K)} {polynomial : Polynomial K}
    (built : ofMonomials monomials = .ok polynomial) :
    polynomial.monomials.length ≤ monomials.length := by
  unfold ofMonomials at built
  cases mergeCase : merge monomials with
  | error => simp [mergeCase, Except.map] at built
  | ok merged =>
      simp only [mergeCase, Except.map, Except.ok.injEq] at built
      have bound := length_foldlM_absorb_le mergeCase
      simp only [List.length_nil, Nat.zero_add] at bound
      simpa [← built] using bound

end Polynomial

namespace TrigPolynomial

variable {K : Type} [Coefficient K]

/-- The argument must be a sum of monomials of at most one variable each, to the first power. -/
def checkArgument (function : Circular) (trig : TrigPolynomial K) : Except Fault Unit :=
  if 1 < trig.polynomial.degree then .error (.degreeAboveOne function)
  else
    match trig.polynomial.monomials.find? fun monomial => 1 < monomial.powers.factors.length with
    | some monomial => do .error (.variablesMultiplied function (← monomial.text))
    | none => .ok ()

/-- The placeholders of the variable of a linear monomial, and the integer that multiplies it. -/
def placeholders (function : Circular) (angles : AngleMap) (var : Int) (monomial : Monomial K) :
    Except Fault (Placeholders × Int) :=
  match angles.find? var with
  | none => do .error (.unmappedVariable function (← NamingTable.render {} var))
  | some found => do
      match ← Coefficient.integer? monomial.coefficient with
      | none => .error (.multipleNotInteger function (← monomial.text))
      | some multiple => return (found, multiple)

/-- Sine and cosine of one more than a multiple of an angle, from those of the multiple and of the
angle itself. -/
def addAngle (sine cosine : TrigPolynomial K) (multiple : TrigPolynomial K × TrigPolynomial K) :
    Except Fault (TrigPolynomial K × TrigPolynomial K) := do
  let sineCosine ← multiple.1.mul cosine
  let cosineSine ← multiple.2.mul sine
  let nextSine ← sineCosine.add cosineSine
  let cosineCosine ← multiple.2.mul cosine
  let sineSine ← multiple.1.mul sine
  let nextCosine ← cosineCosine.sub sineSine
  return (nextSine, nextCosine)

def addAngles (sine cosine : TrigPolynomial K) :
    Nat → Except Fault (TrigPolynomial K × TrigPolynomial K)
  | 0 => .ok (sine, cosine)
  | additions + 1 => do addAngle sine cosine (← addAngles sine cosine additions)

/-- The sine or cosine of an integer multiple of an angle; a negative multiple changes the sign of
the sine. -/
def multipleAngle (function : Circular) (angles : AngleMap) (monomial : Monomial K)
    (found : Placeholders) (multiple : Int) : Traced (TrigPolynomial K) := do
  let sine ← Polynomial.ofVariable (K := K) found.sine Coefficient.one
  let cosine ← Polynomial.ofVariable (K := K) found.cosine Coefficient.one
  let shown ← monomial.text
  let additions := multiple.natAbs - 1
  Traced.note ("Expanding " ++ function.name ++ "(" ++ shown ++ ") by " ++
    Text.writeInteger additions ++ " angle additions")
  let (sine, cosine) ← addAngles ⟨sine, angles⟩ ⟨cosine, angles⟩ additions
  return match function with
    | .sine => if multiple < 0 then sine.neg else sine
    | .cosine => cosine

/-- The angle variable becomes its placeholder and the coefficient carries the sign, which the
cosine loses. -/
def singleAngle (function : Circular) (trig : TrigPolynomial K) (var : Int)
    (found : Placeholders) (multiple : Int) : Except Fault (TrigPolynomial K) := do
  let renamed ← trig.polynomial.rename var (found.of function)
  let polynomial ← match function with
    | .sine => pure renamed
    | .cosine =>
        if multiple = -1 then renamed.scale (Coefficient.ofInt (-1)) else pure renamed
  return { trig with polynomial := polynomial }

/-- The sine or cosine of a single monomial. -/
def expandMonomial (function : Circular) (trig : TrigPolynomial K) (monomial : Monomial K) :
    Traced (TrigPolynomial K) :=
  match monomial.powers.factors with
  | [] => do
      return .constant (← Coefficient.circular function monomial.coefficient) trig.angles
  | factor :: _ =>
      if Coefficient.isZero monomial.coefficient then do
        return .constant (← Coefficient.circular (K := K) function Coefficient.zero) trig.angles
      else do
        let (found, multiple) ← placeholders function trig.angles factor.var monomial
        if multiple.natAbs = 1 then singleAngle function trig factor.var found multiple
        else multipleAngle function trig.angles monomial found multiple

/-- The formula for the sum of two angles, given the way to expand each of them. -/
def sumFormula (function : Circular) (expandFirst expandRest : Circular → Traced (TrigPolynomial K)) :
    Traced (TrigPolynomial K) :=
  match function with
  | .sine => do
      let left ← (← expandFirst .sine).mul (← expandRest .cosine)
      let right ← (← expandFirst .cosine).mul (← expandRest .sine)
      left.add right
  | .cosine => do
      let left ← (← expandFirst .cosine).mul (← expandRest .cosine)
      let right ← (← expandFirst .sine).mul (← expandRest .sine)
      left.sub right

set_option linter.unusedVariables false in
/-- The sine or cosine of a sum is taken apart at its first monomial. -/
def expand (function : Circular) (trig : TrigPolynomial K) : Traced (TrigPolynomial K) :=
  match checkArgument function trig with
  | .error fault => .ofResult (.error fault)
  | .ok () =>
    match shape : trig.polynomial.monomials with
    | [] => do
        return .constant (← Coefficient.circular (K := K) function Coefficient.zero) trig.angles
    | [monomial] => expandMonomial function trig monomial
    | monomial :: second :: others =>
      match firstCase : Polynomial.ofMonomials [monomial],
          restCase : Polynomial.ofMonomials (second :: others) with
      | .ok first, .ok rest => do
          let shown ← trig.polynomial.text
          Traced.note ("Expanding " ++ function.name ++ "(" ++ shown ++ ")")
          sumFormula function (fun part => expand part ⟨first, trig.angles⟩)
            (fun part => expand part ⟨rest, trig.angles⟩)
      | .error fault, _ => .ofResult (.error fault)
      | _, .error fault => .ofResult (.error fault)
termination_by trig.polynomial.monomials.length
decreasing_by
  · have bound := Polynomial.length_ofMonomials_le firstCase
    simp only [List.length_cons, List.length_nil] at bound
    simp only [shape, List.length_cons]
    omega
  · have bound := Polynomial.length_ofMonomials_le restCase
    simp only [List.length_cons] at bound
    simp only [shape, List.length_cons]
    omega

def sine (trig : TrigPolynomial K) : Traced (TrigPolynomial K) := expand .sine trig

def cosine (trig : TrigPolynomial K) : Traced (TrigPolynomial K) := expand .cosine trig

end TrigPolynomial

end TrigAlgebra
