/-
This file says of which arguments the sine and cosine can be expanded, and which fault any other
argument leads to: degrees above one are refused first, then the monomials in their order.
-/

import TrigAlgebra.Proofs.SingleMonomials

namespace TrigAlgebra

open TrigAlgebra.Polynomial TrigPolynomial

/-- What an argument can be refused for. -/
inductive Refusal where
  | degree
  | unmapped
  | multiple
deriving DecidableEq

def Fault.refusal? : Fault → Option Refusal
  | .degreeAboveOne _ => some .degree
  | .variablesMultiplied _ _ => some .degree
  | .unmappedVariable _ _ => some .unmapped
  | .multipleNotInteger _ _ => some .multiple
  | _ => none

/-- A fault that tells of a monomial reports the variable when that has no placeholders, and the
coefficient otherwise. -/
theorem Monomial.Tells.refusal {angles : AngleMap} {item : Monomial Number} {fault : Fault}
    (tells : item.Tells angles fault) :
    item.Unmapped angles ∧ fault.refusal? = some .unmapped ∨
      ¬ item.Unmapped angles ∧ fault.refusal? = some .multiple := by
  obtain ⟨function, ⟨unmapped, var, name, -, -, rfl⟩ | ⟨mapped, shown, -, rfl⟩⟩ := tells
  · exact .inl ⟨unmapped, rfl⟩
  · exact .inr ⟨mapped, rfl⟩

namespace TrigPolynomial

variable {function : Circular} {trig : TrigPolynomial Number}

/-- The argument is refused for the given reason. -/
def RefusedFor (trig : TrigPolynomial Number) (function : Circular) (refusal : Refusal) : Prop :=
  ∃ fault, (expand function trig).outcome = .error fault ∧ fault.refusal? = some refusal

theorem RefusedFor.unique {refusal refusal' : Refusal} (refused : trig.RefusedFor function refusal)
    (refused' : trig.RefusedFor function refusal') : refusal = refusal' := by
  obtain ⟨fault, failed, reason⟩ := refused
  obtain ⟨fault', failed', reason'⟩ := refused'
  obtain rfl : fault = fault' := Except.error.inj (failed.symm.trans failed')
  exact Option.some.inj (reason.symm.trans reason')

theorem exists_text (admissible : ∀ item ∈ trig.polynomial.monomials, item.Admissible)
    (degree : trig.polynomial.degree ≤ 1) : ∃ shown, trig.polynomial.text = .ok shown := by
  unfold Polynomial.text
  split
  · exact ⟨_, rfl⟩
  · have each : ∀ item ∈ trig.polynomial.monomials, ∃ shown, item.text = .ok shown ∧ True :=
      fun item member => ((admissible item member).exists_text
        (Polynomial.degree_le_iff.1 degree item member)).imp fun _ text => ⟨text, trivial⟩
    obtain ⟨shown, returned, -⟩ := exists_mapM_eq_ok each
    rw [returned]
    exact ⟨_, rfl⟩

section FailedParts

variable {expandFirst expandRest : Circular → Traced (TrigPolynomial Number)} {property : Fault → Prop}

end FailedParts

/-- A sum of linear monomials that can be written, no two of which have the same variable. -/
structure Affine (trig : TrigPolynomial Number) : Prop where
  distinct : trig.polynomial.Distinct
  admissible : ∀ item ∈ trig.polynomial.monomials, item.Admissible
  linear : ∀ item ∈ trig.polynomial.monomials,
    item.powers = .one ∨ ∃ var, item.powers = .ofFactor (.linear var)

namespace Affine

variable {head second item : Monomial Number} {others : List (Monomial Number)}

theorem expand_singleton (affine : trig.Affine) (shape : trig.polynomial.monomials = [item]) :
    expand function trig = expandMonomial function trig item :=
  TrigPolynomial.expand_singleton (checkArgument_eq_ok.2 affine.linear) shape

end Affine

end TrigPolynomial

end TrigAlgebra
