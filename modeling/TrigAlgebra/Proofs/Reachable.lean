/-
This file lists the operations that build polynomials, and proves that every polynomial built by
them is merged and carries the flag of its monomials, whatever integers stand for its variables.
-/

import TrigAlgebra.Proofs.WellFormed

namespace TrigAlgebra.Polynomial

/-- The polynomial was built by operations that returned. -/
inductive Reachable {K : Type} [Coefficient K] : Polynomial K → Prop
  | zero : Reachable .zero
  | constant (value : K) : Reachable (.constant value)
  | named {name : String} {index : Int} {new : Polynomial K}
      (returned : named name index = .ok new) : Reachable new
  | ofPowers {coefficient : K} {powers : List (Int × Int)} {new : Polynomial K}
      (returned : ofPowers coefficient powers = .ok new) : Reachable new
  | ofVariable {var : Int} {coefficient : K} {new : Polynomial K}
      (returned : ofVariable var coefficient = .ok new) : Reachable new
  | ofMonomials {monomials : List (Monomial K)} {new : Polynomial K}
      (returned : ofMonomials monomials = .ok new) : Reachable new
  | add {first second new : Polynomial K} (ofFirst : Reachable first) (ofSecond : Reachable second)
      (returned : first.add second = .ok new) : Reachable new
  | sub {first second new : Polynomial K} (ofFirst : Reachable first) (ofSecond : Reachable second)
      (returned : first.sub second = .ok new) : Reachable new
  | mul {first second new : Polynomial K} (ofFirst : Reachable first) (ofSecond : Reachable second)
      (returned : first.mul second = .ok new) : Reachable new
  | neg {old : Polynomial K} (ofOld : Reachable old) : Reachable old.neg
  | pow {old new : Polynomial K} {exponent : Nat} (ofOld : Reachable old)
      (returned : old.pow exponent = .ok new) : Reachable new
  | addScalar {old new : Polynomial K} {scalar : K} (ofOld : Reachable old)
      (returned : old.addScalar scalar = .ok new) : Reachable new
  | subScalar {old new : Polynomial K} {scalar : K} (ofOld : Reachable old)
      (returned : old.subScalar scalar = .ok new) : Reachable new
  | scale {old new : Polynomial K} {scalar : K} (ofOld : Reachable old)
      (returned : old.scale scalar = .ok new) : Reachable new
  | divide {old new : Polynomial K} {scalar : K} (ofOld : Reachable old)
      (returned : old.divide scalar = .ok new) : Reachable new
  | rename {old new : Polynomial K} {var replacement : Int} (ofOld : Reachable old)
      (returned : old.rename var replacement = .ok new) : Reachable new
  | evaluatePartial {old new : Polynomial K} {values : Assignment K} (ofOld : Reachable old)
      (returned : old.evaluatePartial values = .ok new) : Reachable new
  | derivative {old new : Polynomial K} {order : Int} (ofOld : Reachable old)
      (returned : old.derivative order = .ok new) : Reachable new
  | integral {old new : Polynomial K} {constant : K} (ofOld : Reachable old)
      (returned : old.integral constant = .ok new) : Reachable new

/-- The powers are distinct, and the flag is the one that the walk over the monomials computes. -/
structure Settled {K : Type} (polynomial : Polynomial K) : Prop where
  distinct : polynomial.Distinct
  flag : polynomial.univariate = isUnivariate polynomial.monomials

section Flag

variable {K : Type}

/-- The flag depends on the products only. -/
theorem singleVariable_congr {first second : List (Monomial K)} (seen : Int)
    (powers : powersOf first = powersOf second) :
    singleVariable seen first = singleVariable seen second := by
  induction first generalizing second seen with
  | nil =>
      rw [List.map_eq_nil_iff.1 powers.symm]
  | cons head rest hypothesis =>
      cases second with
      | nil => cases powers
      | cons other others =>
          obtain ⟨same, remaining⟩ := List.cons_eq_cons.1 powers
          unfold singleVariable
          rw [same]
          split
          · exact hypothesis seen remaining
          · rw [hypothesis _ remaining, hypothesis _ remaining]
          · rfl

/-- The walk depends on the powers of the monomials only. -/
theorem isUnivariate_congr {first second : List (Monomial K)}
    (powers : powersOf first = powersOf second) : isUnivariate first = isUnivariate second :=
  singleVariable_congr noVariable powers

/-- A constant at the end has no variable to be met by the walk. -/
theorem singleVariable_append_constant (seen : Int) (monomials : List (Monomial K)) (value : K) :
    singleVariable seen (monomials ++ [.constant value]) = singleVariable seen monomials := by
  induction monomials generalizing seen with
  | nil => rfl
  | cons head rest hypothesis =>
      rw [List.cons_append]
      unfold singleVariable
      split
      · exact hypothesis seen
      · rw [hypothesis, hypothesis]
      · rfl

end Flag

section Settled

variable {K : Type} {polynomial new : Polynomial K}

/-- Being settled depends on the products and the flag only. -/
theorem Settled.of_powers (settled : polynomial.Settled)
    (powers : powersOf new.monomials = powersOf polynomial.monomials)
    (flag : new.univariate = polynomial.univariate) : new.Settled := by
  constructor
  · unfold Distinct
    rw [powers]
    exact settled.distinct
  · rw [flag, settled.flag, isUnivariate_congr powers]

/-- Where no variable is the integer that stands for none, the flag tells whether there is at most
one variable. -/
theorem Settled.wellFormed (settled : polynomial.Settled)
    (named : ¬ Occurs noVariable (powersOf polynomial.monomials)) : polynomial.WellFormed :=
  ⟨settled.distinct, named, settled.flag ▸ isUnivariate_iff named⟩

theorem settled_zero : (zero : Polynomial K).Settled := ⟨List.nodup_nil, rfl⟩

theorem settled_constant (value : K) : (constant value).Settled := ⟨List.nodup_singleton _, rfl⟩

/-- Where each monomial keeps its powers, the polynomial stays settled. -/
theorem settled_mapM {step : Monomial K → Except Fault (Monomial K)}
    (fixed : ∀ item result, step item = .ok result → result.powers = item.powers)
    (settled : polynomial.Settled)
    (returned : (polynomial.exchange (polynomial.monomials.mapM step)).result = .ok new) :
    new.Settled := by
  obtain ⟨monomials, written, rfl⟩ := exchange_eq_ok.1 returned
  exact settled.of_powers (powersOf_mapM fixed written) rfl

variable [Coefficient K]

theorem settled_named {name : String} {index : Int} (returned : named name index = .ok new) :
    new.Settled := by
  obtain ⟨var, -, rfl⟩ := map_eq_ok.1 returned
  refine ⟨List.nodup_singleton _, ?_⟩
  simp [isUnivariate, singleVariable, PowerProduct.ofFactor]

/-- Whatever has been merged is settled. -/
theorem settled_ofMonomials {monomials : List (Monomial K)}
    (returned : ofMonomials monomials = .ok new) : new.Settled := by
  obtain ⟨merged, mergedCase, rfl⟩ := map_eq_ok.1 returned
  exact ⟨nodup_merge mergedCase, rfl⟩

/-- So is what has been merged in place. -/
theorem settled_mergeFrom {monomials : List (Monomial K)}
    (returned : (polynomial.mergeFrom monomials).result = .ok new) : new.Settled := by
  obtain ⟨merged, flag⟩ := mergeFrom_eq_ok.1 returned
  exact ⟨nodup_merge merged, flag⟩

/-- A product has been merged. -/
theorem settled_mul {other : Polynomial K} (returned : polynomial.mul other = .ok new) :
    new.Settled := by
  obtain ⟨monomials, -, merged, flag⟩ := mul_eq_ok.1 returned
  exact ⟨nodup_merge merged, flag⟩

/-- Negation changes no product. -/
theorem settled_neg (settled : polynomial.Settled) : polynomial.neg.Settled :=
  settled.of_powers (powersOf_negated polynomial.monomials) rfl

/-- A power is one or has been merged. -/
theorem settled_pow {exponent : Nat} (returned : polynomial.pow exponent = .ok new) :
    new.Settled := by
  cases exponent with
  | zero =>
      cases returned
      exact settled_constant _
  | succ exponent =>
      obtain ⟨power, -, product⟩ := bind_eq_ok.1 returned
      exact settled_mul product

/-- The scalar joins a constant that is there, or becomes one, which has no variable. -/
theorem settled_addScalar {scalar : K} (settled : polynomial.Settled)
    (returned : polynomial.addScalar scalar = .ok new) : new.Settled := by
  obtain ⟨monomials, written, rfl⟩ := exchange_eq_ok.1 returned
  have powers := powersOf_addConstant written
  constructor
  · unfold Distinct
    rw [powers]
    exact nodup_appendNew _ settled.distinct
  · refine settled.flag.trans ?_
    unfold appendNew at powers
    split at powers
    · exact isUnivariate_congr powers.symm
    · have appended : powersOf (polynomial.monomials ++ [.constant scalar]) = powersOf monomials := by
        rw [powers, powersOf, List.map_append]
        rfl
      rw [isUnivariate, ← singleVariable_append_constant noVariable _ scalar]
      exact isUnivariate_congr appended

/-- A scalar changes no product. -/
theorem settled_scale {scalar : K} (settled : polynomial.Settled)
    (returned : polynomial.scale scalar = .ok new) : new.Settled :=
  settled_mapM (fun _ _ => powers_scaled) settled returned

theorem settled_divide {scalar : K} (settled : polynomial.Settled)
    (returned : polynomial.divide scalar = .ok new) : new.Settled :=
  settled_mapM (fun _ _ => powers_divideScalar) settled returned

/-- A derivative has been merged, or is the polynomial itself. -/
theorem settled_derivative {order : Int} (settled : polynomial.Settled)
    (returned : polynomial.derivative order = .ok new) : new.Settled := by
  obtain ⟨-, -, returned⟩ := bind_eq_ok.1 returned
  split at returned
  · cases returned
  · split at returned
    · cases returned
      exact settled
    · obtain ⟨derivatives, -, built⟩ := bind_eq_ok.1 returned
      exact settled_ofMonomials built

/-- Every operation leaves a settled polynomial. -/
theorem Reachable.settled (reachable : polynomial.Reachable) : polynomial.Settled := by
  induction reachable with
  | zero => exact settled_zero
  | constant value => exact settled_constant value
  | named returned => exact settled_named returned
  | ofPowers returned =>
      obtain ⟨item, -, built⟩ := bind_eq_ok.1 returned
      exact settled_ofMonomials built
  | ofVariable returned => exact settled_ofMonomials returned
  | ofMonomials returned => exact settled_ofMonomials returned
  | add _ _ returned => exact settled_mergeFrom returned
  | sub _ _ returned => exact settled_mergeFrom returned
  | mul _ _ returned => exact settled_mul returned
  | neg _ settled => exact settled_neg settled
  | pow _ returned => exact settled_pow returned
  | addScalar _ returned settled => exact settled_addScalar settled returned
  | subScalar _ returned settled => exact settled_addScalar settled returned
  | scale _ returned settled => exact settled_scale settled returned
  | divide _ returned settled => exact settled_divide settled returned
  | rename _ returned => exact settled_mergeFrom returned
  | evaluatePartial _ returned =>
      obtain ⟨monomials, -, built⟩ := bind_eq_ok.1 returned
      exact settled_ofMonomials built
  | derivative _ returned settled => exact settled_derivative settled returned
  | integral _ returned =>
      obtain ⟨-, -, returned⟩ := bind_eq_ok.1 returned
      obtain ⟨integrals, -, built⟩ := bind_eq_ok.1 returned
      exact settled_ofMonomials built

end Settled

end TrigAlgebra.Polynomial
