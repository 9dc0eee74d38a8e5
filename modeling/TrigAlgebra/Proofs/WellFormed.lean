/-
This file proves that every operation on polynomials that succeeds leaves well-formed ones: no two
monomials have the same powers, and the flag says whether at most one variable occurs.
-/

import TrigAlgebra.Polynomial.Calculus
import TrigAlgebra.Polynomial.Substitution
import TrigAlgebra.Proofs.Univariate

namespace TrigAlgebra

/-- The new content of an edit is what was computed. -/
theorem Edit.ofResult_eq_ok {S : Type} {old new : S} {result : Except Fault S} :
    (ofResult old result).result = .ok new ↔ result = .ok new := by
  cases result with
  | error fault => exact iff_of_false (fun absurd => nomatch absurd) (fun absurd => nomatch absurd)
  | ok value => exact Iff.rfl

namespace Polynomial

variable {K : Type}

/-- No two monomials have the same powers, no variable is the one that does not exist, and the flag tells
whether there is at most one variable. -/
structure WellFormed (polynomial : Polynomial K) : Prop where
  distinct : polynomial.Distinct
  named : ¬ Occurs noVariable (powersOf polynomial.monomials)
  flagged : polynomial.univariate = true ↔ Univariate (powersOf polynomial.monomials)

/-- The flag and the powers are all that matters, not the coefficients. -/
theorem WellFormed.of_powers {first second : Polynomial K} (wellFormed : first.WellFormed)
    (powers : powersOf second.monomials = powersOf first.monomials)
    (flag : second.univariate = first.univariate) : second.WellFormed := by
  obtain ⟨distinct, named, flagged⟩ := wellFormed
  refine ⟨?_, ?_, ?_⟩
  · unfold Distinct
    rw [powers]
    exact distinct
  · rw [powers]
    exact named
  · rw [powers, flag]
    exact flagged

/-- A polynomial without monomials is well formed with the flag. -/
theorem wellFormed_zero : (zero : Polynomial K).WellFormed :=
  ⟨List.nodup_nil, not_occurs_nil, iff_of_true rfl fun _ _ occurs => (not_occurs_nil occurs).elim⟩

/-- A single monomial is well formed if the flag tells whether it has two variables. -/
theorem wellFormed_singleton {item : Monomial K} {flag : Bool}
    (named : ¬ item.powers.Has noVariable)
    (flagged : flag = true ↔ ∀ first second, item.powers.Has first → item.powers.Has second → first = second) :
    (⟨[item], flag⟩ : Polynomial K).WellFormed := by
  have only (var : Int) : Occurs var (powersOf [item]) ↔ item.powers.Has var := by
    rw [occurs_powersOf]
    simp only [List.mem_singleton, exists_eq_left]
  refine ⟨List.nodup_singleton _, ?_, ?_⟩
  · rw [only]
    exact named
  · unfold Univariate
    simp only [only]
    exact flagged

/-- A constant monomial has no variables. -/
theorem wellFormed_constant (value : K) : (constant value).WellFormed :=
  wellFormed_singleton PowerProduct.not_has_one
    (iff_of_true rfl fun _ _ absurd => (PowerProduct.not_has_one absurd).elim)

/-- A single variable is a polynomial in one variable. -/
theorem wellFormed_linear {coefficient : K} {var : Int} (named : var ≠ noVariable) :
    (⟨[⟨coefficient, .ofFactor (.linear var)⟩], true⟩ : Polynomial K).WellFormed := by
  apply wellFormed_singleton
  · exact fun absurd => named (PowerProduct.has_ofFactor.1 absurd)
  · refine iff_of_true rfl fun first second isFirst isSecond => ?_
    rw [← PowerProduct.has_ofFactor.1 isFirst, ← PowerProduct.has_ofFactor.1 isSecond]

variable [Coefficient K]

/-- A name never stands for the variable that does not exist. -/
theorem wellFormed_named {name : String} {index : Int} {polynomial : Polynomial K}
    (returned : named name index = .ok polynomial) : polynomial.WellFormed := by
  obtain ⟨var, encoded, rfl⟩ := map_eq_ok.1 returned
  exact wellFormed_linear (NamingTable.encode_ne encoded)

/-- Merged monomials with their flag computed anew are well formed. -/
theorem wellFormed_of_merge {monomials : List (Monomial K)} {polynomial : Polynomial K}
    (named : ¬ Occurs noVariable (powersOf monomials))
    (merged : merge monomials = .ok polynomial.monomials)
    (flag : polynomial.univariate = isUnivariate polynomial.monomials) : polynomial.WellFormed := by
  have stillNamed : ¬ Occurs noVariable (powersOf polynomial.monomials) := by
    rw [occurs_merge merged]
    exact named
  refine ⟨nodup_merge merged, stillNamed, ?_⟩
  rw [flag]
  exact isUnivariate_iff stillNamed

/-- Whatever the monomials are, merging them makes a well formed polynomial. -/
theorem wellFormed_ofMonomials {monomials : List (Monomial K)} {polynomial : Polynomial K}
    (named : ¬ Occurs noVariable (powersOf monomials))
    (returned : ofMonomials monomials = .ok polynomial) :
    polynomial.WellFormed := by
  obtain ⟨merged, mergedCase, rfl⟩ := map_eq_ok.1 returned
  exact wellFormed_of_merge named mergedCase rfl

/-- An operation in place ends with a merging, which makes the content well formed again. -/
theorem wellFormed_mergeFrom {polynomial new : Polynomial K} {monomials : List (Monomial K)}
    (named : ¬ Occurs noVariable (powersOf monomials))
    (returned : (polynomial.mergeFrom monomials).result = .ok new) : new.WellFormed := by
  obtain ⟨merged, flag⟩ := mergeFrom_eq_ok.1 returned
  exact wellFormed_of_merge named merged flag

variable {polynomial other new : Polynomial K}

/-- The monomials of a sum come from the two operands. -/
theorem wellFormed_add (wellFormed : polynomial.WellFormed) (otherWellFormed : other.WellFormed)
    (returned : polynomial.add other = .ok new) : new.WellFormed := by
  refine wellFormed_mergeFrom ?_ returned
  rw [powersOf, List.map_append]
  exact fun occurs => (occurs_append.1 occurs).elim wellFormed.named otherWellFormed.named

/-- The monomials of a difference come from the two operands. -/
theorem wellFormed_sub (wellFormed : polynomial.WellFormed) (otherWellFormed : other.WellFormed)
    (returned : polynomial.sub other = .ok new) : new.WellFormed := by
  refine wellFormed_mergeFrom ?_ returned
  rw [powersOf, List.map_append]
  intro occurs
  rcases occurs_append.1 occurs with left | right
  · exact wellFormed.named left
  · change Occurs noVariable (powersOf (negated other.monomials)) at right
    rw [powersOf_negated] at right
    exact otherWellFormed.named right

/-- Every variable of a product is one of a factor. -/
theorem wellFormed_mul (wellFormed : polynomial.WellFormed) (otherWellFormed : other.WellFormed)
    (returned : polynomial.mul other = .ok new) : new.WellFormed := by
  obtain ⟨monomials, written, merged, flag⟩ := mul_eq_ok.1 returned
  refine wellFormed_of_merge ?_ merged flag
  rintro ⟨product, member, has⟩
  obtain ⟨left, isLeft, right, isRight, rfl⟩ := (mem_powersOf_products written).1 member
  rcases PowerProduct.has_mul.1 has with inLeft | inRight
  · exact wellFormed.named ⟨left, isLeft, inLeft⟩
  · exact otherWellFormed.named ⟨right, isRight, inRight⟩

/-- The sign changes no powers. -/
theorem wellFormed_neg (wellFormed : polynomial.WellFormed) : polynomial.neg.WellFormed :=
  wellFormed.of_powers (powersOf_negated polynomial.monomials) rfl

/-- A power is a repeated product, starting from one. -/
theorem wellFormed_pow {exponent : Nat} (wellFormed : polynomial.WellFormed)
    (returned : polynomial.pow exponent = .ok new) : new.WellFormed := by
  induction exponent generalizing new with
  | zero =>
      cases returned
      exact wellFormed_constant _
  | succ exponent hypothesis =>
      obtain ⟨power, powerCase, product⟩ := bind_eq_ok.1 returned
      exact wellFormed_mul (hypothesis powerCase) wellFormed product

omit [Coefficient K] in
/-- An exchange of the monomials keeps the flag. -/
theorem exchange_eq_ok {result : Except Fault (List (Monomial K))} :
    (polynomial.exchange result).result = .ok new ↔
      ∃ monomials, result = .ok monomials ∧ { polynomial with monomials := monomials } = new := by
  unfold exchange
  rw [Edit.ofResult_eq_ok, map_eq_ok]

/-- A scalar needs a place among the monomials, but no variable. -/
theorem powersOf_addConstant {scalar : K} {monomials written : List (Monomial K)}
    (returned : addConstant scalar monomials = .ok written) :
    powersOf written = appendNew (powersOf monomials) .one := by
  induction monomials generalizing written with
  | nil =>
      cases returned
      rfl
  | cons head rest hypothesis =>
      have constant : head.isConstant = true ↔ head.powers = .one := PowerProduct.isOne_iff
      simp only [addConstant] at returned
      split at returned
      · rename_i isConstant
        obtain ⟨coefficient, -, rfl⟩ := map_eq_ok.1 returned
        change head.powers :: powersOf rest = appendNew (head.powers :: powersOf rest) .one
        rw [constant.1 isConstant, appendNew_cons_self]
      · rename_i isConstant
        obtain ⟨tail, tailCase, rfl⟩ := map_eq_ok.1 returned
        change head.powers :: powersOf tail = appendNew (head.powers :: powersOf rest) .one
        have different : PowerProduct.one ≠ head.powers := fun same => isConstant (constant.2 same.symm)
        rw [appendNew_cons_of_ne different, hypothesis tailCase]

/-- The scalar joins the constant monomial, or becomes one. -/
theorem wellFormed_addScalar {scalar : K} (wellFormed : polynomial.WellFormed)
    (returned : polynomial.addScalar scalar = .ok new) : new.WellFormed := by
  obtain ⟨monomials, written, rfl⟩ := exchange_eq_ok.1 returned
  have powers := powersOf_addConstant written
  have occurs (var : Int) :
      Occurs var (powersOf monomials) ↔ Occurs var (powersOf polynomial.monomials) := by
    unfold Occurs
    simp only [powers, mem_appendNew, or_and_right, exists_or, exists_eq_left,
      PowerProduct.not_has_one, or_false]
  refine ⟨?_, ?_, ?_⟩
  · unfold Distinct
    rw [powers]
    exact nodup_appendNew _ wellFormed.distinct
  · rw [occurs]
    exact wellFormed.named
  · unfold Univariate
    simp only [occurs]
    exact wellFormed.flagged

/-- The negated scalar is added. -/
theorem wellFormed_subScalar {scalar : K} (wellFormed : polynomial.WellFormed)
    (returned : polynomial.subScalar scalar = .ok new) : new.WellFormed :=
  wellFormed_addScalar wellFormed returned

omit [Coefficient K] in
/-- Where each monomial keeps its powers, so does the polynomial. -/
theorem wellFormed_mapM {step : Monomial K → Except Fault (Monomial K)}
    (fixed : ∀ item result, step item = .ok result → result.powers = item.powers)
    (wellFormed : polynomial.WellFormed)
    (returned : (polynomial.exchange (polynomial.monomials.mapM step)).result = .ok new) :
    new.WellFormed := by
  obtain ⟨monomials, written, rfl⟩ := exchange_eq_ok.1 returned
  exact wellFormed.of_powers (powersOf_mapM fixed written) rfl

/-- Scaling concerns the coefficient only. -/
theorem powers_scaled {item result : Monomial K} {scalar : K}
    (returned : item.scaled scalar = .ok result) : result.powers = item.powers := by
  obtain ⟨coefficient, -, rfl⟩ := map_eq_ok.1 returned
  rfl

/-- Division by a scalar concerns the coefficient only. -/
theorem powers_divideScalar {item result : Monomial K} {scalar : K}
    (returned : item.divideScalar scalar = .ok result) : result.powers = item.powers := by
  obtain ⟨coefficient, -, rfl⟩ := map_eq_ok.1 returned
  rfl

/-- All monomials are scaled, and none is merged. -/
theorem wellFormed_scale {scalar : K} (wellFormed : polynomial.WellFormed)
    (returned : polynomial.scale scalar = .ok new) : new.WellFormed :=
  wellFormed_mapM (fun _ _ => powers_scaled) wellFormed returned

/-- All monomials are divided, and none is merged. -/
theorem wellFormed_divide {scalar : K} (wellFormed : polynomial.WellFormed)
    (returned : polynomial.divide scalar = .ok new) : new.WellFormed :=
  wellFormed_mapM (fun _ _ => powers_divideScalar) wellFormed returned

/-- The new name is a proper variable, and the renamed monomials are merged. -/
theorem wellFormed_rename {old var : Int} (named : var ≠ noVariable)
    (wellFormed : polynomial.WellFormed)
    (returned : polynomial.rename old var = .ok new) : new.WellFormed := by
  refine wellFormed_mergeFrom ?_ returned
  intro occurs
  obtain ⟨renamed, member, has⟩ := occurs_powersOf.1 occurs
  obtain ⟨item, isItem, rfl⟩ := List.mem_map.1 member
  rcases PowerProduct.has_rename has with same | hasOld
  · exact named same.symm
  · exact wellFormed.named (occurs_powersOf.2 ⟨item, isItem, hasOld⟩)

/-- The variables that are left were there before. -/
theorem wellFormed_evaluatePartial {values : Assignment K} (wellFormed : polynomial.WellFormed)
    (returned : polynomial.evaluatePartial values = .ok new) : new.WellFormed := by
  obtain ⟨monomials, written, built⟩ := bind_eq_ok.1 returned
  refine wellFormed_ofMonomials ?_ built
  intro occurs
  obtain ⟨result, member, has⟩ := occurs_powersOf.1 occurs
  obtain ⟨item, isItem, substituted⟩ := exists_of_mem_mapM written member
  obtain ⟨coefficient, -, rfl⟩ := map_eq_ok.1 substituted
  exact wellFormed.named (occurs_powersOf.2 ⟨item, isItem, PowerProduct.has_filter has⟩)

/-- A power has at most one variable. -/
theorem has_power {var other : Int} {power : Nat} (has : (PowerProduct.power var power).Has other) :
    var = other := by
  unfold PowerProduct.power at has
  split at has
  · exact PowerProduct.has_ofFactor.1 has
  · exact (PowerProduct.not_has_one has).elim

/-- A derived monomial has no new variable. -/
theorem has_derivative? {order : Nat} {item result : Monomial K} {var : Int}
    (returned : item.derivative? order = .ok (some result)) (has : result.powers.Has var) :
    item.powers.Has var := by
  unfold Monomial.derivative? at returned
  split at returned
  · cases returned
  · rename_i factor others factors
    split at returned
    · cases returned
    · obtain ⟨coefficient, -, same⟩ := map_eq_ok.1 returned
      cases same
      exact ⟨factor, factors ▸ List.mem_cons_self, has_power has⟩

/-- Derived monomials lose factors at most, and are merged. -/
theorem wellFormed_derivative {order : Int} (wellFormed : polynomial.WellFormed)
    (returned : polynomial.derivative order = .ok new) : new.WellFormed := by
  obtain ⟨-, -, returned⟩ := bind_eq_ok.1 returned
  split at returned
  · cases returned
  · split at returned
    · cases returned
      exact wellFormed
    · obtain ⟨derivatives, written, built⟩ := bind_eq_ok.1 returned
      refine wellFormed_ofMonomials ?_ built
      intro occurs
      obtain ⟨result, member, has⟩ := occurs_powersOf.1 occurs
      obtain ⟨kept, isKept, same⟩ := List.mem_filterMap.1 member
      cases same
      obtain ⟨item, isItem, derived⟩ := exists_of_mem_mapM written isKept
      exact wellFormed.named (occurs_powersOf.2 ⟨item, isItem, has_derivative? derived has⟩)

/-- An integrated monomial has its own variable or the first one of the polynomial. -/
theorem has_integralOf {vars : List Int} {item result : Monomial K} {var : Int}
    (returned : integralOf vars item = .ok result) (has : result.powers.Has var) :
    var ∈ vars ∨ item.powers.Has var := by
  unfold integralOf at returned
  split at returned
  · split at returned
    · cases returned
    · cases returned
      rw [← PowerProduct.has_ofFactor.1 has]
      exact .inl List.mem_cons_self
  · rename_i factor others factors
    obtain ⟨coefficient, -, same⟩ := map_eq_ok.1 returned
    cases same
    exact .inr ⟨factor, factors ▸ List.mem_cons_self, has_power has⟩

/-- Integration brings a variable that the polynomial has already. -/
theorem wellFormed_integral {constant : K} (wellFormed : polynomial.WellFormed)
    (returned : polynomial.integral constant = .ok new) : new.WellFormed := by
  obtain ⟨-, -, returned⟩ := bind_eq_ok.1 returned
  obtain ⟨integrals, written, built⟩ := bind_eq_ok.1 returned
  refine wellFormed_ofMonomials ?_ built
  rw [powersOf, List.map_append]
  intro occurs
  rcases occurs_append.1 occurs with inIntegrals | inConstant
  · obtain ⟨result, member, has⟩ := occurs_powersOf.1 inIntegrals
    obtain ⟨item, isItem, integrated⟩ := exists_of_mem_mapM written member
    rcases has_integralOf integrated has with inVars | inItem
    · exact wellFormed.named (mem_vars.1 inVars)
    · exact wellFormed.named (occurs_powersOf.2 ⟨item, isItem, inItem⟩)
  · obtain ⟨product, member, has⟩ := inConstant
    rw [List.mem_singleton.1 member] at has
    exact PowerProduct.not_has_one has

omit [Coefficient K] in
/-- The variables written in a list of powers are those of the monomial. -/
theorem has_create {coefficient : K} {powers : List (Int × Int)} {item : Monomial K} {var : Int}
    (returned : Monomial.create coefficient powers = .ok item) (has : item.powers.Has var) :
    ∃ power ∈ powers, power.1 = var := by
  obtain ⟨factors, written, same⟩ := bind_eq_ok.1 returned
  cases same
  obtain ⟨factor, member, rfl⟩ := PowerProduct.has_ofFactors.1 has
  obtain ⟨power, isPower, made⟩ := exists_of_mem_mapM written member
  unfold Factor.make at made
  split at made
  · cases made
    exact ⟨power, isPower, rfl⟩
  · cases made

/-- The variables of a new monomial are among the given ones. -/
theorem wellFormed_ofPowers {coefficient : K} {powers : List (Int × Int)}
    (named : ∀ power ∈ powers, power.1 ≠ noVariable)
    (returned : ofPowers coefficient powers = .ok new) : new.WellFormed := by
  obtain ⟨item, created, built⟩ := bind_eq_ok.1 returned
  refine wellFormed_ofMonomials ?_ built
  intro occurs
  obtain ⟨other, member, has⟩ := occurs_powersOf.1 occurs
  rw [List.mem_singleton.1 member] at has
  obtain ⟨power, isPower, same⟩ := has_create created has
  exact named power isPower same

/-- A variable with any coefficient. -/
theorem wellFormed_ofVariable {var : Int} {coefficient : K} (named : var ≠ noVariable)
    (returned : ofVariable var coefficient = .ok new) : new.WellFormed := by
  refine wellFormed_ofMonomials ?_ returned
  intro occurs
  obtain ⟨item, member, has⟩ := occurs_powersOf.1 occurs
  rw [List.mem_singleton.1 member] at has
  exact named (PowerProduct.has_ofFactor.1 has)

end Polynomial

end TrigAlgebra
