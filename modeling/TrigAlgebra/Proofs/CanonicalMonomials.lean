/-
This file proves that the factors of a monomial are a normal form of the powers it is made from: they
depend on nothing but the sum of the powers given for each variable.
-/

import Mathlib.Algebra.BigOperators.Group.List.Basic
import TrigAlgebra.Monomial
import TrigAlgebra.Number.Coefficient
import TrigAlgebra.Proofs.Exponents
import TrigAlgebra.Proofs.Results

namespace TrigAlgebra

/-- The variable and the power as they are given to a monomial. -/
def Factor.pair (factor : Factor) : Int × Int := (factor.var, factor.power)

/-- A factor is made of any variable and positive power. -/
theorem Factor.make_eq_ok {var power : Int} {factor : Factor} :
    Factor.make var power = .ok factor ↔ factor.pair = (var, power) := by
  have positive := factor.positive
  unfold Factor.make Factor.pair
  rw [Prod.mk.injEq]
  split
  · obtain ⟨given, natural, _⟩ := factor
    rw [Except.ok.injEq, Factor.mk.injEq]
    dsimp only
    omega
  · refine iff_of_false ?_ (by omega)
    rintro ⟨⟩

/-- A factor is refused for its power, which is shown. -/
theorem Factor.make_eq_error {var power : Int} {fault : Fault} :
    Factor.make var power = .error fault ↔
      power < 1 ∧ fault = (Fault.powerBelowOne power).showing [power] := by
  unfold Factor.make
  split
  · refine iff_of_false ?_ (by omega)
    rintro ⟨⟩
  · rw [Except.error.injEq, eq_comm]
    exact ⟨fun same => ⟨by omega, same⟩, And.right⟩

/-- The sum of the powers given for a variable. -/
def totalPower (powers : List (Int × Int)) (var : Int) : Int :=
  ((powers.filter fun power => power.1 == var).map Prod.snd).sum

theorem totalPower_cons (power : Int × Int) (powers : List (Int × Int)) (var : Int) :
    totalPower (power :: powers) var = (if power.1 = var then power.2 else 0) + totalPower powers var := by
  unfold totalPower
  rw [List.filter_cons]
  by_cases same : power.1 = var
  · rw [if_pos (beq_iff_eq.2 same), if_pos same, List.map_cons, List.sum_cons]
  · rw [if_neg (beq_iff_eq.not.2 same), if_neg same, zero_add]

/-- The total power does not depend on the order. -/
theorem totalPower_perm {powers permuted : List (Int × Int)} (perm : powers.Perm permuted) (var : Int) :
    totalPower powers var = totalPower permuted var :=
  ((perm.filter _).map Prod.snd).sum_eq

/-- The total power of factors is the exponent of the variable. -/
theorem totalPower_pairs (factors : List Factor) (var : Int) :
    totalPower (factors.map Factor.pair) var = exponentsOf factors var := by
  induction factors with
  | nil => rfl
  | cons head rest hypothesis =>
      rw [List.map_cons, totalPower_cons, hypothesis, exponentsOf_cons, Finsupp.add_apply,
        Finsupp.single_apply, Nat.cast_add, Nat.cast_ite]
      rfl

/-- The factors that can be made of given powers are those with these pairs. -/
theorem mapM_make_eq_ok {powers : List (Int × Int)} {factors : List Factor} :
    (powers.mapM fun power => Factor.make power.1 power.2) = .ok factors ↔
      factors.map Factor.pair = powers := by
  have each (power : Int × Int) (factor : Factor) :
      Factor.make power.1 power.2 = .ok factor ↔ power = factor.pair :=
    Factor.make_eq_ok.trans eq_comm
  rw [mapM_eq_ok, eq_comm, ← List.forall₂_eq_eq_eq, List.forall₂_map_right_iff]
  simp only [each]

/-- The first power below one is the one that is refused. -/
theorem mapM_make_eq_error {powers : List (Int × Int)} {fault : Fault} :
    (powers.mapM fun power => Factor.make power.1 power.2) = .error fault ↔
      ∃ power, powers.find? (fun power => power.2 < 1) = some power ∧
        fault = (Fault.powerBelowOne power.2).showing [power.2] := by
  induction powers with
  | nil => exact iff_of_false pure_ne_error fun ⟨_, absurd, _⟩ => nomatch absurd
  | cons head rest hypothesis =>
      rw [mapM_cons_eq_error, Factor.make_eq_error, hypothesis, List.find?_cons]
      by_cases below : head.2 < 1
      · have unmade : ¬ ∃ factor, Factor.make head.1 head.2 = .ok factor := by
          rw [Factor.make, dif_neg (Int.not_le.2 below)]
          exact fun ⟨_, absurd⟩ => nomatch absurd
        simp [below, unmade]
      · have made : ∃ factor, Factor.make head.1 head.2 = .ok factor := ⟨_, dif_pos (Int.not_lt.1 below)⟩
        simp [below, made]

namespace PowerProduct

/-- The factors as they are given to a monomial. -/
def pairs (product : PowerProduct) : List (Int × Int) := product.factors.map Factor.pair

/-- A product is rebuilt from its own factors. -/
theorem ofFactors_factors (product : PowerProduct) : ofFactors product.factors = product :=
  exponents_injective (exponents_ofFactors product.factors)

/-- Merged factors have the total power. -/
theorem degreeOf_ofFactors (factors : List Factor) (var : Int) :
    ((ofFactors factors).degreeOf var : Int) = totalPower (factors.map Factor.pair) var := by
  rw [totalPower_pairs, ← exponents_apply, exponents_ofFactors]

end PowerProduct

namespace Monomial

variable {K : Type} {coefficient : K} {powers permuted : List (Int × Int)} {item : Monomial K}

/-- A monomial is created if all factors are. -/
theorem create_eq_ok : create coefficient powers = .ok item ↔
    ∃ factors, factors.map Factor.pair = powers ∧ ⟨coefficient, .ofFactors factors⟩ = item := by
  unfold create
  simp only [bind_eq_ok, pure_eq_ok, mapM_make_eq_ok]

/-- Positive powers are never refused. -/
theorem exists_create (coefficient : K) (natural : ∀ power ∈ powers, 1 ≤ power.2) :
    ∃ item, create coefficient powers = .ok item := by
  have each : ∀ power ∈ powers, ∃ factor, Factor.make power.1 power.2 = .ok factor :=
    fun power member => ⟨_, dif_pos (natural power member)⟩
  obtain ⟨factors, made⟩ := mapM_returns_iff.2 each
  exact ⟨_, create_eq_ok.2 ⟨factors, mapM_make_eq_ok.1 made, rfl⟩⟩

/-- The coefficient is taken as it is. -/
theorem coefficient_of_create (created : create coefficient powers = .ok item) :
    item.coefficient = coefficient := by
  obtain ⟨factors, -, rfl⟩ := create_eq_ok.1 created
  rfl

/-- A monomial is refused for its first power below one. -/
theorem create_eq_error {fault : Fault} : create coefficient powers = .error fault ↔
    ∃ power, powers.find? (fun power => power.2 < 1) = some power ∧
      fault = (Fault.powerBelowOne power.2).showing [power.2] := by
  unfold create
  simp only [bind_eq_error, pure_ne_error, and_false, exists_false, or_false, mapM_make_eq_error]

theorem create_refused_iff :
    (∃ fault, create coefficient powers = .error fault) ↔ ∃ power ∈ powers, power.2 < 1 := by
  have found : (powers.find? fun power => power.2 < 1).isSome = true ↔ ∃ power ∈ powers, power.2 < 1 := by
    simp only [List.find?_isSome, decide_eq_true_eq]
  rw [← found, Option.isSome_iff_exists]
  simp only [create_eq_error]
  exact ⟨fun ⟨_, power, first, _⟩ => ⟨power, first⟩, fun ⟨power, first⟩ => ⟨_, power, first, rfl⟩⟩

/-- A monomial is rebuilt from its own pairs. -/
theorem create_pairs (item : Monomial K) : create item.coefficient item.powers.pairs = .ok item :=
  create_eq_ok.2 ⟨item.powers.factors, rfl, by rw [PowerProduct.ofFactors_factors]⟩

/-- Every variable gets its total power. -/
theorem degreeOf_of_create (created : create coefficient powers = .ok item) (var : Int) :
    (item.degreeOf var : Int) = totalPower powers var := by
  obtain ⟨factors, rfl, rfl⟩ := create_eq_ok.1 created
  exact PowerProduct.degreeOf_ofFactors factors var

/-- A created monomial was given positive powers. -/
theorem natural_of_create (created : create coefficient powers = .ok item) :
    ∀ power ∈ powers, 1 ≤ power.2 := by
  obtain ⟨factors, rfl, -⟩ := create_eq_ok.1 created
  intro power member
  obtain ⟨factor, -, rfl⟩ := List.mem_map.1 member
  exact Int.toNat_le.1 factor.positive

/-- A monomial is known by its coefficient and its exponents. -/
theorem ext_degreeOf {first second : Monomial K} (coefficients : first.coefficient = second.coefficient)
    (degrees : ∀ var, first.degreeOf var = second.degreeOf var) : first = second := by
  have powers := PowerProduct.degreeOf_injective degrees
  cases first
  cases second
  congr

/-- Only the totals of the powers count, so their order does not. -/
theorem create_perm (created : create coefficient powers = .ok item) (perm : powers.Perm permuted) :
    create coefficient permuted = .ok item := by
  have natural : ∀ power ∈ permuted, 1 ≤ power.2 := fun power member =>
    natural_of_create created power (perm.mem_iff.2 member)
  obtain ⟨other, created'⟩ := exists_create coefficient natural
  have same : other = item := by
    refine ext_degreeOf ((coefficient_of_create created').trans (coefficient_of_create created).symm)
      fun var => Int.ofNat_inj.1 ?_
    rw [degreeOf_of_create created', degreeOf_of_create created, totalPower_perm perm]
  rw [created', same]

/-- The test compares all exponents. -/
theorem sameExponents_iff {first second : Monomial K} :
    first.sameExponents second = true ↔ ∀ var, first.degreeOf var = second.degreeOf var := by
  unfold sameExponents
  rw [beq_iff_eq]
  exact ⟨fun same var => congrArg (PowerProduct.degreeOf · var) same, PowerProduct.degreeOf_injective⟩

/-- A product returns when that of the coefficients does, and has the sum of the powers. -/
theorem mul_eq_ok [Coefficient K] {first second product : Monomial K} : first.mul second = .ok product ↔
    Coefficient.mul first.coefficient second.coefficient = .ok product.coefficient ∧
      ∀ var, product.degreeOf var = first.degreeOf var + second.degreeOf var := by
  unfold mul
  rw [map_eq_ok]
  constructor
  · rintro ⟨coefficient, computed, rfl⟩
    exact ⟨computed, PowerProduct.degreeOf_mul first.powers second.powers⟩
  · rintro ⟨computed, degrees⟩
    refine ⟨product.coefficient, computed, ext_degreeOf rfl fun var => ?_⟩
    rw [degrees]
    exact PowerProduct.degreeOf_mul first.powers second.powers var

/-- The variables of the factors increase, and each one has the sum of the powers given for it. -/
structure Collects (item : Monomial K) (powers : List (Int × Int)) : Prop where
  increasing : item.powers.factors.Pairwise fun first second => first.var < second.var
  positive : ∀ factor ∈ item.powers.factors, 1 ≤ factor.power
  degree : ∀ var, (item.degreeOf var : Int) = totalPower powers var

/-- A created monomial collects its powers. -/
theorem collects_of_create (created : create coefficient powers = .ok item) : item.Collects powers where
  increasing := item.powers.increasing
  positive factor _ := factor.positive
  degree := degreeOf_of_create created

/-- Powers are refused for the first one below one and for nothing else. From all others comes a monomial
that collects them, the same one in any order of the powers. It is made again from its own factors, two
monomials have the same exponents when they agree on every variable, and a product adds the exponents. -/
theorem create_canonical [Coefficient K] (coefficient : K) (powers : List (Int × Int)) :
    ((∃ fault, create coefficient powers = .error fault) ↔ ∃ power ∈ powers, power.2 < 1) ∧
    (∀ fault, create coefficient powers = .error fault ↔
      ∃ power, powers.find? (fun power => power.2 < 1) = some power ∧
        fault = (Fault.powerBelowOne power.2).showing [power.2]) ∧
    ((∀ power ∈ powers, 1 ≤ power.2) → ∃ item, create coefficient powers = .ok item ∧
      item.coefficient = coefficient ∧ item.Collects powers ∧
        ∀ permuted, powers.Perm permuted → create coefficient permuted = .ok item) ∧
    (∀ item : Monomial K, create item.coefficient item.powers.pairs = .ok item ∧
      PowerProduct.ofFactors item.powers.factors = item.powers) ∧
    (∀ first second : Monomial K, first.sameExponents second = true ↔
      ∀ var, first.degreeOf var = second.degreeOf var) ∧
    (∀ first second product : Monomial K, first.mul second = .ok product ↔
      Coefficient.mul first.coefficient second.coefficient = .ok product.coefficient ∧
        ∀ var, product.degreeOf var = first.degreeOf var + second.degreeOf var) := by
  refine ⟨create_refused_iff, fun fault => create_eq_error, fun natural => ?_,
    fun item => ⟨create_pairs item, PowerProduct.ofFactors_factors item.powers⟩,
    fun first second => sameExponents_iff, fun first second product => mul_eq_ok⟩
  obtain ⟨item, created⟩ := exists_create coefficient natural
  exact ⟨item, created, coefficient_of_create created, collects_of_create created,
    fun permuted => create_perm created⟩

/-- One variable is given twice, around another one that comes before it. -/
theorem create_canonical_repeatedVariable :
    let powers : List (Int × Int) := [(6, 1), (-3, 2), (6, 3)]
    let permuted : List (Int × Int) := [(6, 3), (6, 1), (-3, 2)]
    (∀ power ∈ powers, 1 ≤ power.2) ∧ powers.Perm permuted ∧
      ∃ item : Monomial Number, create (.integer 5) powers = .ok item ∧
        create (.integer 5) permuted = .ok item ∧ create (.integer 5) [(-3, 2), (6, 4)] = .ok item ∧
          item.degreeOf 6 = 4 ∧ item.degreeOf (-3) = 2 ∧ item.degreeOf 7 = 0 := by
  intro powers permuted
  have natural : ∀ power ∈ powers, 1 ≤ power.2 := by decide
  have perm : powers.Perm permuted := by decide
  obtain ⟨-, -, returns, rebuilt, -⟩ := create_canonical (Number.integer 5) powers
  obtain ⟨item, created, coefficient, collects, same⟩ := returns natural
  have pairs : item.powers.pairs = [(-3, 2), (6, 4)] :=
    congrArg (fun item => item.powers.pairs) (Except.ok.inj created.symm)
  have again := (rebuilt item).1
  rw [coefficient, pairs] at again
  have degree (var : Int) : item.degreeOf var = (totalPower powers var).toNat :=
    (Int.toNat_natCast _).symm.trans (congrArg Int.toNat (collects.degree var))
  exact ⟨natural, perm, item, created, same permuted perm, again, degree 6, degree (-3), degree 7⟩

end Monomial

end TrigAlgebra
