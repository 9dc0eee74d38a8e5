/-
This file proves the closed form of the sine and cosine of a multiple of an angle: one monomial for
every odd or every even power of the sine, with a binomial coefficient in exact arithmetic and never
with the coefficient zero in rounded arithmetic.
-/

import Mathlib.Data.Nat.Choose.Sum
import TrigAlgebra.Proofs.CoefficientSigns
import TrigAlgebra.Proofs.SingleMonomials
import TrigAlgebra.Proofs.SummandOrder

namespace TrigAlgebra

open MvPolynomial TrigAlgebra.Polynomial TrigPolynomial

namespace Circular

/-- How many numbers up to a size have the parity of the function. -/
def termCount : Circular → Nat → Nat
  | .sine, size => (size + 1) / 2
  | .cosine, size => size / 2 + 1

/-- The real or imaginary part of a power of the imaginary unit. -/
def unitPart (function : Circular) (exponent : Nat) : Int :=
  if exponent % 2 = function.parity then (-1) ^ (exponent / 2) else 0

/-- The coefficient of a power of the sine in a multiple. -/
def multipleCoefficient (function : Circular) (multiple : Int) (sines : Nat) : Int :=
  match function with
  | .sine =>
      if multiple < 0 then -((-1) ^ (sines / 2) * multiple.natAbs.choose sines)
      else (-1) ^ (sines / 2) * multiple.natAbs.choose sines
  | .cosine => (-1) ^ (sines / 2) * multiple.natAbs.choose sines

/-- The numbers of the parity of the function are counted by their halves. -/
theorem exists_half_iff {function : Circular} {size sines : Nat} :
    (∃ half < function.termCount size, 2 * half + function.parity = sines) ↔
      sines ≤ size ∧ sines % 2 = function.parity := by
  constructor
  · rintro ⟨half, below, rfl⟩
    cases function <;> simp only [termCount, parity] at below ⊢ <;> omega
  · rintro ⟨inside, same⟩
    refine ⟨sines / 2, ?_, by rw [← same, Nat.div_add_mod]⟩
    cases function <;> simp only [termCount, parity] at same ⊢ <;> omega

/-- The sine of one more right angle. -/
theorem unitPart_sine_succ (exponent : Nat) :
    unitPart .sine (exponent + 1) = unitPart .cosine exponent := by
  by_cases even : exponent % 2 = parity .cosine
  · have odd : (exponent + 1) % 2 = parity .sine := Nat.succ_mod_two_eq_one_iff.2 even
    have half : (exponent + 1) / 2 = exponent / 2 := Nat.succ_div_of_mod_ne_zero (by rw [odd]; decide)
    rw [unitPart, unitPart, if_pos odd, if_pos even, half]
  · have notOdd : ¬ (exponent + 1) % 2 = parity .sine := mt Nat.succ_mod_two_eq_one_iff.1 even
    rw [unitPart, unitPart, if_neg notOdd, if_neg even]

/-- The cosine of one more right angle. -/
theorem unitPart_cosine_succ (exponent : Nat) :
    unitPart .cosine (exponent + 1) = -unitPart .sine exponent := by
  by_cases odd : exponent % 2 = parity .sine
  · have even : (exponent + 1) % 2 = parity .cosine := Nat.succ_mod_two_eq_zero_iff.2 odd
    have half : (exponent + 1) / 2 = exponent / 2 + 1 := Nat.succ_div_of_mod_eq_zero even
    rw [unitPart, unitPart, if_pos even, if_pos odd, half, pow_succ, mul_neg_one]
  · have notEven : ¬ (exponent + 1) % 2 = parity .cosine := mt Nat.succ_mod_two_eq_zero_iff.1 odd
    rw [unitPart, unitPart, if_neg notEven, if_neg odd, neg_zero]

end Circular

namespace Rotation

open QuadraticAlgebra (omega)

variable {R : Type} [CommRing R]

/-- The parts of a number of right angles. -/
theorem part_omega_pow (function : Circular) (exponent : Nat) :
    part function ((omega : Rotation R) ^ exponent) = (function.unitPart exponent : MvPolynomial Int R) := by
  have cosine : part .cosine (omega : Rotation R) = 0 := rfl
  have sine : part .sine (omega : Rotation R) = 1 := rfl
  induction exponent generalizing function with
  | zero =>
      rw [pow_zero]
      cases function with
      | sine => exact Int.cast_zero.symm
      | cosine => exact Int.cast_one.symm
  | succ exponent hypothesis =>
      rw [pow_succ]
      cases function with
      | sine =>
          rw [sine_mul, cosine, sine, mul_zero, zero_add, mul_one, hypothesis,
            Circular.unitPart_sine_succ]
      | cosine =>
          rw [cosine_mul, cosine, sine, mul_zero, zero_sub, mul_one, hypothesis,
            Circular.unitPart_cosine_succ, Int.cast_neg]

/-- Parts of sums are sums of parts. -/
theorem part_sum (function : Circular) (indices : Finset Nat) (rotation : Nat → Rotation R) :
    (∑ index ∈ indices, rotation index).part function =
      ∑ index ∈ indices, (rotation index).part function := by
  cases function with
  | sine => exact map_sum (QuadraticAlgebra.imₗ (-1) 0) rotation indices
  | cosine => exact map_sum (QuadraticAlgebra.reₗ (-1) 0) rotation indices

/-- A factor multiplies both parts. -/
theorem part_smul (function : Circular) (scalar : MvPolynomial Int R) (rotation : Rotation R) :
    (scalar • rotation).part function = scalar * rotation.part function := by
  cases function <;> rfl

theorem monomial_ofSines (found : Placeholders) (size sines : Nat) (coefficient : R) :
    monomial (PowerProduct.ofSines found size sines).exponents coefficient =
      C coefficient * (X found.cosine ^ (size - sines) * X found.sine ^ sines) := by
  rw [PowerProduct.ofSines, PowerProduct.exponents_mul, PowerProduct.exponents_power,
    PowerProduct.exponents_power, X_pow_eq_monomial, X_pow_eq_monomial, monomial_mul, C_mul_monomial,
    mul_one, mul_one]

/-- The binomial theorem for the cosine and the sine of a multiple. -/
theorem part_ofPlaceholders_pow (function : Circular) (found : Placeholders) (size : Nat) :
    ((ofPlaceholders found : Rotation R) ^ size).part function = ∑ sines ∈ Finset.range (size + 1),
      monomial (PowerProduct.ofSines found size sines).exponents
        (function.unitPart sines * size.choose sines : R) := by
  have split : (ofPlaceholders found : Rotation R) = (X found.sine : MvPolynomial Int R) • omega +
      algebraMap (MvPolynomial Int R) (Rotation R) (X found.cosine) :=
    (QuadraticAlgebra.mk_eq_add_smul_omega _ _).trans (add_comm _ _)
  rw [split, add_pow, part_sum]
  refine Finset.sum_congr rfl fun sines _ => ?_
  have term : ((X found.sine : MvPolynomial Int R) • (omega : Rotation R)) ^ sines *
      algebraMap (MvPolynomial Int R) (Rotation R) (X found.cosine) ^ (size - sines) *
        (size.choose sines : Rotation R) =
        ((size.choose sines : MvPolynomial Int R) *
          (X found.cosine ^ (size - sines) * X found.sine ^ sines)) • omega ^ sines := by
    rw [smul_pow, ← map_pow, ← map_natCast (algebraMap (MvPolynomial Int R) (Rotation R)),
      Algebra.smul_def, Algebra.smul_def, map_mul, map_mul]
    ring
  rw [term, part_smul, part_omega_pow, monomial_ofSines, C_mul, map_intCast, map_natCast]
  ring

/-- Where the placeholders differ, every power of the sine has its own coefficient. -/
theorem coeff_ofPlaceholders_pow (function : Circular) {found : Placeholders}
    (different : found.sine ≠ found.cosine) {size sines : Nat} (inside : sines ≤ size) :
    coeff (PowerProduct.ofSines found size sines).exponents
      (((ofPlaceholders found : Rotation R) ^ size).part function) =
        function.unitPart sines * size.choose sines := by
  rw [part_ofPlaceholders_pow, coeff_sum]
  simp only [coeff_monomial, PowerProduct.exponents_injective.eq_iff,
    (PowerProduct.ofSines_injective different size).eq_iff]
  rw [Finset.sum_ite_eq', if_pos (Finset.mem_range.2 (Nat.lt_succ_of_le inside))]

/-- The coefficients of a multiple turn are binomials with a sign. -/
theorem coeff_turn (function : Circular) {found : Placeholders} (different : found.sine ≠ found.cosine)
    {multiple : Int} {sines : Nat} (inside : sines ≤ multiple.natAbs)
    (parity : sines % 2 = function.parity) :
    coeff (PowerProduct.ofSines found multiple.natAbs sines).exponents
      (((ofPlaceholders found : Rotation R).turn multiple).part function) =
        (function.multipleCoefficient multiple sines : R) := by
  have power := coeff_ofPlaceholders_pow (R := R) function different inside
  rw [Circular.unitPart, if_pos parity, ← Int.cast_natCast, ← Int.cast_mul] at power
  unfold turn Circular.multipleCoefficient
  by_cases negative : multiple < 0
  · simp only [if_pos negative]
    cases function with
    | sine => rw [sine_star, coeff_neg, power, Int.cast_neg]
    | cosine => rw [cosine_star, power]
  · simp only [if_neg negative]
    cases function <;> exact power

end Rotation

namespace Number

variable {whole : Int}

theorem floatOfInt_of_isFinite (finite : (Binary64.ofInt whole).isFinite = true) :
    floatOfInt whole = .ok (Binary64.ofInt whole) := floatOfInt_eq_ok.2 ⟨finite, rfl⟩

/-- An integer that can be rounded is read back. -/
theorem integer?_of_isFinite (finite : (Binary64.ofInt whole).isFinite = true) :
    Coefficient.integer? (integer whole) = .ok (some whole) :=
  map_eq_ok.2 ⟨Binary64.ofInt whole, floatOfInt_of_isFinite finite, rfl⟩

/-- An integer that cannot be rounded is refused. -/
theorem integer?_of_not_isFinite (infinite : ¬ (Binary64.ofInt whole).isFinite = true) :
    Coefficient.integer? (integer whole) = .error .integerTooLarge :=
  map_eq_error.2 (if_neg infinite)

end Number

namespace TrigPolynomial

section Shape

variable {K : Type} [Coefficient K]

/-- The argument is an integer multiple of one variable, which has placeholders. -/
structure TurnsBy (var : Int) (found : Placeholders) (multiple : Int) (coefficient : K)
    (trig : TrigPolynomial K) : Prop where
  shape : trig.polynomial.monomials = [⟨coefficient, .ofFactor (.linear var)⟩]
  known : trig.angles.find? var = some found
  integer : Coefficient.integer? coefficient = .ok (some multiple)

/-- One monomial for every power of the sine up to the size that has the parity of the function; the
power of the cosine fills up to the size. -/
structure IsMultiple (function : Circular) (found : Placeholders) (size : Nat) (trig : TrigPolynomial K) :
    Prop where
  mem_iff : ∀ product, product ∈ powersOf trig.polynomial.monomials ↔
    ∃ sines ≤ size, sines % 2 = function.parity ∧ product = .ofSines found size sines
  distinct : trig.polynomial.Distinct
  length_eq : trig.polynomial.monomials.length = function.termCount size

variable {function : Circular} {found : Placeholders} {size : Nat} {angles : AngleMap}
  {trig : TrigPolynomial K} {var multiple : Int} {coefficient : K}

omit [Coefficient K] in
/-- Whatever is supported by that many turns has the products of the multiple angle. -/
theorem isMultiple_of_supported (different : found.sine ≠ found.cosine)
    (supported : Supported ((Footprint.ofPlaceholders found ^ size).part function) angles trig) :
    IsMultiple function found size trig := by
  have members (product : PowerProduct) : product ∈ powersOf trig.polynomial.monomials ↔
      ∃ sines ≤ size, sines % 2 = function.parity ∧ product = .ofSines found size sines := by
    rw [supported.mem_iff, Footprint.mem_part_pow]
  refine ⟨members, supported.distinct, ?_⟩
  have halves : (powersOf trig.polynomial.monomials).Perm
      ((List.range (function.termCount size)).map fun half =>
        .ofSines found size (2 * half + function.parity)) := by
    refine (List.perm_ext_iff_of_nodup supported.distinct (List.nodup_range.map ?_)).2 fun product => ?_
    · intro half half' same
      have sines := PowerProduct.ofSines_injective different size same
      omega
    · rw [members, List.mem_map]
      constructor
      · rintro ⟨sines, inside, parity, rfl⟩
        obtain ⟨half, below, rfl⟩ := Circular.exists_half_iff.2 ⟨inside, parity⟩
        exact ⟨half, List.mem_range.2 below, rfl⟩
      · rintro ⟨half, inRange, rfl⟩
        obtain ⟨inside, parity⟩ := Circular.exists_half_iff.1 ⟨half, List.mem_range.1 inRange, rfl⟩
        exact ⟨_, inside, parity, rfl⟩
  have count := halves.length_eq
  rwa [powersOf, List.length_map, List.length_map, List.length_range] at count

/-- The sine or cosine of a multiple other than plus and minus one is built by adding angles. -/
theorem outcome_expand_multiple (turns : TurnsBy var found multiple coefficient trig)
    (nonzero : ¬ Coefficient.isZero coefficient = true) (large : multiple.natAbs ≠ 1) :
    (expand function trig).outcome = (multipleAngle function trig.angles
      ⟨coefficient, .ofFactor (.linear var)⟩ found multiple).outcome := by
  have checked : checkArgument function trig = .ok () := by
    rw [checkArgument_eq_ok, turns.shape, List.forall_mem_singleton]
    exact .inr ⟨var, rfl⟩
  rw [expand_singleton checked turns.shape, expandMonomial_linear function rfl nonzero,
    placeholders_eq_ok.2 ⟨turns.known, turns.integer⟩]
  exact if_neg large

end Shape

section Arithmetic

variable {R : Type} [CommRing R] [Coefficient R] [RingCoefficient R]

/-- The coefficient of every product in a multiple angle. -/
theorem coefficient_multipleAngle {function : Circular} {angles : AngleMap} {item term : Monomial R}
    {found : Placeholders} {multiple : Int} {result : TrigPolynomial R} {sines : Nat}
    (different : found.sine ≠ found.cosine) (nonzero : multiple ≠ 0)
    (returned : (multipleAngle function angles item found multiple).outcome = .ok result)
    (member : term ∈ result.polynomial.monomials)
    (powers : term.powers = .ofSines found multiple.natAbs sines) :
    term.coefficient = (function.multipleCoefficient multiple sines : R) := by
  have supported := supported_multipleAngle nonzero returned
  obtain ⟨sines', inside, parity, powers'⟩ := (Footprint.mem_part_pow _ _ _ _).1
    ((supported.mem_iff _).1 (List.mem_map_of_mem member))
  obtain rfl : sines' = sines :=
    PowerProduct.ofSines_injective different multiple.natAbs (powers'.symm.trans powers)
  have known : coeff term.powers.exponents result.formal = term.coefficient :=
    Reading.coeff_formal_of_mem supported.distinct member
  rw [← known, formal_multipleAngle nonzero returned, powers,
    Rotation.coeff_turn function different inside parity]

/-- Every multiple of a variable with two different placeholders has a sine and a cosine of the closed
form: in rounded arithmetic, where the variable has a name and the integer a rounded value, with no
coefficient zero, and in a ring with binomial coefficients. -/
theorem expand_multiple (function : Circular) (var : Int) (found : Placeholders) (multiple : Int)
    (different : found.sine ≠ found.cosine) (large : 2 ≤ multiple.natAbs) :
    (∀ (coefficient : Number) (trig : TrigPolynomial Number),
      TurnsBy var found multiple coefficient trig → coefficient.Convertible →
        NamingTable.Names {} var →
          ∃ result, (expand function trig).outcome = .ok result ∧
            IsMultiple function found multiple.natAbs result ∧
            ∀ item ∈ result.polynomial.monomials, Coefficient.isZero item.coefficient = false) ∧
    ∀ (coefficient : R) (trig : TrigPolynomial R),
      TurnsBy var found multiple coefficient trig → Coefficient.isZero coefficient = false →
        (∃ shown, Monomial.text ⟨coefficient, .ofFactor (.linear var)⟩ = .ok shown) →
          ∃ result, (expand function trig).outcome = .ok result ∧
            IsMultiple function found multiple.natAbs result ∧
            ∀ item ∈ result.polynomial.monomials, ∀ sines,
              item.powers = .ofSines found multiple.natAbs sines →
                item.coefficient = function.multipleCoefficient multiple sines := by
  have nonzero : multiple ≠ 0 := by omega
  have several : multiple.natAbs ≠ 1 := by omega
  constructor
  · intro coefficient trig turns convertible named
    have proper : ¬ Coefficient.isZero coefficient = true :=
      mt (WholeCoefficient.isZero_iff_eq_zero turns.integer).1 nonzero
    obtain ⟨result, returned, -⟩ := exists_multipleAngle function trig.angles found multiple
      (Monomial.admissible_linear convertible named) (Nat.le_refl 1)
    exact ⟨result, (outcome_expand_multiple turns proper several).trans returned,
      isMultiple_of_supported different (supported_multipleAngle nonzero returned),
      nonzero_multipleAngle different returned⟩
  · intro coefficient trig turns proper text
    obtain ⟨result, returned⟩ := multipleAngle_returns function trig.angles found multiple text
    exact ⟨result, (outcome_expand_multiple turns (Bool.eq_false_iff.1 proper) several).trans returned,
      isMultiple_of_supported different (supported_multipleAngle nonzero returned),
      fun item member sines powers => coefficient_multipleAngle different nonzero returned member powers⟩

end Arithmetic

def multipleOf {K : Type} (coefficient : K) : TrigPolynomial K :=
  ⟨⟨[⟨coefficient, .ofFactor (.linear 56)⟩], true⟩, AngleMap.empty.set 56 ⟨46, 14⟩⟩

theorem expand_multiple_thriceBackwards : (46 : Int) ≠ 14 ∧ 2 ≤ (-3 : Int).natAbs ∧
    TurnsBy 56 ⟨46, 14⟩ (-3) (.integer (-3)) (multipleOf (Number.integer (-3))) ∧
    (Number.integer (-3)).Convertible ∧ NamingTable.Names {} 56 ∧
    (∃ result, (expand .sine (multipleOf (Number.integer (-3)))).outcome = .ok result ∧
      result.polynomial.monomials.length = 2) ∧
    TurnsBy 56 ⟨46, 14⟩ (-3) (-3 : Int) (multipleOf (-3)) ∧ Coefficient.isZero (-3 : Int) = false ∧
    (∃ shown, Monomial.text (⟨-3, .ofFactor (.linear 56)⟩ : Monomial Int) = .ok shown) ∧
    ∃ result, (expand .sine (multipleOf (-3 : Int))).outcome = .ok result ∧
      ∀ item ∈ result.polynomial.monomials, item.powers = .ofSines ⟨46, 14⟩ 3 3 →
        item.coefficient = 1 := by
  have different : (46 : Int) ≠ 14 := by decide
  have large : 2 ≤ (-3 : Int).natAbs := by decide
  have finite : (Binary64.ofInt (-3)).isFinite = true := by decide +kernel
  have rounded : TurnsBy 56 ⟨46, 14⟩ (-3) (.integer (-3)) (multipleOf (Number.integer (-3))) :=
    ⟨rfl, rfl, Number.integer?_of_isFinite finite⟩
  have convertible : (Number.integer (-3)).Convertible := ⟨_, Number.floatOfInt_of_isFinite finite⟩
  have named : NamingTable.Names {} 56 := ⟨"x", 1, by decide +kernel⟩
  have turns : TurnsBy 56 ⟨46, 14⟩ (-3) (-3 : Int) (multipleOf (-3)) := ⟨rfl, rfl, rfl⟩
  have nonzero : Coefficient.isZero (-3 : Int) = false := rfl
  have text : ∃ shown, Monomial.text (⟨-3, .ofFactor (.linear 56)⟩ : Monomial Int) = .ok shown := by
    decide +kernel
  obtain ⟨inNumbers, inIntegers⟩ :=
    @expand_multiple Int _ _ _ .sine 56 ⟨46, 14⟩ (-3) different large
  obtain ⟨result, returned, multiple, -⟩ := inNumbers _ _ rounded convertible named
  obtain ⟨exact, exactReturned, -, coefficients⟩ := inIntegers _ _ turns nonzero text
  exact ⟨different, large, rounded, convertible, named, ⟨result, returned, multiple.length_eq⟩, turns,
    nonzero, text, exact, exactReturned, fun item member powers => coefficients item member 3 powers⟩

/-- Twice a variable that no name stands for. -/
def twiceUnnamed : TrigPolynomial Number :=
  ⟨⟨[⟨.integer 2, .ofFactor (.linear 3)⟩], true⟩, AngleMap.empty.set 3 ⟨4, 6⟩⟩

/-- A multiple with one more binary digit than the largest rounded number has. -/
def hugeMultiple : TrigPolynomial Number := multipleOf (.integer (1 <<< 1024))

/-- A sine or cosine is refused where the multiple cannot be shown or cannot be rounded. -/
theorem expand_multiple_refused : TurnsBy 3 ⟨4, 6⟩ 2 (.integer 2) twiceUnnamed ∧
    (∀ function, (expand function twiceUnnamed).outcome = .error (.invalidVariable 3)) ∧
    hugeMultiple.angles.find? 56 = some ⟨46, 14⟩ ∧
    ∀ function, (expand function hugeMultiple).outcome = .error .integerTooLarge := by
  have rounded : Coefficient.integer? (Number.integer 2) = .ok (some 2) :=
    Number.integer?_of_isFinite (by decide +kernel)
  have unrounded : Coefficient.integer? (Number.integer (1 <<< 1024)) = .error .integerTooLarge :=
    Number.integer?_of_not_isFinite (by decide +kernel)
  have nonzero : ¬ Coefficient.isZero (Number.integer (1 <<< 1024)) = true := by decide +kernel
  have turns : TurnsBy 3 ⟨4, 6⟩ 2 (.integer 2) twiceUnnamed := ⟨rfl, rfl, rounded⟩
  have unnamed : Monomial.text (⟨.integer 2, .ofFactor (.linear 3)⟩ : Monomial Number) =
      .error (.invalidVariable 3) := by decide +kernel
  refine ⟨turns, fun function => ?_, rfl, fun function => ?_⟩
  · rw [outcome_expand_multiple turns (by decide) (by decide)]
    change (liftM (Monomial.text _) >>= _ : Traced _).outcome = _
    exact outcome_bind_of_error unnamed
  · have checked : checkArgument function hugeMultiple = .ok () := by
      rw [checkArgument_eq_ok, hugeMultiple, multipleOf, List.forall_mem_singleton]
      exact .inr ⟨56, rfl⟩
    have refused : placeholders function hugeMultiple.angles 56
        ⟨Number.integer (1 <<< 1024), .ofFactor (.linear 56)⟩ = .error .integerTooLarge := by
      unfold placeholders
      have known : hugeMultiple.angles.find? 56 = some ⟨46, 14⟩ := rfl
      rw [known]
      dsimp only
      rw [unrounded]
      rfl
    rw [expand_singleton checked rfl, expandMonomial_linear function rfl nonzero, refused]
    rfl

end TrigPolynomial

end TrigAlgebra
