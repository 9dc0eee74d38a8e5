/-
This file follows which products of powers an expanded sine and cosine consist of: the sums of the
angle additions unite them and the products multiply them pair by pair, whatever the coefficients and
their signs.
-/

import Mathlib.Algebra.QuadraticAlgebra.Defs
import Mathlib.Data.Set.Semiring
import TrigAlgebra.Proofs.ExpansionShape
import TrigAlgebra.Proofs.OneVariable

namespace TrigAlgebra

open TrigAlgebra.Polynomial TrigPolynomial

namespace Circular

/-- Sine and cosine trade places. -/
def other : Circular → Circular
  | .sine => .cosine
  | .cosine => .sine

/-- The sine of a multiple has odd powers of the sine, and the cosine has even ones. -/
def parity : Circular → Nat
  | .sine => 1
  | .cosine => 0

end Circular

namespace PowerProduct

/-- The power of the sine is given, and that of the cosine fills up to the size. -/
def ofSines (found : Placeholders) (size sines : Nat) : PowerProduct :=
  (power found.cosine (size - sines)).mul (power found.sine sines)

theorem degreeOf_linear (var other : Int) :
    (ofFactor (.linear var)).degreeOf other = if var = other then 1 else 0 :=
  degreeOf_power var 1 other

/-- Where the two placeholders differ, the power of the sine is the given one. -/
theorem degreeOf_ofSines {found : Placeholders} (different : found.sine ≠ found.cosine) (size sines : Nat) :
    (ofSines found size sines).degreeOf found.sine = sines := by
  rw [ofSines, degreeOf_mul, degreeOf_power, degreeOf_power, if_neg different.symm, if_pos rfl, zero_add]

/-- With two different placeholders the number of sines is known from the product. -/
theorem ofSines_injective {found : Placeholders} (different : found.sine ≠ found.cosine) (size : Nat) :
    Function.Injective (ofSines found size) := fun sines sines' same => by
  rw [← degreeOf_ofSines different size sines, same, degreeOf_ofSines different]

/-- One more cosine makes the product longer only. -/
theorem ofSines_mul_cosine (found : Placeholders) {size sines : Nat} (inside : sines ≤ size) :
    (ofSines found size sines).mul (.ofFactor (.linear found.cosine)) =
      ofSines found (size + 1) sines := by
  have count : size + 1 - sines = size - sines + 1 := by omega
  rw [ofSines, ofSines, count, power_succ]
  exact mul_right_comm (G := PowerProduct) _ _ _

/-- One more sine is counted. -/
theorem ofSines_mul_sine (found : Placeholders) (size sines : Nat) :
    (ofSines found size sines).mul (.ofFactor (.linear found.sine)) =
      ofSines found (size + 1) (sines + 1) := by
  rw [ofSines, ofSines, Nat.add_sub_add_right, power_succ]
  exact mul_assoc (G := PowerProduct) _ _ _

end PowerProduct

/-- The products of powers of a cosine and of a sine. Union is the sum here, and no sign is kept. -/
abbrev Footprint : Type := QuadraticAlgebra (SetSemiring PowerProduct) 1 0

namespace Footprint

noncomputable def part : Circular → Footprint → SetSemiring PowerProduct
  | .sine => QuadraticAlgebra.im
  | .cosine => QuadraticAlgebra.re

/-- The addition theorems for supports, in which differences are sums. -/
theorem part_mul (first second : Footprint) (function : Circular) : (first * second).part function =
    first.part function * second.part .cosine + first.part function.other * second.part .sine := by
  cases function with
  | sine =>
      simp only [part, Circular.other, QuadraticAlgebra.im_mul, zero_mul, add_zero]
      exact add_comm _ _
  | cosine => simp only [part, Circular.other, QuadraticAlgebra.re_mul, one_mul]

/-- Neither function of a constant has a variable. -/
noncomputable def constant : Footprint := ⟨1, 1⟩

noncomputable def linear (var : Int) : SetSemiring PowerProduct :=
  Set.up {PowerProduct.ofFactor (.linear var)}

noncomputable def ofPlaceholders (found : Placeholders) : Footprint :=
  ⟨linear found.cosine, linear found.sine⟩

theorem part_constant (function : Circular) : constant.part function = 1 := by
  cases function <;> rfl

theorem part_ofPlaceholders (found : Placeholders) (function : Circular) :
    (ofPlaceholders found).part function = linear (found.of function) := by
  cases function <;> rfl

/-- Every product is multiplied by the variable. -/
theorem mem_mul_linear {powers : SetSemiring PowerProduct} {var : Int} {product : PowerProduct} :
    product ∈ (powers * linear var).down ↔
      ∃ old ∈ powers.down, old.mul (.ofFactor (.linear var)) = product := by
  rw [SetSemiring.down_mul, Set.mem_mul]
  constructor
  · rintro ⟨old, member, _, rfl, rfl⟩
    exact ⟨old, member, rfl⟩
  · rintro ⟨old, member, rfl⟩
    exact ⟨old, member, _, rfl, rfl⟩

/-- The powers of a multiple of an angle: those of the sine are all numbers of one parity up to the
multiple. -/
theorem mem_part_pow (found : Placeholders) (size : Nat) (function : Circular) (product : PowerProduct) :
    product ∈ ((ofPlaceholders found ^ size).part function).down ↔
      ∃ sines ≤ size, sines % 2 = function.parity ∧ product = .ofSines found size sines := by
  induction size generalizing function product with
  | zero =>
      rw [pow_zero]
      cases function with
      | sine =>
          refine ⟨fun absurd => absurd.elim, ?_⟩
          rintro ⟨sines, none, odd, -⟩
          rw [Nat.le_zero.1 none] at odd
          cases odd
      | cosine =>
          refine ⟨fun same => ⟨0, Nat.le_refl 0, rfl, same⟩, ?_⟩
          rintro ⟨sines, none, -, same⟩
          rw [same, Nat.le_zero.1 none]
          rfl
  | succ size hypothesis =>
      rw [pow_succ, part_mul, part_ofPlaceholders, part_ofPlaceholders, SetSemiring.down_add,
        Set.mem_union, mem_mul_linear, mem_mul_linear]
      constructor
      · rintro (⟨old, member, rfl⟩ | ⟨old, member, rfl⟩)
        · obtain ⟨sines, inside, parity, rfl⟩ := (hypothesis _ _).1 member
          exact ⟨sines, Nat.le_succ_of_le inside, parity, PowerProduct.ofSines_mul_cosine found inside⟩
        · obtain ⟨sines, inside, parity, rfl⟩ := (hypothesis _ _).1 member
          refine ⟨sines + 1, Nat.succ_le_succ inside, ?_, PowerProduct.ofSines_mul_sine found size sines⟩
          cases function <;> simp only [Circular.other, Circular.parity] at parity ⊢ <;> omega
      · rintro ⟨sines, inside, parity, rfl⟩
        by_cases below : sines ≤ size
        · refine .inl ⟨_, (hypothesis _ _).2 ⟨sines, below, parity, rfl⟩, ?_⟩
          exact PowerProduct.ofSines_mul_cosine found below
        · obtain rfl : sines = size + 1 := by omega
          refine .inr ⟨_, (hypothesis _ _).2 ⟨size, Nat.le_refl size, ?_, rfl⟩, ?_⟩
          · cases function <;> simp only [Circular.other, Circular.parity] at parity ⊢ <;> omega
          · exact PowerProduct.ofSines_mul_sine found size size

end Footprint

namespace TrigPolynomial

variable {K : Type}

/-- A polynomial with distinct powers, which are those of a set, and with a given map of angles. -/
structure Supported (powers : SetSemiring PowerProduct) (angles : AngleMap) (trig : TrigPolynomial K) :
    Prop where
  mem_iff : ∀ product, product ∈ powersOf trig.polynomial.monomials ↔ product ∈ powers.down
  distinct : trig.polynomial.Distinct
  angles_eq : trig.angles = angles

namespace Supported

variable {powers powers' : SetSemiring PowerProduct} {angles : AngleMap}
  {first second result : TrigPolynomial K}

theorem constant (value : K) (angles : AngleMap) :
    Supported 1 angles (.constant value angles) :=
  ⟨fun _ => List.mem_singleton, List.nodup_singleton _, rfl⟩

theorem update_eq (firstPart : Supported powers angles first)
    (secondPart : Supported powers' angles second) : first.angles.update second.angles = angles := by
  rw [firstPart.angles_eq, secondPart.angles_eq, AngleMap.update_self]

variable [Coefficient K]

theorem neg (part : Supported powers angles first) : Supported powers angles first.neg := by
  have same := powersOf_negated first.polynomial.monomials
  refine ⟨fun product => ?_, ?_, part.angles_eq⟩
  · rw [← part.mem_iff, ← same]
    rfl
  · change (powersOf (negated first.polynomial.monomials)).Nodup
    rw [same]
    exact part.distinct

/-- Supports of products are multiplied. -/
theorem mul (firstPart : Supported powers angles first) (secondPart : Supported powers' angles second)
    (returned : first.mul second = .ok result) : Supported (powers * powers') angles result := by
  obtain ⟨product, joined⟩ := mul_eq_ok.1 returned
  obtain ⟨monomials, pairs, merged, -⟩ := Polynomial.mul_eq_ok.1 product
  refine ⟨fun powers => ?_, nodup_merge merged, joined.trans (firstPart.update_eq secondPart)⟩
  rw [mem_powersOf_merge merged, mem_powersOf_products pairs, SetSemiring.down_mul, Set.mem_mul]
  simp only [firstPart.mem_iff, secondPart.mem_iff]
  rfl

/-- Supports of sums are united. -/
theorem add (firstPart : Supported powers angles first) (secondPart : Supported powers' angles second)
    (returned : first.add second = .ok result) : Supported (powers + powers') angles result := by
  obtain ⟨sum, joined⟩ := add_eq_ok.1 returned
  obtain ⟨merged, -⟩ := mergeFrom_eq_ok.1 sum
  refine ⟨fun powers => ?_, nodup_merge merged, joined.trans (firstPart.update_eq secondPart)⟩
  rw [mem_powersOf_merge merged, powersOf, List.map_append, List.mem_append, SetSemiring.down_add,
    Set.mem_union, ← firstPart.mem_iff, ← secondPart.mem_iff]
  rfl

/-- Supports of differences are united. -/
theorem sub (firstPart : Supported powers angles first) (secondPart : Supported powers' angles second)
    (returned : first.sub second = .ok result) : Supported (powers + powers') angles result := by
  obtain ⟨difference, joined⟩ := sub_eq_ok.1 returned
  obtain ⟨merged, -⟩ := mergeFrom_eq_ok.1 difference
  refine ⟨fun powers => ?_, nodup_merge merged, joined.trans (firstPart.update_eq secondPart)⟩
  rw [mem_powersOf_merge merged, powersOf, List.map_append, List.mem_append, SetSemiring.down_add,
    Set.mem_union, ← firstPart.mem_iff, ← secondPart.mem_iff,
    ← powersOf_negated second.polynomial.monomials]
  rfl

end Supported

variable [Coefficient K]

/-- The polynomials of a sine and a cosine have the powers of a footprint. -/
structure Traces (footprint : Footprint) (angles : AngleMap)
    (pair : TrigPolynomial K × TrigPolynomial K) : Prop where
  sine : Supported (footprint.part .sine) angles pair.1
  cosine : Supported (footprint.part .cosine) angles pair.2

variable {footprint : Footprint} {angles : AngleMap}

/-- Every addition of an angle multiplies by its footprint. -/
theorem traces_addAngles {sine cosine : TrigPolynomial K} {additions : Nat}
    {pair : TrigPolynomial K × TrigPolynomial K} (angle : Traces footprint angles (sine, cosine))
    (returned : addAngles sine cosine additions = .ok pair) :
    Traces (footprint ^ (additions + 1)) angles pair := by
  induction additions generalizing pair with
  | zero =>
      cases returned
      rwa [Nat.zero_add, pow_one]
  | succ additions hypothesis =>
      obtain ⟨before, beforeCase, returned⟩ := bind_eq_ok.1 returned
      have multiple := hypothesis beforeCase
      simp only [addAngle, bind_eq_ok, pure_eq_ok] at returned
      obtain ⟨sineCosine, one, cosineSine, two, nextSine, sum, cosineCosine, three, sineSine, four,
        nextCosine, difference, rfl⟩ := returned
      rw [pow_succ footprint (additions + 1)]
      constructor
      · rw [Footprint.part_mul]
        exact ((multiple.sine.mul angle.cosine one).add (multiple.cosine.mul angle.sine two)) sum
      · rw [Footprint.part_mul]
        exact ((multiple.cosine.mul angle.cosine three).sub (multiple.sine.mul angle.sine four)) difference

omit [Coefficient K] in
theorem supported_linear {polynomial : Polynomial K} {item : Monomial K} {var : Int}
    (shape : polynomial.monomials = [item]) (powers : item.powers = .ofFactor (.linear var)) :
    Supported (Footprint.linear var) angles ⟨polynomial, angles⟩ := by
  refine ⟨fun product => ?_, ?_, rfl⟩
  · rw [shape, powersOf, List.map_singleton, List.mem_singleton, powers]
    rfl
  · rw [Distinct, shape]
    exact List.nodup_singleton _

/-- The two placeholders, as the sine and the cosine of the angle itself. -/
theorem traces_ofVariable {found : Placeholders} {sine cosine : Polynomial K}
    (sineCase : ofVariable found.sine Coefficient.one = .ok sine)
    (cosineCase : ofVariable found.cosine Coefficient.one = .ok cosine) :
    Traces (Footprint.ofPlaceholders found) angles (⟨sine, angles⟩, ⟨cosine, angles⟩) :=
  ⟨supported_linear (monomials_ofVariable sineCase) rfl,
    supported_linear (monomials_ofVariable cosineCase) rfl⟩

/-- A multiple of an angle other than zero has the powers of the angle's footprint to the multiple. -/
theorem supported_multipleAngle {function : Circular} {item : Monomial K} {found : Placeholders}
    {multiple : Int} {result : TrigPolynomial K} (nonzero : multiple ≠ 0)
    (returned : (multipleAngle function angles item found multiple).outcome = .ok result) :
    Supported ((Footprint.ofPlaceholders found ^ multiple.natAbs).part function) angles result := by
  obtain ⟨sine, cosine, pair, sineCase, cosineCase, pairCase, rfl⟩ := multipleAngle_eq_ok returned
  have count : multiple.natAbs - 1 + 1 = multiple.natAbs := by omega
  obtain ⟨ofSine, ofCosine⟩ := traces_addAngles (traces_ofVariable sineCase cosineCase) pairCase
  rw [count] at ofSine ofCosine
  cases function with
  | sine =>
      unfold signed
      dsimp only
      split
      · exact ofSine.neg
      · exact ofSine
  | cosine => exact ofCosine

/-- A single angle is supported by its placeholder. -/
theorem supported_singleAngle {function : Circular} {trig result : TrigPolynomial K}
    {item : Monomial K} {var : Int} {found : Placeholders} {multiple : Int}
    (shape : trig.polynomial.monomials = [item]) (powers : item.powers = .ofFactor (.linear var))
    (returned : singleAngle function trig var found multiple = .ok result) :
    Supported ((Footprint.ofPlaceholders found).part function) trig.angles result := by
  obtain ⟨kept, renamed, renamedCase, scaled⟩ := singleAngle_eq_ok returned
  have linear : (item.rename var (found.of function)).powers =
      .ofFactor (.linear (found.of function)) := by
    rw [Monomial.rename, powers, PowerProduct.rename_linear]
  rw [Polynomial.rename, renameIn, result_mergeFrom, shape, List.map_singleton, ofMonomials_singleton]
    at renamedCase
  cases renamedCase
  obtain ⟨polynomial, angles⟩ := result
  cases kept
  rw [Footprint.part_ofPlaceholders]
  split at scaled
  · obtain ⟨monomials, written, same⟩ := exchange_eq_ok.1 scaled
    rw [List.mapM_cons, bind_eq_ok] at written
    obtain ⟨product, productCase, rest⟩ := written
    cases rest
    exact supported_linear (congrArg Polynomial.monomials same).symm
      ((powers_scaled productCase).trans linear)
  · cases scaled
    exact supported_linear rfl linear

end TrigPolynomial

end TrigAlgebra
