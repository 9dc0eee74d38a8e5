/-
This file proves that numbers of one exact value are equal, whatever their kinds, and that exact
multiples of a number have one value.
-/

import TrigAlgebra.Number.Coefficient
import TrigAlgebra.Proofs.FloatValues

namespace TrigAlgebra

namespace BigFloat

/-- The numbers have the same exact value, or they are infinities of one sign. -/
def SameValue (first second : BigFloat) : Prop :=
  (∃ value, first.exactValue = some value ∧ second.exactValue = some value) ∨
    ∃ negative, first = .infinite negative ∧ second = .infinite negative

/-- The product is exactly the number so many times; an infinity stays the same. -/
def IsMultiple (factor : Nat) (number product : BigFloat) : Prop :=
  (∃ value, number.exactValue = some value ∧ product.exactValue = some (value * factor)) ∨
    ∃ negative, number = .infinite negative ∧ product = .infinite negative

variable {number first second : BigFloat}

/-- Numbers of one value are the same number. -/
theorem same_of_sameValue (equal : SameValue first second) : first.same second = true := by
  rcases equal with ⟨value, known, known'⟩ | ⟨negative, rfl, rfl⟩
  · exact (same_iff known known').2 rfl
  · cases negative <;> rfl

/-- Equal multiples have equal values. -/
theorem IsMultiple.sameValue {factor : Nat} (multiple : IsMultiple factor number first)
    (multiple' : IsMultiple factor number second) : SameValue first second := by
  rcases multiple with ⟨value, known, product⟩ | ⟨negative, rfl, rfl⟩
  · rcases multiple' with ⟨value', known', product'⟩ | ⟨negative, rfl, rfl⟩
    · obtain rfl := Option.some.inj (known.symm.trans known')
      exact .inl ⟨_, product, product'⟩
    · cases known
  · rcases multiple' with ⟨value', known', product'⟩ | ⟨negative', same, rfl⟩
    · cases known'
    · cases same
      exact .inr ⟨negative, rfl, rfl⟩

/-- A number is once itself. -/
theorem IsMultiple.self {factor : Nat} {product : BigFloat} (multiple : IsMultiple factor number product) :
    IsMultiple 1 number number := by
  rcases multiple with ⟨value, known, -⟩ | ⟨negative, infinite, -⟩
  · refine .inl ⟨value, known, ?_⟩
    rw [Nat.cast_one, mul_one]
    exact known
  · exact .inr ⟨negative, infinite, infinite⟩

end BigFloat

namespace Binary64

open BigFloat

theorem decode_of_ofFloat {value : Float} {negative : Bool}
    (infinite : BigFloat.ofFloat value = .infinite negative) : decode value = .infinite negative := by
  unfold BigFloat.ofFloat at infinite
  split at infinite
  · cases infinite
  · rename_i decoded
    cases infinite
    exact decoded
  · cases infinite

/-- Rounded numbers of one value are equal. -/
theorem beq_of_sameValue {first second : Float}
    (equal : SameValue (.ofFloat first) (.ofFloat second)) : (first == second) = true := by
  rcases equal with ⟨value, known, known'⟩ | ⟨negative, infinite, infinite'⟩
  · exact beq_of_exactValue known known'
  · rw [beq_iff_unpack, decode_of_ofFloat infinite, decode_of_ofFloat infinite']
    cases negative <;> rfl

end Binary64

namespace Number

variable {number first second : Number}

/-- Numbers are equal if their real parts have one value and so have their imaginary parts. -/
theorem same_of_sameValue
    (re : BigFloat.SameValue first.toBigComplex.re second.toBigComplex.re)
    (im : BigFloat.SameValue first.toBigComplex.im second.toBigComplex.im) :
    Coefficient.same first second = true := by
  have mixed : (first.toBigComplex.re.same second.toBigComplex.re &&
      first.toBigComplex.im.same second.toBigComplex.im) = true :=
    Bool.and_eq_true_iff.2 ⟨BigFloat.same_of_sameValue re, BigFloat.same_of_sameValue im⟩
  cases first with
  | integer whole =>
      cases second with
      | integer whole' =>
          have equal : (whole : Rat) = whole' :=
            (BigFloat.same_iff (BigFloat.exactValue_ofInt whole) (BigFloat.exactValue_ofInt whole')).1
              (BigFloat.same_of_sameValue re)
          exact beq_iff_eq.2 (by exact_mod_cast equal)
      | _ => exact mixed
  | real value =>
      cases second with
      | real value' => exact Binary64.beq_of_sameValue re
      | _ => exact mixed
  | _ => exact mixed

/-- Each part of the product is exactly the part of the number so many times. -/
structure IsMultiple (factor : Nat) (number product : Number) : Prop where
  re : BigFloat.IsMultiple factor number.toBigComplex.re product.toBigComplex.re
  im : BigFloat.IsMultiple factor number.toBigComplex.im product.toBigComplex.im

theorem IsMultiple.self {factor : Nat} {product : Number} (multiple : IsMultiple factor number product) :
    IsMultiple 1 number number :=
  ⟨multiple.re.self, multiple.im.self⟩

/-- Equal multiples are the same number. -/
theorem IsMultiple.same {factor : Nat} (multiple : IsMultiple factor number first)
    (multiple' : IsMultiple factor number second) : Coefficient.same first second = true :=
  same_of_sameValue (multiple.re.sameValue multiple'.re) (multiple.im.sameValue multiple'.im)

end Number

end TrigAlgebra
