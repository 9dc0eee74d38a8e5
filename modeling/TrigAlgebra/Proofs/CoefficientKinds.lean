/-
This file follows the kinds of the coefficients through the expansion of sines and cosines. Integers
stay integers and rounded numbers stay rounded; only where the two kinds are multiplied with each other
can an integer be too large, and then the sine fails together with the cosine.
-/

import TrigAlgebra.Proofs.Acceptance

namespace TrigAlgebra

namespace Number

/-- Sums, products and negatives of numbers of the kind are numbers of the kind. -/
structure Closed (kind : Number → Prop) : Prop where
  add : ∀ {first second}, kind first → kind second → ∃ sum, first.add second = .ok sum ∧ kind sum
  mul : ∀ {first second}, kind first → kind second → ∃ product, first.mul second = .ok product ∧ kind product
  neg : ∀ {number}, kind number → kind number.neg

variable {first second : Number}

theorem IsRounded.convertible (rounded : first.IsRounded) : first.Convertible := by
  obtain ⟨value, rfl⟩ := rounded
  trivial

/-- Convertible numbers are rounded. -/
theorem exists_toFloat (convertible : first.Convertible) : ∃ rounded, first.toFloat = .ok rounded := by
  cases first with
  | integer whole => exact convertible
  | real value => exact ⟨value, rfl⟩
  | _ => exact convertible.elim

/-- With a rounded factor both factors are rounded before they are multiplied. -/
theorem mul_eq_rounded (elementary : first.Elementary) (elementary' : second.Elementary)
    (rounded : first.IsRounded ∨ second.IsRounded) : first.mul second = (do
      let left ← first.toFloat
      let right ← second.toFloat
      return .real (← multiplication.real left right)) := by
  rw [← mixed_of_elementary multiplication elementary elementary']
  rcases rounded with ⟨value, rfl⟩ | ⟨value, rfl⟩
  · rfl
  · cases first <;> rfl

/-- A rounded factor makes a rounded product. -/
theorem exists_mul_rounded (convertible : first.Convertible) (convertible' : second.Convertible)
    (rounded : first.IsRounded ∨ second.IsRounded) :
    ∃ product, first.mul second = .ok product ∧ product.IsRounded := by
  obtain ⟨left, returned⟩ := exists_toFloat convertible
  obtain ⟨right, returned'⟩ := exists_toFloat convertible'
  rw [mul_eq_rounded convertible.elementary convertible'.elementary rounded, returned, returned']
  exact ⟨_, rfl, left * right, rfl⟩

/-- An integer that cannot be rounded has no product with a rounded number. -/
theorem mul_unrounded (rounded : first.IsRounded) (integer : second.IsInteger)
    (large : ¬ second.Convertible) : first.mul second = .error .integerTooLarge := by
  obtain ⟨value, rfl⟩ := rounded
  obtain ⟨whole, rfl⟩ := integer
  have failed : floatOfInt whole = .error .integerTooLarge := by
    cases returned : floatOfInt whole with
    | ok converted => exact (large ⟨converted, returned⟩).elim
    | error fault => rw [(floatOfInt_eq_error.1 returned).2]
  have elementary : (Number.real value).Elementary := trivial
  have elementary' : (Number.integer whole).Elementary := trivial
  have unrounded : (Number.integer whole).toFloat = .error .integerTooLarge := failed
  rw [mul_eq_rounded elementary elementary' (.inl ⟨value, rfl⟩), unrounded]
  rfl

end Number

namespace Polynomial

open Number

/-- There are coefficients, and all of them are of the kind. -/
structure OfKind (kind : Number → Prop) (monomials : List (Monomial Number)) : Prop where
  any : monomials ≠ []
  each : ∀ item ∈ monomials, kind item.coefficient

variable {kind kind' : Number → Prop} {monomials others : List (Monomial Number)}

/-- A wider kind may be taken. -/
theorem OfKind.mono (ofKind : OfKind kind monomials) (wider : ∀ number, kind number → kind' number) :
    OfKind kind' monomials :=
  ⟨ofKind.any, fun item member => wider _ (ofKind.each item member)⟩

/-- Two lists of one kind make a list of that kind. -/
theorem OfKind.append (ofKind : OfKind kind monomials) (ofKind' : OfKind kind others) :
    OfKind kind (monomials ++ others) :=
  ⟨List.append_ne_nil_of_left_ne_nil ofKind.any _,
    List.forall_mem_append.2 ⟨ofKind.each, ofKind'.each⟩⟩

/-- Negation does not leave the kind. -/
theorem OfKind.negated (closed : Closed kind) (ofKind : OfKind kind monomials) :
    OfKind kind (negated monomials) :=
  ⟨List.map_eq_nil_iff.not.2 ofKind.any,
    List.forall_mem_map.2 fun item member => closed.neg (ofKind.each item member)⟩

/-- A list of rounded coefficients cannot be multiplied by one with an integer that is too large. -/
theorem products_unrounded (first : OfKind IsRounded monomials) (second : OfKind IsInteger others)
    (large : ∃ item ∈ others, ¬ item.coefficient.Convertible) :
    products monomials others = .error .integerTooLarge := by
  have faults : ∀ pair ∈ monomials.flatMap (fun left => others.map fun right => (left, right)),
      ∀ fault, pair.1.mul pair.2 = .error fault → fault = .integerTooLarge := by
    intro pair member fault failed
    obtain ⟨left, isLeft, inMap⟩ := List.mem_flatMap.1 member
    obtain ⟨right, isRight, rfl⟩ := List.mem_map.1 inMap
    have rounded := first.each left isLeft
    have failed' : left.coefficient.mul right.coefficient = .error fault := map_eq_error.1 failed
    by_cases convertible : right.coefficient.Convertible
    · obtain ⟨value, same⟩ := rounded
      obtain ⟨product, returned, -⟩ := exists_mul_rounded (same ▸ trivial) convertible (.inl ⟨value, same⟩)
      cases returned.symm.trans failed'
    · rw [mul_unrounded rounded (second.each right isRight) convertible] at failed'
      exact (Except.error.inj failed').symm
  cases returned : products monomials others with
  | error fault =>
      obtain ⟨pair, member, failed⟩ := mapM_eq_error returned
      rw [faults pair member fault failed]
  | ok list =>
      obtain ⟨right, isRight, unrounded⟩ := large
      obtain ⟨left, isLeft⟩ := List.exists_mem_of_ne_nil _ first.any
      obtain ⟨product, computed⟩ := mapM_returns_iff.1 ⟨list, returned⟩ (left, right)
        (List.mem_flatMap.2 ⟨left, isLeft, List.mem_map.2 ⟨right, isRight, rfl⟩⟩)
      obtain ⟨coefficient, computed, -⟩ := map_eq_ok.1 computed
      have failed := mul_unrounded (first.each left isLeft) (second.each right isRight) unrounded
      cases failed.symm.trans computed

variable {first second : Polynomial Number}

end Polynomial

namespace Monomial

open Number

variable {item : Monomial Number} {number : Number}

end Monomial

namespace TrigPolynomial

open TrigAlgebra.Polynomial Number

variable {kind : Number → Prop} {first second trig result : TrigPolynomial Number} {function : Circular}
  {item : Monomial Number}

/-- A rounded factor that meets an integer too large to be rounded ends the product. -/
theorem mul_unrounded (firstKind : OfKind IsRounded first.polynomial.monomials)
    (secondKind : OfKind IsInteger second.polynomial.monomials)
    (large : ∃ item ∈ second.polynomial.monomials, ¬ item.coefficient.Convertible) :
    first.mul second = .error .integerTooLarge := by
  rw [mul, multiplyBy, result_joined]
  change (first.polynomial.mul second.polynomial).map _ = _
  rw [mul_eq_bind, products_unrounded firstKind secondKind large]
  rfl

section SumFormula

variable {expandFirst expandRest : Circular → Traced (TrigPolynomial Number)} {factor factor' : Number → Prop}

section Outcomes

variable {firstSine firstCosine restSine restCosine left right : TrigPolynomial Number}

end Outcomes

end SumFormula

namespace Affine

end Affine

end TrigPolynomial

end TrigAlgebra
