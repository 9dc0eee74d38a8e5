/-
This file lists the failures of the arithmetic of numbers: no conversion, sum, product or quotient
fails in another way.
-/

import TrigAlgebra.Number.Arithmetic
import TrigAlgebra.Proofs.Results

namespace TrigAlgebra

/-- A number has no rounded value, is not real or is divided by zero. -/
def Fault.Arithmetic : Fault → Prop
  | .divisionByZero _ => True
  | .integerTooLarge => True
  | .quotientTooLarge => True
  | .notReal _ => True
  | _ => False

/-- The computation fails only where the arithmetic of numbers does. -/
def Arithmetical {A : Type} (result : Except Fault A) : Prop :=
  ∀ fault, result = .error fault → fault.Arithmetic

section

variable {A B : Type}

@[simp] theorem arithmetical_ok {value : A} : Arithmetical (.ok value) :=
  fun _ absurd => nomatch absurd

@[simp] theorem arithmetical_pure {value : A} : Arithmetical (pure value) :=
  arithmetical_ok

@[simp] theorem arithmetical_error {fault : Fault} :
    Arithmetical (.error fault : Except Fault A) ↔ fault.Arithmetic := by
  unfold Arithmetical
  simp only [Except.error.injEq, forall_eq']

@[simp] theorem arithmetical_map {result : Except Fault A} {change : A → B} :
    Arithmetical (result.map change) ↔ Arithmetical result := by
  unfold Arithmetical
  simp only [map_eq_error]

/-- A sequence fails in arithmetic if its parts only do. -/
theorem arithmetical_bind {result : Except Fault A} {next : A → Except Fault B}
    (first : Arithmetical result) (later : ∀ value, Arithmetical (next value)) :
    Arithmetical (result >>= next) := by
  intro fault failed
  rcases bind_eq_error.1 failed with early | ⟨value, -, late⟩
  · exact first fault early
  · exact later value fault late

/-- A list of computations fails in arithmetic if each of them only does. -/
theorem arithmetical_mapM {step : A → Except Fault B} {list : List A}
    (steps : ∀ part ∈ list, Arithmetical (step part)) : Arithmetical (list.mapM step) := by
  intro fault failed
  obtain ⟨part, member, fails⟩ := mapM_eq_error failed
  exact steps part member fault fails

end

namespace Number

/-- An integer is rounded as long as the rounded value is finite. -/
theorem floatOfInt_eq_ok {value : Int} {rounded : Float} : floatOfInt value = .ok rounded ↔
    (Binary64.ofInt value).isFinite = true ∧ Binary64.ofInt value = rounded := by
  unfold floatOfInt
  dsimp only
  split
  · rename_i finite
    rw [Except.ok.injEq, and_iff_right finite]
  · rename_i infinite
    exact iff_of_false pure_ne_error.symm fun facts => infinite facts.1

/-- The only reason against rounding an integer is its size. -/
theorem floatOfInt_eq_error {value : Int} {fault : Fault} : floatOfInt value = .error fault ↔
    (Binary64.ofInt value).isFinite = false ∧ fault = .integerTooLarge := by
  unfold floatOfInt
  dsimp only
  split
  · rename_i finite
    exact iff_of_false pure_ne_error fun facts => Bool.false_ne_true (facts.1.symm.trans finite)
  · rename_i infinite
    rw [Except.error.injEq, and_iff_right (Bool.eq_false_iff.2 infinite), eq_comm]

/-- Rounding an integer is arithmetic. -/
theorem arithmetical_floatOfInt (value : Int) : Arithmetical (floatOfInt value) := by
  intro fault failed
  rw [(floatOfInt_eq_error.1 failed).2]
  trivial

/-- Only a number that is no real number or too large is not converted. -/
theorem arithmetical_toFloat (number : Number) : Arithmetical number.toFloat := by
  cases number with
  | integer value => exact arithmetical_floatOfInt value
  | _ => simp [toFloat, Fault.Arithmetic]

/-- A complex number is made of two converted parts. -/
theorem arithmetical_toComplex (number : Number) : Arithmetical number.toComplex := by
  cases number with
  | integer value => exact arithmetical_map.2 (arithmetical_floatOfInt value)
  | _ => simp [toComplex]

/-- The operations on numbers of one kind fail only by arithmetic. -/
structure Operation.Sound (operation : Operation) : Prop where
  real : ∀ first second, Arithmetical (operation.real first second)
  complex : ∀ first second, Arithmetical (operation.complex first second)
  bigReal : ∀ first second, Arithmetical (operation.bigReal first second)
  bigComplex : ∀ first second, Arithmetical (operation.bigComplex first second)

/-- Numbers of two kinds are converted first, and the operation of the wider kind follows. -/
theorem Operation.Sound.mixed {operation : Operation} (sound : operation.Sound)
    (first second : Number) : Arithmetical (operation.mixed first second) := by
  unfold Operation.mixed
  split
  · split
    · exact arithmetical_map.2 (sound.bigReal _ _)
    · exact arithmetical_map.2 (sound.bigComplex _ _)
  · split
    · refine arithmetical_bind (arithmetical_toFloat first) fun left => ?_
      refine arithmetical_bind (arithmetical_toFloat second) fun right => ?_
      exact arithmetical_bind (sound.real left right) fun _ => arithmetical_pure
    · refine arithmetical_bind (arithmetical_toComplex first) fun left => ?_
      refine arithmetical_bind (arithmetical_toComplex second) fun right => ?_
      exact arithmetical_bind (sound.complex left right) fun _ => arithmetical_pure

/-- No kind of numbers adds with any other fault. -/
theorem sound_addition : addition.Sound where
  real _ _ := arithmetical_ok
  complex _ _ := arithmetical_ok
  bigReal _ _ := arithmetical_ok
  bigComplex _ _ := arithmetical_ok

/-- No kind of numbers multiplies with any other fault. -/
theorem sound_multiplication : multiplication.Sound where
  real _ _ := arithmetical_ok
  complex _ _ := arithmetical_ok
  bigReal _ _ := arithmetical_ok
  bigComplex first second := by
    unfold multiplication
    dsimp only
    split
    · exact arithmetical_ok
    · split <;> exact arithmetical_ok

/-- No kind of numbers divides with any other fault. -/
theorem sound_division : division.Sound where
  real first second := by
    unfold division
    dsimp only
    split <;> simp [Fault.Arithmetic]
  complex first second := by
    simp only [division, complexQuotient]
    split
    · split <;> simp [Fault.Arithmetic]
    · split <;> simp
  bigReal first second := by
    unfold division
    dsimp only
    split <;> simp [Fault.Arithmetic]
  bigComplex first second := by
    unfold division
    dsimp only
    split
    · simp [Fault.Arithmetic]
    · split <;> simp

/-- A sum of two numbers of any kinds fails in arithmetic only. -/
theorem arithmetical_add (first second : Number) : Arithmetical (first.add second) := by
  unfold add
  split
  · exact arithmetical_ok
  · exact sound_addition.mixed _ _

/-- A product of two numbers of any kinds fails in arithmetic only. -/
theorem arithmetical_mul (first second : Number) : Arithmetical (first.mul second) := by
  unfold mul
  split
  · exact arithmetical_ok
  · exact sound_multiplication.mixed _ _

/-- A quotient of integers fails for a divisor of zero, or for its size. -/
theorem arithmetical_integerQuotient (first second : Int) :
    Arithmetical (integerQuotient first second) := by
  unfold integerQuotient
  dsimp only
  split
  · simp [Fault.Arithmetic]
  · split <;> simp [Fault.Arithmetic]

/-- A quotient of two numbers of any kinds fails in arithmetic only. -/
theorem arithmetical_div (first second : Number) : Arithmetical (first.div second) := by
  unfold div
  split
  · exact arithmetical_map.2 (arithmetical_integerQuotient _ _)
  · exact sound_division.mixed _ _

end Number

end TrigAlgebra
