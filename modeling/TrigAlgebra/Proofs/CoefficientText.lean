/-
This file says how the text of a coefficient begins that is equal to one: with a sign, a bracket or a
digit, whatever the kind of the number.
-/

import TrigAlgebra.Number.Coefficient
import TrigAlgebra.Proofs.ArithmeticFaults
import TrigAlgebra.Proofs.FloatValues
import TrigAlgebra.Proofs.NamesInText

namespace TrigAlgebra

open Text

namespace Decimal

/-- At least one digit, and nothing but digits. -/
structure Digits.Proper (number : Digits) : Prop where
  any : number.digits ≠ []
  numeral : ∀ digit ∈ number.digits, digit.isDigit = true

theorem proper_decimalDigits (value : Nat) (position : Int) : Digits.Proper ⟨decimalDigits value, position⟩ :=
  ⟨decimalDigits_ne_nil value, isDigit_of_mem_decimalDigits value⟩

theorem proper_zero (position : Int) : Digits.Proper ⟨['0'], position⟩ :=
  ⟨List.cons_ne_nil _ _, List.forall_mem_singleton.2 rfl⟩

/-- Trailing zeros are dropped down to one digit. -/
theorem Digits.Proper.trimmed {number : Digits} (proper : number.Proper) : number.trimmed.Proper := by
  unfold Digits.trimmed
  dsimp only
  split
  · exact proper_zero _
  · rename_i any
    refine ⟨List.isEmpty_iff.not.1 any, fun digit member => proper.numeral digit ?_⟩
    exact List.mem_reverse.1 (List.dropWhile_subset _ (List.mem_reverse.1 member))

/-- Rounding to some digits leaves at least one. -/
theorem proper_significant (count numerator denominator : Nat) :
    (significant count numerator denominator).Proper := by
  unfold significant
  dsimp only
  split <;> exact proper_decimalDigits _ _

theorem proper_candidate? {interval : Interval} {numerator denominator count : Nat} {position : Int}
    {number : Digits} (found : interval.candidate? numerator denominator position count = some number) :
    number.Proper := by
  unfold Interval.candidate? at found
  dsimp only at found
  repeat' split at found
  all_goals cases found
  all_goals exact proper_decimalDigits _ _

/-- The shortest digits that are read back as the number. -/
theorem proper_shortest (mantissa : Nat) (exponent : Int) : (shortest mantissa exponent).Proper := by
  unfold shortest
  dsimp only
  generalize searched : (List.range 17).findSome? _ = found
  cases found with
  | none => exact proper_significant _ _ _
  | some number =>
      obtain ⟨count, -, candidate⟩ := List.exists_of_findSome?_eq_some searched
      exact proper_candidate? candidate

/-- The text begins with a digit, which a sign or a bracket may precede. -/
def Opens (text : List Char) : Prop :=
  ∃ first rest, text = first :: rest ∧ (first.isDigit = true ∨ first = '-' ∨ first = '(')

/-- Only the beginning of a text matters. -/
theorem Opens.append {text : List Char} (opens : Opens text) (more : List Char) : Opens (text ++ more) := by
  obtain ⟨first, rest, rfl, mark⟩ := opens
  exact ⟨first, rest ++ more, rfl, mark⟩

theorem Digits.Proper.opens_take {number : Digits} (proper : number.Proper) (count : Nat) :
    Opens (number.digits.take (count + 1)) := by
  obtain ⟨first, rest, digits⟩ := List.exists_cons_of_ne_nil proper.any
  rw [digits]
  exact ⟨first, rest.take count, rfl, .inl (proper.numeral first (digits ▸ List.mem_cons_self))⟩

/-- In every layout a digit stands before the point. -/
theorem opens_write (layout : Layout) {number : Digits} (proper : number.Proper) :
    Opens (layout.write number) := by
  unfold Layout.write
  dsimp only
  split
  · split
    · exact ⟨'0', _, rfl, .inl rfl⟩
    · exact ((proper.opens_take _).append _).append _
  · exact ((proper.opens_take 0).append _).append _

/-- The sign is one more character at the front. -/
theorem opens_signed (negative : Bool) {digits : List Char} (opens : Opens digits) :
    Opens (signed negative digits).toList := by
  unfold signed
  rw [String.toList_ofList]
  cases negative with
  | false => exact opens
  | true => exact ⟨'-', digits, rfl, .inr (.inl rfl)⟩

theorem opens_general (count numerator denominator : Nat) : Opens (general count numerator denominator) :=
  opens_write _ (proper_significant count numerator denominator).trimmed

variable {value : Float} {negative : Bool} {mantissa : Nat} {exponent : Int}

/-- A finite number is written with a few digits. -/
theorem opens_generalText (count : Nat) (finite : Binary64.decode value = .finite negative mantissa exponent) :
    Opens (generalText count value).toList := by
  unfold generalText
  rw [finite]
  cases mantissa with
  | zero => exact opens_signed negative ⟨'0', [], rfl, .inl rfl⟩
  | succ mantissa => exact opens_signed negative (opens_general count _ _)

/-- A finite number is written with as many digits as it needs. -/
theorem opens_shortestText (pointed : Bool)
    (finite : Binary64.decode value = .finite negative mantissa exponent) :
    Opens (shortestText pointed value).toList := by
  unfold shortestText
  rw [finite]
  cases mantissa with
  | zero => exact opens_signed negative (opens_write _ (proper_zero 0))
  | succ mantissa => exact opens_signed negative (opens_write _ (proper_shortest _ _).trimmed)

end Decimal

open Decimal

namespace BigFloat

/-- A finite big number is written with a few digits. -/
theorem opens_generalText (count : Nat) (mantissa exponent : Int) :
    Opens (generalText count (.finite mantissa exponent)).toList := by
  unfold generalText
  dsimp only
  split
  · exact ⟨'0', [], rfl, .inl rfl⟩
  · exact opens_signed _ (opens_general count _ _)

/-- What is equal to an integer is finite. -/
theorem finite_of_same {value : BigFloat} {integer : Int} (same : value.same (.ofInt integer) = true) :
    ∃ mantissa exponent, value = .finite mantissa exponent := by
  cases value with
  | finite mantissa exponent => exact ⟨mantissa, exponent, rfl⟩
  | infinite negative => cases negative <;> cases same
  | undefined => cases same

/-- A number that equals an integer is finite. -/
theorem decode_of_same {value : Float} {integer : Int}
    (same : (ofFloat value).same (.ofInt integer) = true) :
    ∃ negative mantissa exponent, Binary64.decode value = .finite negative mantissa exponent := by
  obtain ⟨mantissa, exponent, finite⟩ := finite_of_same same
  unfold ofFloat at finite
  split at finite
  · exact ⟨_, _, _, ‹_›⟩
  · cases finite
  · cases finite

end BigFloat

namespace Number

theorem opens_bracketed (text : String) : Opens ("(" ++ text).toList :=
  ⟨'(', text.toList, String.toList_append, .inr (.inr rfl)⟩

/-- The imaginary part ends in a letter, but no text begins with it. -/
theorem opens_complexText (re : Float) {im : Float} {negative : Bool} {mantissa : Nat} {exponent : Int}
    (finite : Binary64.decode im = .finite negative mantissa exponent) : Opens (complexText re im).toList := by
  unfold complexText
  split
  · rw [imaginaryText, String.toList_append]
    exact (opens_shortestText false finite).append _
  · dsimp only
    rw [String.append_assoc, String.append_assoc, String.append_assoc]
    exact opens_bracketed _

/-- The text of one begins otherwise than a name. -/
theorem opens_coefficientText {number : Number} {shown : String} (one : Coefficient.isOne number = true)
    (written : Coefficient.text number = .ok shown) : Opens shown.toList := by
  cases number with
  | integer value =>
      obtain ⟨rounded, returned, rfl⟩ := map_eq_ok.1 written
      obtain ⟨finite, rfl⟩ := floatOfInt_eq_ok.1 returned
      obtain ⟨number, known⟩ := Binary64.isFinite_iff.1 finite
      obtain ⟨negative, mantissa, exponent, decoded, -⟩ := Binary64.decode_of_exactValue known
      exact opens_generalText _ decoded
  | real value =>
      cases written
      obtain ⟨same, -⟩ := Bool.and_eq_true_iff.1 one
      obtain ⟨negative, mantissa, exponent, decoded⟩ := BigFloat.decode_of_same same
      exact opens_generalText _ decoded
  | complex re im =>
      cases written
      obtain ⟨-, same⟩ := Bool.and_eq_true_iff.1 one
      obtain ⟨negative, mantissa, exponent, decoded⟩ := BigFloat.decode_of_same same
      exact opens_complexText re decoded
  | bigReal value =>
      cases written
      obtain ⟨same, -⟩ := Bool.and_eq_true_iff.1 one
      obtain ⟨mantissa, exponent, rfl⟩ := BigFloat.finite_of_same same
      exact BigFloat.opens_generalText _ mantissa exponent
  | bigComplex value =>
      cases written
      rw [bigComplexText, String.append_assoc, String.append_assoc, String.append_assoc]
      exact opens_bracketed _

end Number

end TrigAlgebra
