/-
This file says what the comparison of stored integers within an integer tolerance finds: the exact
distances unless a difference leaves its form or is rounded.
-/

import Mathlib
import TrigAlgebra.Proofs.FloatOrder
import TrigAlgebra.Proofs.StoredIntegers
import TrigAlgebra.Session.Compute

namespace TrigAlgebra

namespace DenseVector

variable {form form' : Storage} {left right : Int} {first second values : List Int}

/-- The distance of two integers as they are stored. -/
def storedDistance : Storage → Storage → Int → Int → Distance
  | .signed, .signed, left, right => .word (Word.wrapSigned (Word.wrapSigned (left - right)).natAbs)
  | .unsigned, .unsigned, left, right => .word (Word.wrapUnsigned (left - right))
  | _, _, left, right => .rounded (Binary64.ofInt left - Binary64.ofInt right).abs

/-- What the distance of two words of one form is in integers: a difference that does not fit returns
from the other end of the words, and the size of the least signed word is that word. -/
def wordDistance : Storage → Int → Int → Int
  | .signed, left, right =>
      if |left - right| < 2 ^ 63 then |left - right|
      else if |left - right| = 2 ^ 63 then -2 ^ 63
      else 2 ^ 64 - |left - right|
  | .unsigned, left, right => if right ≤ left then left - right else 2 ^ 64 - (right - left)
  | .unbounded, left, right => |left - right|

/-- The distance of two signed words, wrapped as it is computed. -/
theorem wrapSigned_natAbs_wrapSigned (fits : Word.isSigned left = true) (fits' : Word.isSigned right = true) :
    Word.wrapSigned (Word.wrapSigned (left - right)).natAbs = wordDistance .signed left right := by
  rw [Word.isSigned_iff] at fits fits'
  simp only [wordDistance, Word.wrapSigned, Word.signedBound, Word.count]
  rcases abs_cases (left - right) with ⟨size, sign⟩ | ⟨size, sign⟩ <;> rw [size] <;> split_ifs <;> omega

/-- The distance of two unsigned words, which wraps where the first is the smaller one. -/
theorem wrapUnsigned_sub (fits : Word.isUnsigned left = true) (fits' : Word.isUnsigned right = true) :
    Word.wrapUnsigned (left - right) = wordDistance .unsigned left right := by
  rw [Word.isUnsigned_iff] at fits fits'
  simp only [wordDistance, Word.wrapUnsigned, Word.count]
  split_ifs <;> omega

/-- Words of one form have a distance that is a word. -/
theorem storedDistance_same (words : form ≠ .unbounded) (fits : form.holds left = true)
    (fits' : form.holds right = true) :
    storedDistance form form left right = .word (wordDistance form left right) := by
  cases form with
  | signed => exact congrArg Distance.word (wrapSigned_natAbs_wrapSigned fits fits')
  | unsigned => exact congrArg Distance.word (wrapUnsigned_sub fits fits')
  | unbounded => exact (words rfl).elim

/-- Words of different forms are rounded before they are subtracted. -/
theorem storedDistance_mixed (mixed : form ≠ form') :
    storedDistance form form' left right =
      .rounded (Binary64.ofInt left - Binary64.ofInt right).abs := by
  cases form <;> cases form' <;> first | rfl | exact (mixed rfl).elim

/-- The distances of two vectors of integers, slot by slot. -/
theorem distances_ofIntegers (words : form ≠ .unbounded) (words' : form' ≠ .unbounded) :
    distances (ofIntegers form first) (ofIntegers form' second) =
      .ok (List.zipWith (storedDistance form form') first second) := by
  have rounded : List.zipWith (fun left right => Distance.rounded (toReal left - toReal right).abs)
      (first.map .integer) (second.map .integer) = List.zipWith (fun left right =>
        .rounded (Binary64.ofInt left - Binary64.ofInt right).abs) first second := by
    rw [List.zipWith_map]
    rfl
  cases form with
  | signed =>
      cases form' with
      | signed => rfl
      | unsigned => exact congrArg Except.ok rounded
      | unbounded => exact (words' rfl).elim
  | unsigned =>
      cases form' with
      | signed => exact congrArg Except.ok rounded
      | unsigned => rfl
      | unbounded => exact (words' rfl).elim
  | unbounded => exact (words rfl).elim

/-- A machine word is compared as an integer. -/
theorem within_word {tolerance value : Int} :
    Distance.within (.integer tolerance) (.word value) = .ok (decide (value ≤ tolerance)) := by
  change Except.ok (atMost (.integer tolerance) (.integer value)) = _
  unfold atMost Number.compare?
  dsimp only
  rcases Int.lt_trichotomy value tolerance with less | rfl | greater
  · rw [compare_lt_iff_lt.2 less, decide_eq_true less.le]
  · rw [compare_eq_iff_eq.2 rfl, decide_eq_true (Int.le_refl value)]
  · rw [compare_gt_iff_gt.2 greater, decide_eq_false (Int.not_le.2 greater)]

/-- A rounded distance is compared as a number. -/
theorem within_rounded {tolerance : Int} {value : Float} :
    Distance.within (.integer tolerance) (.rounded value) =
      if (Binary64.ofInt tolerance).isFinite then .ok (decide (value ≤ Binary64.ofInt tolerance))
      else .error .integerTooLarge := by
  change (Number.floatOfInt tolerance).map _ = _
  unfold Number.floatOfInt
  dsimp only
  split <;> rfl

/-- Padding appends zeros. -/
theorem pad_eq {size : Nat} (short : values.length ≤ size) :
    pad 0 size values = (List.range size).map fun power => values.getD power 0 := by
  apply List.ext_getElem
  · rw [pad, List.length_append, List.length_replicate, List.length_map, List.length_range]
    omega
  · intro index inside _
    rw [List.getElem_map, List.getElem_range, List.getD_eq_getElem?_getD]
    by_cases old : index < values.length
    · rw [List.getElem?_eq_getElem old, Option.getD_some]
      exact List.getElem_append_left old
    · rw [List.getElem?_eq_none (Nat.le_of_not_lt old), Option.getD_none]
      exact (List.getElem_append_right (Nat.le_of_not_lt old)).trans (List.getElem_replicate _)

theorem length_ofIntegers : (ofIntegers form values).length = values.length := by
  cases form <;> simp [ofIntegers, length, toNumbers]

/-- Padding a vector of words pads its integers. -/
theorem padded_ofIntegers (words : form ≠ .unbounded) (size : Nat) :
    (ofIntegers form values).padded size = ofIntegers form (pad 0 size values) := by
  cases form with
  | signed => rfl
  | unsigned => rfl
  | unbounded => exact (words rfl).elim

/-- The distances of two lists of words, power by power. -/
theorem isApprox_ofIntegers (words : form ≠ .unbounded) (words' : form' ≠ .unbounded) (tolerance : Number) :
    (ofIntegers form first).isApprox (ofIntegers form' second) tolerance =
      ((List.range (max first.length second.length)).mapM fun power =>
        Distance.within tolerance
          (storedDistance form form' (first.getD power 0) (second.getD power 0))).map (·.all id) := by
  unfold isApprox
  dsimp only
  rw [length_ofIntegers, length_ofIntegers, padded_ofIntegers words, padded_ofIntegers words',
    pad_eq (Nat.le_max_left _ _), pad_eq (Nat.le_max_right _ _), distances_ofIntegers words words',
    List.zipWith_map, List.zipWith_self]
  change (List.mapM (Distance.within tolerance) (List.map _ _) >>= fun answers =>
    Except.ok (answers.all id)) = _
  rw [List.mapM_map]
  rfl

/-- When every distance can be compared, all of them are. -/
theorem isApprox_of_within {tolerance : Number} (met : Int → Int → Bool) (words : form ≠ .unbounded)
    (words' : form' ≠ .unbounded)
    (within : ∀ power < max first.length second.length, Distance.within tolerance
      (storedDistance form form' (first.getD power 0) (second.getD power 0)) =
        .ok (met (first.getD power 0) (second.getD power 0))) :
    ∃ answer, (ofIntegers form first).isApprox (ofIntegers form' second) tolerance = .ok answer ∧
      (answer = true ↔ ∀ power < max first.length second.length,
        met (first.getD power 0) (second.getD power 0) = true) := by
  have answers : (List.range (max first.length second.length)).mapM (fun power =>
      Distance.within tolerance (storedDistance form form' (first.getD power 0) (second.getD power 0))) =
        .ok ((List.range (max first.length second.length)).map fun power =>
          met (first.getD power 0) (second.getD power 0)) := by
    rw [mapM_eq_ok, List.forall₂_map_right_iff, List.forall₂_same]
    exact fun power inside => within power (List.mem_range.1 inside)
  rw [isApprox_ofIntegers words words', answers]
  refine ⟨_, rfl, ?_⟩
  simp only [List.all_map, List.all_eq_true, List.mem_range, Function.comp_apply, id_eq]

/-- The distance of two integers is computed exactly: it is a signed word, the difference of unsigned
words is not negative, or neither the words of different forms nor their difference are rounded. -/
def Measured : Storage → Storage → Int → Int → Prop
  | .signed, .signed, left, right => |left - right| < 2 ^ 63
  | .unsigned, .unsigned, left, right => right ≤ left
  | _, _, left, right =>
      Binary64.IsExact left ∧ Binary64.IsExact right ∧ Binary64.IsExact (left - right)

theorem wordDistance_of_measured (measured : Measured form form left right) (words : form ≠ .unbounded) :
    wordDistance form left right = |left - right| := by
  cases form with
  | signed => exact if_pos measured
  | unsigned => exact (if_pos measured).trans (abs_of_nonneg (Int.sub_nonneg.2 measured)).symm
  | unbounded => exact (words rfl).elim

/-- Words of different kinds are measured exactly where rounding changes neither them nor their
difference. -/
theorem measured_mixed (mixed : form ≠ form') : Measured form form' left right ↔
    Binary64.IsExact left ∧ Binary64.IsExact right ∧ Binary64.IsExact (left - right) := by
  cases form <;> cases form' <;> first | exact Iff.rfl | exact (mixed rfl).elim

end DenseVector

namespace Session

open DenseVector

variable {form form' : Storage} {left right : List Int}

/-- Polynomials are compared by their stored slots. -/
theorem approx_of_coefficients {first second : Polynomial Number} {vector vector' : DenseVector}
    (stored : first.coefficients = .ok vector) (stored' : second.coefficients = .ok vector')
    (tolerance : Number) : approx (.polynomial first) (.polynomial second) tolerance =
      (vector.isApprox vector' tolerance).map .truth := by
  have left : (View.polynomial first).asPolynomial "is_approx" = .ok first := rfl
  have right : (View.polynomial second).asPolynomial "get_coefficients" = .ok second := rfl
  unfold approx
  rw [left, right]
  change (first.coefficients >>= fun left => second.coefficients >>= fun right => _) = _
  rw [stored, stored']
  rfl

/-- Slots beyond the end are zero, which every word can hold. -/
theorem holds_getD {values : List Int} (words : form ≠ .unbounded)
    (fits : ∀ value ∈ values, form.holds value = true) (power : Nat) :
    form.holds (values.getD power 0) = true := by
  rw [List.getD_eq_getElem?_getD]
  cases found : values[power]? with
  | none =>
      cases form with
      | unbounded => exact (words rfl).elim
      | _ => rfl
  | some value => exact fits value (List.mem_of_getElem? found)

section Stored

variable {first second : Polynomial Number}

/-- Two vectors of one kind of words are compared slot by slot. -/
theorem approx_words (tolerance : Int) (words : form ≠ .unbounded)
    (stored : first.coefficients = .ok (ofIntegers form left))
    (stored' : second.coefficients = .ok (ofIntegers form right)) : ∃ answer,
      approx (.polynomial first) (.polynomial second) (.integer tolerance) = .ok (.truth answer) ∧
        (answer = true ↔ ∀ power < max left.length right.length,
          wordDistance form (left.getD power 0) (right.getD power 0) ≤ tolerance) := by
  obtain ⟨entries, -, same⟩ := map_eq_ok.1 stored
  obtain ⟨entries', -, same'⟩ := map_eq_ok.1 stored'
  have fits := holds_getD words (holds_of_ofNumbers words same)
  have fits' := holds_getD words (holds_of_ofNumbers words same')
  have within (power : Nat) (_ : power < max left.length right.length) :
      Distance.within (.integer tolerance)
        (storedDistance form form (left.getD power 0) (right.getD power 0)) =
          .ok (decide (wordDistance form (left.getD power 0) (right.getD power 0) ≤ tolerance)) := by
    rw [storedDistance_same words (fits power) (fits' power), within_word]
  obtain ⟨answer, returned, means⟩ :=
    isApprox_of_within (fun left right => decide (wordDistance form left right ≤ tolerance)) words words within
  rw [approx_of_coefficients stored stored', returned]
  exact ⟨answer, rfl, by simpa only [decide_eq_true_eq] using means⟩

/-- Two vectors of different kinds of words are compared slot by slot. -/
theorem approx_mixed {tolerance : Int} (mixed : form ≠ form') (words : form ≠ .unbounded)
    (words' : form' ≠ .unbounded) (stored : first.coefficients = .ok (ofIntegers form left))
    (stored' : second.coefficients = .ok (ofIntegers form' right))
    (finite : (Binary64.ofInt tolerance).isFinite = true) : ∃ answer,
      approx (.polynomial first) (.polynomial second) (.integer tolerance) = .ok (.truth answer) ∧
        (answer = true ↔ ∀ power < max left.length right.length,
          (Binary64.ofInt (left.getD power 0) - Binary64.ofInt (right.getD power 0)).abs ≤
            Binary64.ofInt tolerance) := by
  have within (power : Nat) (_ : power < max left.length right.length) :
      Distance.within (.integer tolerance)
        (storedDistance form form' (left.getD power 0) (right.getD power 0)) =
          .ok (decide ((Binary64.ofInt (left.getD power 0) - Binary64.ofInt (right.getD power 0)).abs ≤
            Binary64.ofInt tolerance)) := by
    rw [storedDistance_mixed mixed, within_rounded, if_pos finite]
  obtain ⟨answer, returned, means⟩ := isApprox_of_within (fun left right =>
    decide ((Binary64.ofInt left - Binary64.ofInt right).abs ≤ Binary64.ofInt tolerance)) words words' within
  rw [approx_of_coefficients stored stored', returned]
  exact ⟨answer, rfl, by simpa only [decide_eq_true_eq] using means⟩

/-- A tolerance that is too large for a rounded number is refused. -/
theorem approx_refused {tolerance : Int} (mixed : form ≠ form') (words : form ≠ .unbounded)
    (words' : form' ≠ .unbounded) (stored : first.coefficients = .ok (ofIntegers form left))
    (stored' : second.coefficients = .ok (ofIntegers form' right))
    (large : ¬(Binary64.ofInt tolerance).isFinite = true) :
    approx (.polynomial first) (.polynomial second) (.integer tolerance) = .error .integerTooLarge := by
  obtain ⟨entries, -, same⟩ := map_eq_ok.1 stored
  have some : 0 < max left.length right.length :=
    lt_max_of_lt_left (List.length_pos_of_ne_nil (ne_nil_of_ofNumbers words same))
  obtain ⟨others, range⟩ : ∃ others, List.range (max left.length right.length) = 0 :: others :=
    ⟨_, List.range_eq_range'.trans (by rw [← Nat.succ_pred_eq_of_pos some]; rfl)⟩
  rw [approx_of_coefficients stored stored', isApprox_ofIntegers words words', range, List.mapM_cons,
    storedDistance_mixed mixed, within_rounded, if_neg large]
  rfl

/-- Beyond the powers of both polynomials, both coefficients are zero. -/
theorem forall_distance_iff {tolerance : Int} (notNegative : 0 ≤ tolerance) :
    (∀ power < max left.length right.length, |left.getD power 0 - right.getD power 0| ≤ tolerance) ↔
      ∀ power, |left.getD power 0 - right.getD power 0| ≤ tolerance := by
  refine ⟨fun inside power => ?_, fun all power _ => all power⟩
  by_cases short : power < max left.length right.length
  · exact inside power short
  · rw [not_lt, max_le_iff] at short
    rw [List.getD_eq_default _ _ short.1, List.getD_eq_default _ _ short.2]
    exact notNegative

/-- Distances that are computed exactly are compared exactly. -/
theorem approx_measured {tolerance : Int} (words : form ≠ .unbounded) (words' : form' ≠ .unbounded)
    (stored : first.coefficients = .ok (ofIntegers form left))
    (stored' : second.coefficients = .ok (ofIntegers form' right))
    (measured : ∀ power < max left.length right.length,
      Measured form form' (left.getD power 0) (right.getD power 0))
    (unrounded : form ≠ form' → Binary64.IsExact tolerance) : ∃ answer,
      approx (.polynomial first) (.polynomial second) (.integer tolerance) = .ok (.truth answer) ∧
        (answer = true ↔ ∀ power < max left.length right.length,
          |left.getD power 0 - right.getD power 0| ≤ tolerance) := by
  by_cases mixed : form = form'
  · subst mixed
    obtain ⟨answer, returned, means⟩ := approx_words tolerance words stored stored'
    refine ⟨answer, returned, means.trans (forall₂_congr fun power inside => ?_)⟩
    rw [wordDistance_of_measured (measured power inside) words]
  · have exactTolerance := unrounded mixed
    have finite := Binary64.isFinite_iff.2 ⟨_, exactTolerance⟩
    obtain ⟨answer, returned, means⟩ := approx_mixed mixed words words' stored stored' finite
    refine ⟨answer, returned, means.trans (forall₂_congr fun power inside => ?_)⟩
    obtain ⟨exact, exact', fits⟩ := (measured_mixed mixed).1 (measured power inside)
    rw [Binary64.le_iff_of_exactValue (Binary64.exactValue_distance exact exact' fits) exactTolerance,
      Int.cast_le]

end Stored

/-- Stored integers are compared within an integer by their distances as words, if they are words of
one form, and by their rounded distances otherwise. These distances are the true ones where nothing
overflows and nothing is rounded. -/
theorem approx_integers (first second : Polynomial Number) (tolerance : Int) (notNegative : 0 ≤ tolerance)
    (words : form ≠ .unbounded) (words' : form' ≠ .unbounded)
    (stored : first.coefficients = .ok (ofIntegers form left))
    (stored' : second.coefficients = .ok (ofIntegers form' right)) :
    (form = form' → ∃ answer,
      approx (.polynomial first) (.polynomial second) (.integer tolerance) = .ok (.truth answer) ∧
        (answer = true ↔ ∀ power < max left.length right.length,
          wordDistance form (left.getD power 0) (right.getD power 0) ≤ tolerance)) ∧
    (form ≠ form' →
      if (Binary64.ofInt tolerance).isFinite then ∃ answer,
        approx (.polynomial first) (.polynomial second) (.integer tolerance) = .ok (.truth answer) ∧
          (answer = true ↔ ∀ power < max left.length right.length,
            (Binary64.ofInt (left.getD power 0) - Binary64.ofInt (right.getD power 0)).abs ≤
              Binary64.ofInt tolerance)
      else approx (.polynomial first) (.polynomial second) (.integer tolerance) = .error .integerTooLarge) ∧
    ((∀ power < max left.length right.length, Measured form form' (left.getD power 0) (right.getD power 0)) →
      (form ≠ form' → Binary64.IsExact tolerance) → ∃ answer,
        approx (.polynomial first) (.polynomial second) (.integer tolerance) = .ok (.truth answer) ∧
          (answer = true ↔ ∀ power, |left.getD power 0 - right.getD power 0| ≤ tolerance)) := by
  refine ⟨?_, fun mixed => ?_, fun measured unrounded => ?_⟩
  · rintro rfl
    exact approx_words tolerance words stored stored'
  · split
    · rename_i finite
      exact approx_mixed mixed words words' stored stored' finite
    · rename_i large
      exact approx_refused mixed words words' stored stored' large
  · obtain ⟨answer, returned, means⟩ := approx_measured words words' stored stored' measured unrounded
    exact ⟨answer, returned, means.trans (forall_distance_iff notNegative)⟩

/-- Unsigned words that differ by one are far apart or not, depending on which is subtracted. -/
theorem approx_integers_unsigned :
    approx (.polynomial ⟨[.constant (.integer (2 ^ 63))], true⟩)
        (.polynomial ⟨[.constant (.integer (2 ^ 63 + 1))], true⟩) (.integer 1) = .ok (.truth false) ∧
      approx (.polynomial ⟨[.constant (.integer (2 ^ 63 + 1))], true⟩)
        (.polynomial ⟨[.constant (.integer (2 ^ 63))], true⟩) (.integer 1) = .ok (.truth true) := by
  have stored : Polynomial.coefficients ⟨[.constant (.integer (2 ^ 63))], true⟩ =
      .ok (ofIntegers .unsigned [2 ^ 63]) := by
    rw [Polynomial.coefficients_of_univariate rfl]
    rfl
  have stored' : Polynomial.coefficients ⟨[.constant (.integer (2 ^ 63 + 1))], true⟩ =
      .ok (ofIntegers .unsigned [2 ^ 63 + 1]) := by
    rw [Polynomial.coefficients_of_univariate rfl]
    rfl
  have words : Storage.unsigned ≠ .unbounded := nofun
  obtain ⟨sameForm, -, -⟩ := approx_integers _ _ 1 (by decide) words words stored stored'
  obtain ⟨answer, returned, means⟩ := sameForm rfl
  obtain ⟨-, -, exact⟩ := approx_integers _ _ 1 (by decide) words words stored' stored
  have measured (power : Nat) (inside : power < max [(2 : Int) ^ 63 + 1].length [(2 : Int) ^ 63].length) :
      Measured .unsigned .unsigned ([(2 : Int) ^ 63 + 1].getD power 0) ([(2 : Int) ^ 63].getD power 0) := by
    obtain rfl : power = 0 := Nat.lt_one_iff.1 inside
    exact Int.le_add_of_nonneg_right Int.one_nonneg
  obtain ⟨answer', returned', means'⟩ := exact measured fun mixed => (mixed rfl).elim
  have far : answer = false := by
    rw [← Bool.not_eq_true, means]
    decide
  have near : answer' = true := by
    rw [means']
    intro power
    cases power <;> simp
  rw [returned, returned', far, near]
  exact ⟨rfl, rfl⟩

end Session

end TrigAlgebra
