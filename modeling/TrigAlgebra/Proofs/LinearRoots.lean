/-
This file finds the root of a linear polynomial with integer coefficients: it has the right sign and
value unless the constant coefficient is stored as a word whose negative is no such word.
-/

import Mathlib
import TrigAlgebra.Proofs.FloatQuotients
import TrigAlgebra.Proofs.OneVariable
import TrigAlgebra.Proofs.StoredIntegers
import TrigAlgebra.Roots.Finding

namespace TrigAlgebra

open Binary64

/-- An entry of a list of integer coefficients, where a power that does not occur has a rounded zero. -/
inductive Slot : Int → Number → Prop
  | integer (value : Int) : Slot value (.integer value)
  | missing : Slot 0 (.real 0.0)

namespace Slot

variable {value : Int} {entry : Number}

/-- A slot holds a real number or an integer. -/
theorem isReal (slot : Slot value entry) : entry.isReal = true := by
  cases slot <;> rfl

/-- A slot is rounded as its integer is. -/
theorem toReal_eq (slot : Slot value entry) : DenseVector.toReal entry = ofInt value := by
  cases slot with
  | integer => rfl
  | missing => exact eq_of_unpack (unpack_zero_literal.trans unpack_ofInt_zero.symm)

/-- Only a slot of zero holds anything but its integer. -/
theorem eq_integer (slot : Slot value entry) (nonzero : value ≠ 0) : entry = .integer value := by
  cases slot with
  | integer => rfl
  | missing => exact (nonzero rfl).elim

theorem isZero (slot : Slot 0 entry) : entry.isZero = true := by
  cases slot <;> rfl

end Slot

namespace DenseVector

section Trimming

variable {A : Type} {isZero : A → Bool} {first second : A} {rest : List A}

/-- After the last entry that is not zero, everything is dropped. -/
theorem trimEntries_pair (nonzero : isZero second = false) (zeros : ∀ entry ∈ rest, isZero entry = true) :
    trimEntries isZero (first :: second :: rest) = [first, second] := by
  have dropped : (rest.reverse ++ [second, first]).dropWhile isZero = [second, first] := by
    rw [List.dropWhile_append_of_pos fun entry member => zeros entry (List.mem_reverse.1 member),
      List.dropWhile_cons_of_neg (by rw [nonzero]; exact Bool.false_ne_true)]
  unfold trimEntries
  rw [List.reverse_cons, List.reverse_cons, List.append_assoc, List.singleton_append, dropped]
  rfl

end Trimming

section Forms

variable {entries : List Number}

/-- Integers and rounded zeros are kept as they are, rounded or stored as words. -/
theorem ofNumbers_slots (slots : ∀ entry ∈ entries, ∃ value, Slot value entry) :
    ofNumbers entries = .numbers entries ∨ ofNumbers entries = .reals (entries.map toReal) ∨
      ∃ form values, form ≠ .unbounded ∧ ofNumbers entries = ofIntegers form values := by
  have real : ¬(entries.any fun entry => !entry.isReal) = true := by
    rw [List.any_eq_true]
    rintro ⟨entry, member, complex⟩
    obtain ⟨value, slot⟩ := slots entry member
    rw [slot.isReal] at complex
    cases complex
  unfold ofNumbers
  split
  · exact .inl rfl
  · split
    · exact .inr (.inl rfl)
    · rename_i integers listed
      split
      · rename_i empty
        rw [eq_of_mapM_asInteger? listed, List.isEmpty_iff.1 empty]
        exact .inr (.inl rfl)
      · split
        · exact .inr (.inr ⟨.signed, integers, nofun, rfl⟩)
        · split
          · exact .inr (.inr ⟨.unsigned, integers, nofun, rfl⟩)
          · exact .inr (.inl rfl)

end Forms

/-- Whether an integer can be stored as the integers of a vector are; rounded numbers have room for all. -/
def holds (vector : DenseVector) (value : Int) : Bool :=
  vector.storage?.elim true fun form => form.holds value

section Roots

variable {constant slope : Int} {root : Float} {entry : Number} {rest : List Number} {vector : DenseVector}

/-- What is known of the root of a linear polynomial whose coefficients are stored in a vector. -/
structure LinearRoot (vector : DenseVector) (constant slope : Int) (root : Float) : Prop where
  side : vector.holds (-constant) = true → SameSide root (-(constant * slope))
  rounded : vector.holds (-constant) = true → vector.storage? ≠ some .unbounded →
    (root == -(ofInt constant / ofInt slope)) = true
  nearest : vector.storage? = some .unbounded →
    (root == ofRatio (decide (0 < constant * slope)) constant.natAbs slope.natAbs) = true
  wrapped : vector.holds (-constant) = false → SameSide root (constant * slope)

/-- A trimmed vector of two entries has one root. -/
theorem roots_of_trim (precise : Bool) (two : vector.trim.length = 2)
    (found : vector.trim.linearRoot = .ok [(root, 0.0)]) :
    (vector.roots precise).outcome = .ok [(root, 0.0)] := by
  unfold roots
  dsimp only
  rw [two]
  exact found

/-- Words hold what fits into them. -/
theorem holds_ofIntegers (form : Storage) (values : List Int) (value : Int) :
    (ofIntegers form values).holds value = form.holds value := by
  rw [DenseVector.holds, storage?_ofIntegers]
  rfl

/-- The root of a vector of machine words. -/
theorem roots_words {form : Storage} {others : List Int} (words : form ≠ .unbounded) (precise : Bool)
    (nonzero : slope ≠ 0) (zeros : ∀ other ∈ others, other = 0) :
    ((ofIntegers form (constant :: slope :: others)).roots precise).outcome =
      .ok [(ofInt (form.wrap (-constant)) / ofInt slope, 0.0)] := by
  have trimmed : trimEntries (· == 0) (constant :: slope :: others) = [constant, slope] :=
    trimEntries_pair (beq_eq_false_iff_ne.2 nonzero) fun other member => beq_iff_eq.2 (zeros other member)
  have short : (ofIntegers form (constant :: slope :: others)).trim = ofIntegers form [constant, slope] := by
    cases form with
    | signed => exact congrArg signedWords trimmed
    | unsigned => exact congrArg unsignedWords trimmed
    | unbounded => exact (words rfl).elim
  apply roots_of_trim precise
  · rw [short]
    cases form <;> rfl
  · rw [short]
    cases form with
    | signed => rfl
    | unsigned => rfl
    | unbounded => exact (words rfl).elim

/-- A negative that does not fit comes back on the side of the word itself. -/
theorem wrapped_side {form : Storage} (words : form ≠ .unbounded) (nonzero : slope ≠ 0)
    (small : slope.natAbs < 2 ^ 64) (fits : form.holds constant = true)
    (large : form.holds (-constant) = false) :
    SameSide (ofInt (form.wrap (-constant)) / ofInt slope) (constant * slope) := by
  cases form with
  | unbounded => exact (words rfl).elim
  | signed =>
      change Word.isSigned constant = true at fits
      change Word.isSigned (-constant) = false at large
      rw [Word.isSigned_iff] at fits
      rw [← Bool.not_eq_true, Word.isSigned_iff] at large
      have least : constant = -2 ^ 63 := by omega
      have same : Storage.signed.wrap (-constant) = constant := by
        rw [least]
        rfl
      rw [same]
      exact sameSide_quotient nonzero (by omega) small
  | unsigned =>
      change Word.isUnsigned constant = true at fits
      change Word.isUnsigned (-constant) = false at large
      rw [Word.isUnsigned_iff] at fits
      rw [← Bool.not_eq_true, Word.isUnsigned_iff] at large
      have wrapped : Storage.unsigned.wrap (-constant) = 2 ^ 64 - constant := by
        change -constant % 0x10000000000000000 = _
        omega
      rw [wrapped]
      exact (sameSide_quotient nonzero (by omega) small).of_pos_mul (by omega) (by omega)

variable (nonzero : slope ≠ 0) (small : constant.natAbs < 2 ^ 64) (small' : slope.natAbs < 2 ^ 64)
  (slot : Slot constant entry) (zeros : ∀ other ∈ rest, Slot 0 other)

include nonzero small small' slot zeros

/-- The root of two rounded numbers. -/
theorem linearRoot_reals (precise : Bool) : ∃ root,
    (roots precise (.reals ((entry :: .integer slope :: rest).map toReal))).outcome = .ok [(root, 0.0)] ∧
      LinearRoot (.reals ((entry :: .integer slope :: rest).map toReal)) constant slope root := by
  have trimmed : trim (.reals ((entry :: .integer slope :: rest).map toReal)) =
      .reals [ofInt constant, ofInt slope] := by
    have others : ∀ value ∈ rest.map toReal, (value == 0.0) = true := by
      rw [List.forall_mem_map]
      intro other member
      rw [(zeros other member).toReal_eq, ofInt_beq_zero, beq_self_eq_true]
    rw [List.map_cons, List.map_cons, trim, slot.toReal_eq]
    have notZero := (ofInt_beq_zero slope).trans (beq_eq_false_iff_ne.2 nonzero)
    exact congrArg reals (trimEntries_pair notZero others)
  obtain ⟨side, rounded⟩ := negated_quotient (.inr rfl) nonzero small small'
  refine ⟨-ofInt constant / ofInt slope, roots_of_trim precise ?_ ?_, ?_⟩
  · rw [trimmed]
    rfl
  · rw [trimmed]
    rfl
  · exact ⟨fun _ => side, fun _ _ => rounded, nofun, nofun⟩

omit small slot zeros in
theorem div_rounded (numerator : Float) :
    Number.div (.real numerator) (.integer slope) = .ok (.real (numerator / ofInt slope)) := by
  have notZero := (ofInt_beq_zero slope).trans (beq_eq_false_iff_ne.2 nonzero)
  have converted : (Number.integer slope).toFloat = .ok (ofInt slope) :=
    if_pos (moderate_ofInt nonzero small').isFinite
  have quotient : Number.division.real numerator (ofInt slope) = .ok (numerator / ofInt slope) := by
    simp only [Number.division, notZero]
    rfl
  unfold Number.div Number.Operation.mixed
  simp only [Number.isBig, Number.isReal, Bool.or_false, Bool.and_self, Bool.false_eq_true, if_false, if_true]
  exact bind_eq_ok.2 ⟨numerator, rfl, bind_eq_ok.2 ⟨_, converted, bind_eq_ok.2 ⟨_, quotient, rfl⟩⟩⟩

omit slot zeros in
/-- Small integers always have a quotient. -/
theorem div_integers : ∃ root, Number.div (.integer (-constant)) (.integer slope) = .ok (.real root) ∧
    root = ofRatio (decide (-constant < 0) != decide (slope < 0)) constant.natAbs slope.natAbs ∧
      SameSide root (-(constant * slope)) := by
  obtain ⟨bounded, side⟩ := sameSide_ofRatio nonzero (by rwa [Int.natAbs_neg] : (-constant).natAbs < 2 ^ 64)
    small'
  rw [Int.natAbs_neg] at bounded side
  rw [Int.neg_mul] at side
  refine ⟨_, ?_, rfl, side⟩
  change (Number.integerQuotient (-constant) slope).map Number.real = _
  unfold Number.integerQuotient
  dsimp only
  rw [if_neg (beq_iff_eq.not.2 nonzero), Int.natAbs_neg, if_pos bounded]
  rfl

omit zeros in
/-- The negative of an integer, or of the rounded zero, is divided by an integer and rounded once. -/
theorem div_neg_slot : ∃ root, Number.div entry.neg (.integer slope) = .ok (.real root) ∧
    SameSide root (-(constant * slope)) ∧
      (root == ofRatio (decide (0 < constant * slope)) constant.natAbs slope.natAbs) = true := by
  have positive := Int.natAbs_pos.2 nonzero
  cases slot with
  | missing =>
      have negated : (-0.0 : Float).toModel.unpack = .zero .negative := by
        rw [unpack_neg, unpack_zero_literal]
        rfl
      have form := unpack_zero_div negated (moderate_ofInt nonzero small')
      rw [Int.zero_mul, Int.neg_zero]
      exact ⟨_, div_rounded nonzero small' _, sameSide_zero form,
        beq_of_unpack_zero form (unpack_ofRatio_zero _ positive)⟩
  | integer =>
      obtain ⟨root, divided, same, side⟩ := div_integers nonzero small small'
      refine ⟨root, divided, side, ?_⟩
      rw [same]
      rcases eq_or_ne constant 0 with rfl | nonzero'
      · exact beq_of_unpack_zero (unpack_ofRatio_zero _ positive) (unpack_ofRatio_zero _ positive)
      · have sign : (decide (-constant < 0) != decide (slope < 0)) = decide (0 < constant * slope) := by
          rw [negative_product (neg_ne_zero.2 nonzero') nonzero, Int.neg_mul, decide_eq_decide, neg_lt_zero]
        rw [sign]
        exact (moderate_ofRatio _ (Int.natAbs_pos.2 nonzero') positive small small').hasSign.beq_self

/-- The root of two integers outside the machine words. -/
theorem linearRoot_numbers (precise : Bool) : ∃ root,
    (roots precise (.numbers (entry :: .integer slope :: rest))).outcome = .ok [(root, 0.0)] ∧
      LinearRoot (.numbers (entry :: .integer slope :: rest)) constant slope root := by
  have trimmed : trim (.numbers (entry :: .integer slope :: rest)) = .numbers [entry, .integer slope] := by
    have notZero : (Number.integer slope).isZero = false := beq_eq_false_iff_ne.2 nonzero
    exact congrArg numbers (trimEntries_pair notZero fun other member => (zeros other member).isZero)
  obtain ⟨root, divided, side, nearest⟩ := div_neg_slot nonzero small small' slot
  refine ⟨root, roots_of_trim precise ?_ ?_, ?_⟩
  · rw [trimmed]
    rfl
  · rw [trimmed, linearRoot, divided]
    rfl
  · exact ⟨fun _ => side, fun _ bounded => (bounded rfl).elim, fun _ => nearest, nofun⟩

omit nonzero small small' in
/-- Slots that are stored as words are the integers themselves. -/
theorem words_of_slots {form : Storage} {values : List Int} (words : form ≠ .unbounded)
    (stored : ofNumbers (entry :: .integer slope :: rest) = ofIntegers form values) :
    ∃ others, values = constant :: slope :: others ∧ ∀ other ∈ others, other = 0 := by
  have listed := eq_of_ofNumbers words stored
  obtain ⟨first, values, rfl, rfl, later⟩ := List.map_eq_cons_iff.1 listed.symm
  obtain ⟨second, others, rfl, same, rfl⟩ := List.map_eq_cons_iff.1 later
  cases same
  cases slot
  refine ⟨others, rfl, fun other member => ?_⟩
  have isZero := zeros _ (List.mem_map_of_mem member)
  cases isZero
  rfl

/-- The root of two machine words, the constant of which may wrap. -/
theorem linearRoot_words {form : Storage} {values : List Int} (words : form ≠ .unbounded) (precise : Bool)
    (stored : ofNumbers (entry :: .integer slope :: rest) = ofIntegers form values) : ∃ root,
    (roots precise (ofIntegers form values)).outcome = .ok [(root, 0.0)] ∧
      LinearRoot (ofIntegers form values) constant slope root := by
  have fits := holds_of_ofNumbers words stored
  obtain ⟨others, rfl, none⟩ := words_of_slots slot zeros words stored
  refine ⟨_, roots_words words precise nonzero none, ?_⟩
  constructor
  · intro fit
    rw [holds_ofIntegers] at fit
    rw [Storage.wrap_of_holds fit]
    exact (negated_quotient (.inl rfl) nonzero small small').1
  · intro fit _
    rw [holds_ofIntegers] at fit
    rw [Storage.wrap_of_holds fit]
    exact (negated_quotient (.inl rfl) nonzero small small').2
  · intro unbounded
    exact (words (Option.some.inj ((storage?_ofIntegers _ _).symm.trans unbounded))).elim
  · intro large
    rw [holds_ofIntegers] at large
    exact wrapped_side words nonzero small' (fits constant List.mem_cons_self) large

/-- The root of stored integers and zeros, of which only the first two may be other than zero. -/
theorem roots_ofNumbers (precise : Bool) : ∃ root,
    ((ofNumbers (entry :: .integer slope :: rest)).roots precise).outcome = .ok [(root, 0.0)] ∧
      LinearRoot (ofNumbers (entry :: .integer slope :: rest)) constant slope root := by
  have slots : ∀ other ∈ entry :: .integer slope :: rest, ∃ value, Slot value other := by
    rw [List.forall_mem_cons, List.forall_mem_cons]
    exact ⟨⟨_, slot⟩, ⟨_, .integer slope⟩, fun other member => ⟨0, zeros other member⟩⟩
  rcases ofNumbers_slots slots with stored | stored | ⟨form, values, words, stored⟩
  · rw [stored]
    exact linearRoot_numbers nonzero small small' slot zeros precise
  · rw [stored]
    exact linearRoot_reals nonzero small small' slot zeros precise
  · have found := linearRoot_words nonzero small small' slot zeros words precise stored
    rwa [stored]

end Roots

end DenseVector

namespace Polynomial

variable {polynomial : Polynomial Number}

/-- Every slot of an integer polynomial holds an integer. -/
theorem slot_integerOf (integers : ∀ item ∈ polynomial.monomials, ∃ value, item.coefficient = .integer value)
    (power : Nat) : Slot (polynomial.integerOf power)
      ((polynomial.coefficientOf? power).getD Coefficient.zero) := by
  rw [integerOf]
  cases found : polynomial.coefficientOf? power with
  | none => exact .missing
  | some coefficient =>
      obtain ⟨item, member, -, rfl⟩ := exists_of_coefficientOf? found
      obtain ⟨value, isInteger⟩ := integers item member
      rw [isInteger]
      exact .integer value

/-- A coefficient other than zero stands before a power that occurs. -/
theorem exists_degree_eq {single : Int} (powers : polynomial.InVariable single)
    (slope : polynomial.integerOf 1 ≠ 0) : ∃ higher, polynomial.degree = higher + 1 := by
  cases found : polynomial.coefficientOf? 1 with
  | none =>
      rw [integerOf, found] at slope
      exact (slope rfl).elim
  | some coefficient =>
      obtain ⟨item, member, power, -⟩ := exists_of_coefficientOf? found
      have bound := leadingPower_le_degree powers member
      exact Nat.exists_eq_add_one_of_ne_zero (by omega)

/-- Slots are as small as the coefficients. -/
theorem natAbs_integerOf_lt {bound : Nat} (positive : 0 < bound)
    (integers : ∀ item ∈ polynomial.monomials, ∃ value : Int,
      item.coefficient = .integer value ∧ value.natAbs < bound) (power : Nat) :
    (polynomial.integerOf power).natAbs < bound := by
  rw [integerOf]
  cases found : polynomial.coefficientOf? power with
  | none => exact positive
  | some coefficient =>
      obtain ⟨item, member, -, rfl⟩ := exists_of_coefficientOf? found
      obtain ⟨value, isInteger, small⟩ := integers item member
      rw [isInteger]
      exact small

theorem roots_eq (univariate : polynomial.univariate = true) {vector : DenseVector}
    (stored : polynomial.coefficients = .ok vector) (precise : Bool) :
    polynomial.roots precise = vector.roots precise := by
  unfold roots
  rw [requireUnivariate, if_pos univariate, stored]
  rfl

/-- The roots are those of the trimmed dense vector. -/
theorem roots_of_univariate (univariate : polynomial.univariate = true) {vector : DenseVector}
    (stored : polynomial.coefficients = .ok vector) (precise : Bool) :
    (polynomial.roots precise).outcome = (vector.roots precise).outcome :=
  congrArg Traced.outcome (roots_eq univariate stored precise)

/-- A linear polynomial whose coefficients are integers of at most 64 binary digits has one root, a real
one, which is the negated quotient of the coefficients, on the right side of zero, unless the constant
coefficient is a word and its negative is none. -/
theorem roots_linear (polynomial : Polynomial Number) (reachable : polynomial.Reachable)
    (named : noVariable ∉ polynomial.vars) (univariate : polynomial.univariate = true)
    (integers : ∀ item ∈ polynomial.monomials, ∃ value : Int,
      item.coefficient = .integer value ∧ value.natAbs < 2 ^ 64)
    (slope : polynomial.integerOf 1 ≠ 0) (linear : ∀ power, 1 < power → polynomial.integerOf power = 0)
    (precise : Bool) : ∃ vector root, polynomial.coefficients = .ok vector ∧
      (polynomial.roots precise).outcome = .ok [(root, 0.0)] ∧
        vector.LinearRoot (polynomial.integerOf 0) (polynomial.integerOf 1) root := by
  obtain ⟨single, oneVariable⟩ := exists_oneVariable reachable named univariate
  have slot := slot_integerOf fun item member => (integers item member).imp fun _ => And.left
  have small := natAbs_integerOf_lt (by decide) integers
  obtain ⟨higher, degree⟩ := exists_degree_eq oneVariable.powers slope
  have slots := denseSlots_eq oneVariable.distinct oneVariable.powers
  rw [degree, List.range_succ_eq_map, List.range_succ_eq_map, List.map_cons, List.map_cons, List.map_cons,
    (slot 1).eq_integer slope] at slots
  have zeros : ∀ other ∈ ((List.range higher).map Nat.succ).map Nat.succ |>.map fun power =>
      (polynomial.coefficientOf? power).getD Coefficient.zero, Slot 0 other := by
    rw [List.forall_mem_map, List.forall_mem_map, List.forall_mem_map]
    intro power _
    have entry := slot (power + 2)
    rwa [linear (power + 2) (by omega)] at entry
  obtain ⟨root, found, known⟩ :=
    DenseVector.roots_ofNumbers slope (small 0) (small 1) (slot 0) zeros precise
  have stored := coefficients_of_univariate univariate
  rw [← slots] at found known
  exact ⟨_, root, stored, (roots_of_univariate univariate stored precise).trans found, known⟩

/-- Both coefficients are unsigned words, which no negative integer is. -/
def unsignedLine : Polynomial Number :=
  ⟨[.constant (.integer (2 ^ 63)), ⟨.integer (2 ^ 63), .power 2 1⟩], true⟩

theorem roots_linear_unsignedLine :
    ∃ root, (unsignedLine.roots false).outcome = .ok [(root, 0.0)] ∧ 0.0 < root := by
  have merged : ofMonomials unsignedLine.monomials = .ok unsignedLine := rfl
  have vars : unsignedLine.vars = [2] := by decide +kernel
  have named : noVariable ∉ unsignedLine.vars := by
    rw [vars]
    decide
  have integers : ∀ item ∈ unsignedLine.monomials, ∃ value : Int,
      item.coefficient = .integer value ∧ value.natAbs < 2 ^ 64 := by
    intro item member
    simp only [unsignedLine, List.mem_cons, List.not_mem_nil, or_false] at member
    obtain rfl | rfl := member <;> exact ⟨2 ^ 63, rfl, by decide⟩
  have higher : ∀ power, 1 < power → unsignedLine.integerOf power = 0 := by
    intro power above
    have none : unsignedLine.coefficientOf? power = none := by
      simp only [coefficientOf?, unsignedLine, Option.map_eq_none_iff, List.find?_eq_none, List.mem_cons,
        List.not_mem_nil, or_false, forall_eq_or_imp, forall_eq, beq_iff_eq]
      exact ⟨Nat.ne_of_lt (Nat.lt_trans Nat.zero_lt_one above), Nat.ne_of_lt above⟩
    rw [integerOf, none]
    rfl
  have constant : unsignedLine.integerOf 0 = 2 ^ 63 := rfl
  have slope : unsignedLine.integerOf 1 = 2 ^ 63 := rfl
  obtain ⟨vector, root, stored, found, known⟩ := roots_linear unsignedLine (.ofMonomials merged) named rfl
    integers (by rw [slope]; decide) higher false
  have words : unsignedLine.coefficients = .ok (.unsignedWords [2 ^ 63, 2 ^ 63]) := by
    rw [coefficients_of_univariate rfl]
    rfl
  obtain rfl := Except.ok.inj (words.symm.trans stored)
  refine ⟨root, found, (known.wrapped ?_).positive.2 ?_⟩
  · rw [constant]
    rfl
  · rw [constant, slope]
    decide

end Polynomial

end TrigAlgebra
