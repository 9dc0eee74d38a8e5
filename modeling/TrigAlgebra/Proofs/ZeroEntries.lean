/-
This file says which entries of stored coefficients are zero, and that trimming a vector keeps the entries
up to its degree.
-/

import TrigAlgebra.Proofs.FloatQuotients
import TrigAlgebra.Proofs.StoredIntegers

namespace TrigAlgebra

open Binary64 Float.Model

namespace Binary64

variable {value other : Float}

/-- A number is zero if its absolute value is. -/
theorem abs_beq_zero : (value.abs == 0.0) = (value == 0.0) := by
  rw [Bool.eq_iff_iff, beq_zero_iff_unpack, beq_zero_iff_unpack, unpack_abs]
  cases value.toModel.unpack <;> simp [UnpackedFloat.abs]

/-- Only a zero is at most as large as zero. -/
theorem beq_zero_of_abs_le (order : value.abs ≤ other.abs) (zero : (other == 0.0) = true) :
    (value == 0.0) = true := by
  obtain ⟨sign, form⟩ := beq_zero_iff_unpack.1 zero
  rw [le_iff_unpack, unpack_abs, unpack_abs, form] at order
  rw [beq_zero_iff_unpack]
  generalize value.toModel.unpack = form' at order
  cases form' with
  | zero sign => exact ⟨sign, rfl⟩
  | finite sign mantissa exponent positive => cases order
  | infinity sign => cases order
  | notANumber => cases order

end Binary64

namespace Number

/-- A real number is zero if it equals zero. -/
theorem isZero_real (value : Float) : (Number.real value).isZero = (value == 0.0) := by
  change Coefficient.isZero (Number.real value) = _
  rw [isZero_eq, ← isZero_ofFloat]
  exact Bool.and_true _

/-- A complex number is zero if both parts are. -/
theorem isZero_complex (re im : Float) : (Number.complex re im).isZero = (re == 0.0 && im == 0.0) := by
  change Coefficient.isZero (Number.complex re im) = _
  rw [isZero_eq, ← isZero_ofFloat, ← isZero_ofFloat]
  rfl

end Number

namespace DenseVector

section Storing

variable {entry : Number} {pair : Float × Float} {entries : List Number}

/-- A rounded number is zero just when the number was. -/
theorem toReal_beq_zero (real : entry.isReal = true) (bounded : entry.isBig = false) :
    (toReal entry == 0.0) = entry.isZero := by
  cases entry with
  | integer value => exact ofInt_beq_zero value
  | real value => exact (Number.isZero_real value).symm
  | complex => cases real
  | bigReal => cases bounded
  | bigComplex => cases bounded

theorem isZeroPair_real (value : Float) : isZeroPair (value, 0.0) = (value == 0.0) := by
  have zero : ((0.0 : Float) == 0.0) = true := by decide +kernel
  rw [isZeroPair, zero, Bool.and_true]

/-- Conversion to a pair keeps what is zero. -/
theorem isZeroPair_toPair (bounded : entry.isBig = false) : isZeroPair (toPair entry) = entry.isZero := by
  cases entry with
  | complex re im => exact (Number.isZero_complex re im).symm
  | bigComplex => cases bounded
  | _ => exact (isZeroPair_real _).trans (toReal_beq_zero rfl bounded)

/-- Conversion to a complex number keeps what is zero. -/
theorem isZeroPair_of_toComplex (bounded : entry.isBig = false) (returned : entry.toComplex = .ok pair) :
    isZeroPair pair = entry.isZero := by
  cases entry with
  | integer value =>
      obtain ⟨rounded, converted, rfl⟩ := map_eq_ok.1 returned
      unfold Number.floatOfInt at converted
      dsimp only at converted
      split at converted
      · cases converted
        exact (isZeroPair_real _).trans (ofInt_beq_zero value)
      · cases converted
  | real value =>
      cases returned
      exact (isZeroPair_real value).trans (Number.isZero_real value).symm
  | complex re im =>
      cases returned
      exact (Number.isZero_complex re im).symm
  | bigReal => cases bounded
  | bigComplex => cases bounded

/-- What is stored for a number is of a bounded kind too, and zero just when the number is. -/
structure Keeps (entry stored : Number) : Prop where
  bounded : stored.isBig = false
  zero : stored.isZero = entry.isZero

/-- Numbers of bounded kinds keep their zeros in every form of storage, which changes all entries alike. -/
theorem exists_keeps (bounded : ∀ entry ∈ entries, entry.isBig = false) : ∃ change,
    (ofNumbers entries).toNumbers = entries.map change ∧ ∀ entry ∈ entries, Keeps entry (change entry) := by
  have same : ∃ change, entries = entries.map change ∧ ∀ entry ∈ entries, Keeps entry (change entry) :=
    ⟨id, (List.map_id entries).symm, fun entry member => ⟨bounded entry member, rfl⟩⟩
  have rounded (real : ∀ entry ∈ entries, entry.isReal = true) : ∃ change,
      (reals (entries.map toReal)).toNumbers = entries.map change ∧
        ∀ entry ∈ entries, Keeps entry (change entry) :=
    ⟨fun entry => .real (toReal entry), List.map_map, fun entry member =>
      ⟨rfl, (Number.isZero_real _).trans (toReal_beq_zero (real entry member) (bounded entry member))⟩⟩
  unfold ofNumbers
  split
  · exact same
  · split
    · exact ⟨fun entry => .complex (toPair entry).1 (toPair entry).2, List.map_map, fun entry member =>
        ⟨rfl, (Number.isZero_complex _ _).trans (isZeroPair_toPair (bounded entry member))⟩⟩
    · rename_i noComplex
      have real : ∀ entry ∈ entries, entry.isReal = true := by
        simpa using noComplex
      split
      · exact rounded real
      · rename_i values listed
        have integers := eq_of_mapM_asInteger? listed
        split
        · rename_i empty
          rw [List.isEmpty_iff.1 empty] at integers
          rw [integers] at rounded ⊢
          exact rounded (List.forall_mem_nil _)
        · split
          · exact integers ▸ same
          · split
            · exact integers ▸ same
            · exact rounded real

/-- Storing numbers keeps what is zero. -/
theorem zeros_ofNumbers (bounded : ∀ entry ∈ entries, entry.isBig = false) :
    (ofNumbers entries).toNumbers.map Number.isZero = entries.map Number.isZero := by
  obtain ⟨change, stored, kept⟩ := exists_keeps bounded
  rw [stored, List.map_map]
  exact List.map_congr_left fun entry member => (kept entry member).zero

/-- Storing numbers makes no big ones. -/
theorem bounded_ofNumbers (bounded : ∀ entry ∈ entries, entry.isBig = false) :
    ∀ entry ∈ (ofNumbers entries).toNumbers, entry.isBig = false := by
  obtain ⟨change, stored, kept⟩ := exists_keeps bounded
  rw [stored, List.forall_mem_map]
  exact fun entry member => (kept entry member).bounded

end Storing

section Degree

variable {entries others : List Number} {degree : Nat}

/-- The highest power with an entry other than zero, which is zero if there is none. -/
structure HasDegree (entries : List Number) (degree : Nat) : Prop where
  inside : degree < entries.length
  leading : 0 < degree → ∃ entry, entries[degree]? = some entry ∧ entry.isZero = false
  higher : ∀ entry ∈ entries.drop (degree + 1), entry.isZero = true

/-- A last entry other than zero is the degree. -/
theorem HasDegree.concat_nonzero {entry : Number} (nonzero : entry.isZero = false) :
    HasDegree (entries ++ [entry]) entries.length where
  inside := by
    rw [List.length_append]
    exact Nat.lt_succ_self _
  leading _ := ⟨entry, List.getElem?_concat_length, nonzero⟩
  higher := by
    rw [List.drop_of_length_le (by rw [List.length_append]; rfl)]
    exact List.forall_mem_nil _

/-- A zero at the end does not change the degree. -/
theorem HasDegree.concat_zero {entry : Number} (hasDegree : HasDegree entries degree)
    (zero : entry.isZero = true) : HasDegree (entries ++ [entry]) degree where
  inside := by
    rw [List.length_append]
    exact Nat.lt_add_right _ hasDegree.inside
  leading positive := by
    rw [List.getElem?_append_left hasDegree.inside]
    exact hasDegree.leading positive
  higher := by
    rw [List.drop_append_of_le_length hasDegree.inside, List.forall_mem_append, List.forall_mem_singleton]
    exact ⟨hasDegree.higher, zero⟩

/-- Every list with an entry has a degree. -/
theorem exists_hasDegree (entries : List Number) (any : entries ≠ []) : ∃ degree, HasDegree entries degree := by
  induction entries using List.reverseRecOn with
  | nil => exact (any rfl).elim
  | append_singleton entries entry hypothesis =>
      cases zero : entry.isZero with
      | false => exact ⟨_, HasDegree.concat_nonzero zero⟩
      | true =>
          rcases eq_or_ne entries [] with rfl | any
          · exact ⟨0, Nat.one_pos, fun absurd => (Nat.lt_irrefl 0 absurd).elim, List.forall_mem_nil _⟩
          · obtain ⟨degree, hasDegree⟩ := hypothesis any
            exact ⟨degree, hasDegree.concat_zero zero⟩

theorem HasDegree.le {degree' : Nat} (hasDegree : HasDegree entries degree)
    (hasDegree' : HasDegree entries degree') : degree' ≤ degree := by
  by_contra above
  obtain ⟨entry, held, nonzero⟩ := hasDegree'.leading (by omega)
  have later : entry ∈ entries.drop (degree + 1) := by
    refine List.mem_of_getElem? (i := degree' - (degree + 1)) ?_
    rw [List.getElem?_drop, Nat.add_sub_cancel' (by omega), held]
  cases nonzero.symm.trans (hasDegree.higher entry later)

/-- A list has at most one degree. -/
theorem HasDegree.unique {degree' : Nat} (hasDegree : HasDegree entries degree)
    (hasDegree' : HasDegree entries degree') : degree = degree' :=
  Nat.le_antisymm (hasDegree'.le hasDegree) (hasDegree.le hasDegree')

/-- The degree depends on nothing but which entries are zero. -/
theorem hasDegree_iff : HasDegree entries degree ↔ degree < (entries.map Number.isZero).length ∧
    (0 < degree → (entries.map Number.isZero)[degree]? = some false) ∧
      ∀ zero ∈ (entries.map Number.isZero).drop (degree + 1), zero = true := by
  rw [List.length_map, List.getElem?_map, Option.map_eq_some_iff, ← List.map_drop, List.forall_mem_map]
  exact ⟨fun ⟨inside, leading, higher⟩ => ⟨inside, leading, higher⟩,
    fun ⟨inside, leading, higher⟩ => ⟨inside, leading, higher⟩⟩

/-- Lists with zeros in the same places have the same degree. -/
theorem HasDegree.of_zeros (hasDegree : HasDegree entries degree)
    (same : others.map Number.isZero = entries.map Number.isZero) : HasDegree others degree := by
  rwa [hasDegree_iff, same, ← hasDegree_iff]

/-- Trimming keeps the entries up to the degree. -/
theorem trimEntries_eq_take (hasDegree : HasDegree entries degree) :
    trimEntries Number.isZero entries = entries.take (degree + 1) := by
  have dropped : entries.reverse.dropWhile Number.isZero =
      (entries.take (degree + 1)).reverse.dropWhile Number.isZero := by
    conv_lhs => rw [← List.take_append_drop (degree + 1) entries, List.reverse_append]
    rw [List.dropWhile_append_of_pos fun entry member => hasDegree.higher entry (List.mem_reverse.1 member)]
  unfold trimEntries
  rw [dropped]
  rcases Nat.eq_zero_or_pos degree with rfl | positive
  -- The first entry stays, also when it is the zero that was just dropped.
  · obtain ⟨first, rest, rfl⟩ := List.exists_cons_of_length_pos hasDegree.inside
    cases zero : first.isZero <;> simp [zero]
  · obtain ⟨entry, held, nonzero⟩ := hasDegree.leading positive
    have lower : entries.take (degree + 1) = entries.take degree ++ [entry] := by
      rw [List.take_add_one, held, Option.toList_some]
    rw [lower, List.reverse_concat, List.dropWhile_cons_of_neg (by rw [nonzero]; exact Bool.false_ne_true),
      List.reverse_cons, List.reverse_reverse]
    split
    · rename_i absurd
      exact (List.append_ne_nil_of_right_ne_nil _ (List.cons_ne_nil _ _) absurd).elim
    · rfl

section Trimming

variable {A B : Type}

/-- Trimming commutes with every conversion. -/
theorem trimEntries_map (isZero : A → Bool) (change : B → A) (entries : List B) :
    trimEntries isZero (entries.map change) = (trimEntries (isZero ∘ change) entries).map change := by
  unfold trimEntries
  rw [← List.map_reverse, List.dropWhile_map, ← List.map_reverse]
  cases (entries.reverse.dropWhile (isZero ∘ change)).reverse with
  | nil => exact List.map_take.symm
  | cons => rfl

/-- Every form of storage is trimmed as the numbers that it stands for. -/
theorem toNumbers_trim (vector : DenseVector) :
    vector.trim.toNumbers = trimEntries Number.isZero vector.toNumbers := by
  cases vector with
  | reals entries =>
      have zeros : Number.isZero ∘ Number.real = (· == 0.0) := funext Number.isZero_real
      rw [toNumbers, trimEntries_map, zeros]
      rfl
  | complexes entries =>
      have zeros : (Number.isZero ∘ fun pair => Number.complex pair.1 pair.2) = isZeroPair :=
        funext fun pair => Number.isZero_complex pair.1 pair.2
      rw [toNumbers, trimEntries_map, zeros]
      rfl
  | signedWords entries => exact (trimEntries_map Number.isZero Number.integer entries).symm
  | unsignedWords entries => exact (trimEntries_map Number.isZero Number.integer entries).symm
  | numbers entries => rfl

end Trimming

end Degree

end DenseVector

end TrigAlgebra
