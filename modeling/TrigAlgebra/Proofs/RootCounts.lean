/-
This file proves that as many roots are found as the degree of the coefficients says, and that what is
divided by on the way is never zero.
-/

import TrigAlgebra.Proofs.ArithmeticFaults
import TrigAlgebra.Proofs.CompanionMatrix
import TrigAlgebra.Proofs.LinearRoots
import TrigAlgebra.Proofs.ZeroEntries

namespace TrigAlgebra

open Binary64

namespace Eigenvalues

/-- A shift changes no number of rows. -/
theorem length_addDiagonal (amount : BigComplex) (rows : List Row) :
    (addDiagonal amount rows).length = rows.length := by
  rw [addDiagonal, List.length_map, List.length_zipIdx]

/-- Elimination changes no number of rows. -/
theorem length_eliminate (column : Nat) (top : Row) (others : List Row) :
    (eliminate column top others).2.length = others.length + 1 := by
  induction others generalizing column top with
  | nil => rfl
  | cons next others hypothesis => exact congrArg (· + 1) (hypothesis _ _)

/-- A sweep changes no number of rows. -/
theorem length_sweep (shift : BigComplex) (rows : List Row) : (sweep shift rows).length = rows.length := by
  have kept := length_addDiagonal shift.neg rows
  unfold sweep
  split
  · rename_i empty
    rw [← kept, empty]
  · rename_i top others shifted
    rw [length_addDiagonal, List.length_map, length_eliminate, ← kept, shifted]
    rfl

/-- A matrix is split and swept, and each of its rows gives one eigenvalue in the end. -/
theorem length_iterate (scale : BigFloat) (fuel : Nat) (rows : List Row) :
    (iterate scale fuel rows).length = rows.length := by
  induction fuel generalizing rows with
  | zero => rw [iterate, List.length_map, List.length_zipIdx]
  | succ fuel hypothesis =>
      unfold iterate
      split
      · rfl
      · rfl
      · split
        · rw [List.length_append, hypothesis, hypothesis, List.length_map, List.length_map, ← List.length_append,
            List.take_append_drop]
        · rw [hypothesis, length_sweep]

/-- There is one eigenvalue for every row. -/
theorem length_ofRows (rows : List Row) : (ofRows rows).length = rows.length := by
  induction count : rows.length generalizing rows with
  | zero => rw [List.eq_nil_of_length_eq_zero count, ofRows, List.length_nil]
  | succ count hypothesis =>
      obtain ⟨top, others, rfl⟩ := List.exists_cons_of_length_eq_add_one count
      rw [List.length_cons, Nat.add_right_cancel_iff] at count
      rw [ofRows]
      split
      · rw [List.length_cons, hypothesis _ ((List.length_map _).trans count)]
      · rw [ofUnreduced, length_iterate, List.length_cons, count]

end Eigenvalues

namespace SimultaneousRoots

variable {places : Int} {coefficients roots : List BigComplex}

/-- A sweep changes no number of roots. -/
theorem length_sweep (precision : Nat) (coefficients : List BigComplex)
    (corrected : List (BigComplex × BigFloat)) (rest : List BigComplex) :
    (sweep precision coefficients corrected rest).length = corrected.length + rest.length := by
  induction rest generalizing corrected with
  | nil => rfl
  | cons root rest hypothesis =>
      rw [sweep, hypothesis, List.length_append, List.length_singleton, List.length_cons]
      omega

/-- However many sweeps are made, there are as many roots as at the start. -/
theorem length_iterate (precision : Nat) (tolerance : BigFloat) (coefficients : List BigComplex) (fuel : Nat)
    (roots : List BigComplex) (size : BigFloat) :
    (iterate precision tolerance coefficients fuel roots size).1.length = roots.length := by
  induction fuel generalizing roots size with
  | zero => rfl
  | succ fuel hypothesis =>
      unfold iterate
      split
      · rfl
      · rw [hypothesis, List.length_map, length_sweep]
        exact Nat.zero_add _

/-- There is one start for every root. -/
theorem length_starts {count : Nat} (returned : starts count = .ok roots) : roots.length = count := by
  rw [length_of_mapM returned, List.length_range]

theorem length_monic {precision : Nat} {leading : BigComplex} {result : List BigComplex}
    (returned : monic precision leading coefficients = .ok result) : result.length = coefficients.length := by
  unfold monic at returned
  split at returned
  · cases returned
  · split at returned
    · cases returned
      rfl
    · split at returned <;>
      · cases returned
        rw [List.length_map]

/-- There are as many roots as coefficients below the leading one. -/
theorem length_of_find (returned : find places coefficients = .ok roots) :
    coefficients.length = roots.length + 1 := by
  unfold find at returned
  dsimp only at returned
  split at returned
  · cases returned
  · split at returned
    · cases returned
    · cases returned
      rfl
  · obtain ⟨scaled, isScaled, returned⟩ := bind_eq_ok.1 returned
    obtain ⟨first, started, returned⟩ := bind_eq_ok.1 returned
    split at returned
    · cases returned
    · rw [pure_eq_ok] at returned
      have counted := length_starts started
      rw [length_monic isScaled] at counted
      rw [← returned, List.length_map, length_iterate, counted]
      rfl

end SimultaneousRoots

namespace Number

variable {first second : Number} {kind : Kind}

/-- Smith's method has a divisor unless both parts of the second number are zero. -/
theorem exists_complexQuotient (first : Float × Float) {second : Float × Float}
    (nonzero : DenseVector.isZeroPair second = false) :
    ∃ quotient, complexQuotient first second = .ok quotient := by
  obtain ⟨re, im⟩ := second
  unfold complexQuotient
  dsimp only
  split
  · rename_i order
    split
    · rename_i zero
      rw [abs_beq_zero] at zero
      rw [DenseVector.isZeroPair, zero, beq_zero_of_abs_le order zero] at nonzero
      cases nonzero
    · exact ⟨_, rfl⟩
  · split <;> exact ⟨_, rfl⟩

theorem floatOfInt_ne_divisionByZero (value : Int) : floatOfInt value ≠ .error (.divisionByZero kind) := by
  intro failed
  cases (floatOfInt_eq_error.1 failed).2

/-- Rounding does not divide by zero. -/
theorem toFloat_ne_divisionByZero (number : Number) : number.toFloat ≠ .error (.divisionByZero kind) := by
  cases number with
  | integer value => exact floatOfInt_ne_divisionByZero value
  | _ => exact nofun

/-- Conversion does not divide by zero. -/
theorem toComplex_ne_divisionByZero (number : Number) : number.toComplex ≠ .error (.divisionByZero kind) := by
  cases number with
  | integer value => exact map_eq_error.not.2 (floatOfInt_ne_divisionByZero value)
  | _ => exact nofun

theorem beq_zero_of_toFloat {value : Float} (bounded : first.isBig = false)
    (returned : first.toFloat = .ok value) : (value == 0.0) = first.isZero := by
  have pair : first.toComplex = .ok (value, 0.0) := by
    cases first with
    | integer number => exact map_eq_ok.2 ⟨value, returned, rfl⟩
    | real number =>
        cases returned
        rfl
    | complex => cases returned
    | bigReal => cases bounded
    | bigComplex => cases bounded
  rw [← DenseVector.isZeroPair_of_toComplex bounded pair, DenseVector.isZeroPair_real]

/-- A number of a bounded kind that is not zero stays a divisor when it is rounded. -/
theorem mixed_ne_divisionByZero (bounded : first.isBig = false) (bounded' : second.isBig = false)
    (nonzero : second.isZero = false) : division.mixed first second ≠ .error (.divisionByZero kind) := by
  unfold Operation.mixed
  rw [bounded, bounded', Bool.or_self, if_neg Bool.false_ne_true]
  split
  · refine bind_ne_error (toFloat_ne_divisionByZero first) fun dividend _ => ?_
    refine bind_ne_error (toFloat_ne_divisionByZero second) fun divisor converted => ?_
    refine bind_ne_error ?_ fun _ _ => pure_ne_error
    have notZero := (beq_zero_of_toFloat bounded' converted).trans nonzero
    change (if divisor == 0.0 then _ else Except.ok (dividend / divisor)) ≠ _
    rw [notZero, if_neg Bool.false_ne_true]
    exact nofun
  · refine bind_ne_error (toComplex_ne_divisionByZero first) fun dividend _ => ?_
    refine bind_ne_error (toComplex_ne_divisionByZero second) fun divisor converted => ?_
    refine bind_ne_error ?_ fun _ _ => pure_ne_error
    have notZero := (DenseVector.isZeroPair_of_toComplex bounded' converted).trans nonzero
    obtain ⟨quotient, returned⟩ := exists_complexQuotient dividend notZero
    exact fun failed => nomatch returned.symm.trans failed

/-- Division fails for a zero divisor only. -/
theorem div_ne_divisionByZero (bounded : first.isBig = false) (bounded' : second.isBig = false)
    (nonzero : second.isZero = false) : Number.div first second ≠ .error (.divisionByZero kind) := by
  unfold Number.div
  split
  · rename_i value divisor
    change (divisor == 0) = false at nonzero
    apply map_eq_error.not.2
    unfold integerQuotient
    dsimp only
    rw [nonzero, if_neg Bool.false_ne_true]
    split <;> exact nofun
  · exact mixed_ne_divisionByZero bounded bounded' nonzero

end Number

namespace SimultaneousRoots

variable {kind : Kind}

theorem starts_ne_divisionByZero (count : Nat) : starts count ≠ .error (.divisionByZero kind) := by
  intro failed
  obtain ⟨exponent, -, fails⟩ := mapM_eq_error failed
  refine bind_ne_error ?_ (fun _ _ => pure_ne_error) fails
  refine bind_ne_error (Number.floatOfInt_ne_divisionByZero _) fun _ _ => ?_
  dsimp only
  split <;> split <;> exact nofun

/-- Coefficients with a leading one other than zero are scaled to a leading one. -/
theorem exists_monic (precision : Nat) {leading : BigComplex} (nonzero : leading.isZero = false)
    (coefficients : List BigComplex) : ∃ result, monic precision leading coefficients = .ok result := by
  unfold monic
  rw [nonzero, if_neg Bool.false_ne_true]
  split
  · exact ⟨_, rfl⟩
  · split <;> exact ⟨_, rfl⟩

/-- With a leading coefficient other than zero nothing is divided by zero. -/
theorem find_ne_divisionByZero (places : Int) {leading : BigComplex} (nonzero : leading.isZero = false)
    (lower : List BigComplex) : find places (leading :: lower) ≠ .error (.divisionByZero kind) := by
  unfold find
  dsimp only
  split
  · exact nofun
  · split <;> exact nofun
  · rename_i highest rest _ same
    cases same
    obtain ⟨scaled, returned⟩ := exists_monic (3 * binaryDigits places) nonzero (leading :: lower)
    rw [returned]
    refine bind_ne_error nofun fun _ _ => bind_ne_error (starts_ne_divisionByZero _) fun _ _ => ?_
    split <;> exact nofun

end SimultaneousRoots

namespace DenseVector

section Companion

variable {leading : Float × Float}

/-- A divisor other than zero always gives a quotient. -/
theorem div_complex (dividend : Float × Float) (nonzero : isZeroPair leading = false) : ∃ quotient,
    Coefficient.div (Coefficient.neg (Number.complex dividend.1 dividend.2))
      (Number.complex leading.1 leading.2) = .ok quotient ∧ ∃ pair, quotient.toComplex = .ok pair := by
  obtain ⟨quotient, returned⟩ := Number.exists_complexQuotient (-dividend.1, -dividend.2) nonzero
  refine ⟨.complex quotient.1 quotient.2, ?_, quotient, rfl⟩
  change Number.complexQuotient (-dividend.1, -dividend.2) leading >>= _ = _
  rw [returned]
  rfl

/-- The entries off the last column are zeros and ones. -/
theorem exists_toComplex_entry {column : List Number}
    (convertible : ∀ number ∈ column, ∃ pair, number.toComplex = .ok pair) (row col : Nat) :
    ∃ pair, (Companion.entry column row col).toComplex = .ok pair := by
  unfold Companion.entry
  split
  · rw [List.getD_eq_getElem?_getD]
    cases held : column[row]? with
    | none => exact ⟨_, rfl⟩
    | some number => exact convertible number (List.mem_of_getElem? held)
  · split <;> exact ⟨_, rfl⟩

/-- The last column of the companion matrix is always computed. -/
theorem exists_lastColumn (lower : List (Float × Float)) (nonzero : isZeroPair leading = false) :
    ∃ column, Companion.lastColumn ((lower ++ [leading]).map fun pair => Number.complex pair.1 pair.2) =
      .ok column ∧ column.length = lower.length ∧ ∀ number ∈ column, ∃ pair, number.toComplex = .ok pair := by
  have each : ∀ number ∈ lower.map fun pair => Number.complex pair.1 pair.2, ∃ quotient,
      Coefficient.div (Coefficient.neg number) (Number.complex leading.1 leading.2) = .ok quotient ∧
        ∃ pair, quotient.toComplex = .ok pair :=
    List.forall_mem_map.2 fun pair _ => div_complex pair nonzero
  obtain ⟨column, divided, -⟩ := exists_mapM_eq_ok each
  refine ⟨column, ?_, (length_of_mapM divided).trans (List.length_map _), fun quotient member => ?_⟩
  · unfold Companion.lastColumn
    rw [List.map_append, List.map_singleton, List.reverse_concat]
    dsimp only
    rw [List.reverse_reverse]
    exact divided
  · obtain ⟨number, isLower, returned⟩ := exists_of_mem_mapM divided member
    obtain ⟨other, returned', convertible⟩ := each number isLower
    cases returned.symm.trans returned'
    exact convertible

/-- With a leading coefficient other than zero there is a companion matrix, with one row and one column for
each lower coefficient. -/
theorem exists_companion (lower : List (Float × Float)) (nonzero : isZeroPair leading = false) :
    ∃ matrix, companion (lower ++ [leading]) = .ok matrix ∧ matrix.length = lower.length ∧
      ∀ row ∈ matrix, row.length = lower.length := by
  obtain ⟨column, divided, length, convertible⟩ := exists_lastColumn lower nonzero
  obtain ⟨tall, wide⟩ := Companion.length_rows column
  have each : ∀ row ∈ Companion.rows column, ∃ pairs, row.mapM Number.toComplex = .ok pairs := by
    unfold Companion.rows
    rw [List.forall_mem_map]
    intro row _
    rw [mapM_returns_iff, List.forall_mem_map]
    exact fun col _ => exists_toComplex_entry convertible row col
  obtain ⟨matrix, converted⟩ := mapM_returns_iff.2 each
  refine ⟨matrix, ?_, (length_of_mapM converted).trans (tall.trans length), fun pairs member => ?_⟩
  · unfold companion Companion.matrix
    dsimp only
    rw [divided]
    exact converted
  · obtain ⟨row, isRow, returned⟩ := exists_of_mem_mapM converted member
    rw [length_of_mapM returned, wide row isRow, length]

/-- There are as many roots as the matrix has rows. -/
theorem length_eigenvalues {matrix : List (List (Float × Float))} {found : List Root}
    (returned : eigenvalues matrix = .ok found) : found.length = matrix.length := by
  unfold eigenvalues at returned
  split at returned
  · split at returned
    · cases returned
      rfl
    · cases returned
      rw [List.length_map, Eigenvalues.length_ofRows, List.length_map]
  · cases returned

end Companion

section Trimmed

variable {vector : DenseVector} {degree : Nat}

/-- Trimming leaves the entries up to the degree. -/
theorem HasDegree.toNumbers_trim (hasDegree : HasDegree vector.toNumbers degree) :
    vector.trim.toNumbers = vector.toNumbers.take (degree + 1) :=
  (DenseVector.toNumbers_trim vector).trans (trimEntries_eq_take hasDegree)

/-- Trimming leaves one entry more than the degree. -/
theorem HasDegree.length_trim (hasDegree : HasDegree vector.toNumbers degree) :
    vector.trim.toNumbers.length = degree + 1 := by
  rw [hasDegree.toNumbers_trim, List.length_take, min_eq_left hasDegree.inside]

/-- The last entry that is left is not zero. -/
theorem HasDegree.leading_trim (hasDegree : HasDegree vector.toNumbers degree) (positive : 0 < degree) :
    ∃ leading, vector.trim.toNumbers[degree]? = some leading ∧ leading.isZero = false := by
  rw [hasDegree.toNumbers_trim, List.getElem?_take_of_lt (Nat.lt_succ_self degree)]
  exact hasDegree.leading positive

theorem HasDegree.bounded_trim (hasDegree : HasDegree vector.toNumbers degree)
    (bounded : ∀ entry ∈ vector.toNumbers, entry.isBig = false) :
    ∀ entry ∈ vector.trim.toNumbers, entry.isBig = false := by
  rw [hasDegree.toNumbers_trim]
  exact fun entry member => bounded entry (List.mem_of_mem_take member)

end Trimmed

/-- How the roots of trimmed coefficients are found, with the notes and the outcome: a constant has none, a
linear polynomial has a quotient, and from the second degree on they are eigenvalues of a square matrix of
this size, or found at once with more digits. The leading coefficient, by which each way divides, is not zero. -/
inductive Way (trimmed : DenseVector) : (precise : Bool) → (degree : Nat) → Traced (List Root) → Prop
  | constant {precise : Bool} : Way trimmed precise 0 ⟨[], .ok []⟩
  | linear {precise : Bool} {constant slope : Number} (entries : trimmed.toNumbers = [constant, slope])
      (nonzero : slope.isZero = false) (rounded : isZeroPair (toPair slope) = false) :
      Way trimmed precise 1 ⟨[], trimmed.linearRoot⟩
  | matrix {degree : Nat} (several : 2 ≤ degree)
      (square : ∀ pairs, trimmed.toComplexes = .ok pairs → ∃ leading rows, pairs[degree]? = some leading ∧
        isZeroPair leading = false ∧ companion pairs = .ok rows ∧ rows.length = degree ∧
          ∀ row ∈ rows, row.length = degree) :
      Way trimmed false degree ⟨["Finding " ++ toString degree ++ " roots " ++ "from the companion matrix"], do
        eigenvalues (← companion (← trimmed.toComplexes))⟩
  | precise {degree : Nat} {lower : List Number} {leading : Number} (several : 2 ≤ degree)
      (entries : trimmed.toNumbers = lower ++ [leading]) (count : lower.length = degree)
      (nonzero : leading.isZero = false) :
      Way trimmed true degree ⟨["Finding " ++ toString degree ++ " roots " ++ "with mpmath"],
        trimmed.preciseRoots none⟩

section Ways

variable {vector trimmed : DenseVector} {precise : Bool} {degree : Nat} {result : Traced (List Root)}

/-- A list is parted before its last entry. -/
theorem exists_lower {A : Type} {entries : List A} {last : A} (count : entries.length = degree + 1)
    (held : entries[degree]? = some last) : ∃ lower, entries = lower ++ [last] ∧ lower.length = degree := by
  refine ⟨entries.take degree, ?_, ?_⟩
  · have whole := List.take_add_one (l := entries) (i := degree)
    rw [held, ← count, List.take_length] at whole
    exact whole
  · rw [List.length_take, count]
    omega

/-- Rounding the coefficients keeps the leading one, and it is still not zero. -/
theorem square_of_toComplexes {lower : List Number} {leading : Number} (bounded : leading.isBig = false)
    (entries : trimmed.toNumbers = lower ++ [leading]) (count : lower.length = degree)
    (nonzero : leading.isZero = false) {pairs : List (Float × Float)}
    (converted : trimmed.toComplexes = .ok pairs) :
    ∃ leading rows, pairs[degree]? = some leading ∧ isZeroPair leading = false ∧ companion pairs = .ok rows ∧
      rows.length = degree ∧ ∀ row ∈ rows, row.length = degree := by
  unfold toComplexes at converted
  rw [entries, List.mapM_append, bind_eq_ok] at converted
  obtain ⟨rounded, isLower, last⟩ := converted
  rw [List.mapM_cons, List.mapM_nil] at last
  obtain ⟨ending, isEnding, last⟩ := bind_eq_ok.1 last
  obtain ⟨pair, isLeading, last'⟩ := bind_eq_ok.1 isEnding
  cases last'
  cases last
  have length : rounded.length = degree := (length_of_mapM isLower).trans count
  have notZero := (isZeroPair_of_toComplex bounded isLeading).trans nonzero
  obtain ⟨rows, built, square⟩ := exists_companion rounded notZero
  rw [length] at square
  refine ⟨pair, rows, ?_, notZero, built, square⟩
  rw [← length]
  exact List.getElem?_concat_length

/-- The branch for the degree finds as many roots as the degree says. -/
theorem way_roots (bounded : ∀ entry ∈ vector.toNumbers, entry.isBig = false)
    (hasDegree : HasDegree vector.toNumbers degree) (precise : Bool) :
    Way vector.trim precise degree (vector.roots precise) := by
  have length := hasDegree.length_trim
  have highest : vector.trim.length - 1 = degree := by
    rw [DenseVector.length, length, Nat.add_sub_cancel]
  unfold roots
  dsimp only
  rw [highest]
  rcases Nat.eq_zero_or_pos degree with rfl | positive
  · exact .constant
  obtain ⟨leading, held, nonzero⟩ := hasDegree.leading_trim positive
  obtain ⟨lower, entries, count⟩ := exists_lower length held
  have notBig := hasDegree.bounded_trim bounded leading (List.mem_of_getElem? held)
  rw [if_neg (by omega)]
  split
  · rename_i one
    subst one
    obtain ⟨constant, rfl⟩ := List.length_eq_one_iff.1 count
    exact .linear entries nonzero ((isZeroPair_toPair notBig).trans nonzero)
  · cases precise with
    | false =>
        exact .matrix (by omega) fun pairs => square_of_toComplexes notBig entries count nonzero
    | true => exact .precise (by omega) entries count nonzero

/-- Two coefficients have one root, unless their quotient fails as one of numbers. -/
theorem linearRoot_eq {constant slope : Number} (entries : trimmed.toNumbers = [constant, slope]) :
    (∃ root, trimmed.linearRoot = .ok [root]) ∨
      trimmed.linearRoot = do return [← (← Number.div constant.neg slope).toComplex] := by
  have two {A : Type} {change : A → Number} {list : List A} (same : list.map change = [constant, slope]) :
      ∃ first second, list = [first, second] := by
    rw [← List.length_eq_two, ← List.length_map change, same]
    rfl
  cases trimmed with
  | numbers list =>
      cases entries
      exact .inr rfl
  | _ =>
      obtain ⟨first, second, rfl⟩ := two entries
      exact .inl ⟨_, rfl⟩

/-- There is one root less than entries. -/
theorem length_preciseRoots {found : List Root} (returned : trimmed.preciseRoots none = .ok found) :
    trimmed.toNumbers.length = found.length + 1 := by
  obtain ⟨roots, isFound, same⟩ := bind_eq_ok.1 returned
  rw [pure_eq_ok] at same
  have counted := SimultaneousRoots.length_of_find isFound
  rwa [List.length_map, List.length_reverse, ← List.length_map toRoot, same] at counted

/-- As many roots are found as the degree says. -/
theorem Way.length_eq (way : Way trimmed precise degree result) {found : List Root}
    (returned : result.outcome = .ok found) : found.length = degree := by
  cases way with
  | constant =>
      cases returned
      rfl
  | linear entries nonzero rounded =>
      change trimmed.linearRoot = .ok found at returned
      rcases linearRoot_eq entries with ⟨root, single⟩ | quotient
      · cases single.symm.trans returned
        rfl
      · obtain ⟨root, -, returned⟩ := bind_eq_ok.1 (quotient.symm.trans returned)
        obtain ⟨pair, -, same⟩ := bind_eq_ok.1 returned
        cases same
        rfl
  | matrix several square =>
      obtain ⟨pairs, converted, returned⟩ := bind_eq_ok.1 returned
      obtain ⟨rows, built, returned⟩ := bind_eq_ok.1 returned
      obtain ⟨leading, rows', -, -, built', count, -⟩ := square pairs converted
      cases built.symm.trans built'
      rw [length_eigenvalues returned, count]
  | precise several entries count nonzero =>
      have length := length_preciseRoots returned
      rw [entries, List.length_append, count] at length
      exact (Nat.add_right_cancel length).symm

/-- No way of finding roots divides by zero. -/
theorem Way.ne_divisionByZero (way : Way trimmed precise degree result)
    (bounded : ∀ entry ∈ trimmed.toNumbers, entry.isBig = false) (kind : Kind) :
    result.outcome ≠ .error (.divisionByZero kind) := by
  cases way with
  | constant => exact nofun
  | linear entries nonzero rounded =>
      rename_i constant slope
      rw [entries, List.forall_mem_cons, List.forall_mem_singleton] at bounded
      have negated : constant.neg.isBig = false := by
        cases constant <;> first | rfl | cases bounded.1
      change trimmed.linearRoot ≠ _
      rcases linearRoot_eq entries with ⟨root, single⟩ | quotient
      · exact fun failed => nomatch single.symm.trans failed
      · rw [quotient]
        refine bind_ne_error (Number.div_ne_divisionByZero negated bounded.2 nonzero) fun root _ => ?_
        exact bind_ne_error (Number.toComplex_ne_divisionByZero root) fun _ _ => pure_ne_error
  -- An integer can be too large to be rounded, and rounded entries can be infinite.
  | matrix several square =>
      refine bind_ne_error (fun failed => ?_) fun pairs converted => ?_
      · obtain ⟨number, -, fails⟩ := mapM_eq_error failed
        exact Number.toComplex_ne_divisionByZero number fails
      · obtain ⟨leading, rows, -, -, built, -⟩ := square pairs converted
        rw [built]
        refine bind_ne_error nofun fun matrix _ => ?_
        unfold eigenvalues
        split
        · split <;> exact nofun
        · exact nofun
  | precise several entries count nonzero =>
      rename_i lower leading
      change trimmed.preciseRoots none ≠ _
      unfold preciseRoots
      rw [entries, List.reverse_concat, List.map_cons]
      have notZero := (Number.isZero_eq leading).symm.trans nonzero
      exact bind_ne_error (SimultaneousRoots.find_ne_divisionByZero _ notZero _) fun _ _ => pure_ne_error

end Ways

end DenseVector

namespace Polynomial

open DenseVector

section Slots

variable {K : Type} [Coefficient K]

/-- Every slot holds a coefficient, or the zero that it held before. -/
theorem mem_denseSlots {polynomial : Polynomial K} {entry : K} (member : entry ∈ polynomial.denseSlots) :
    entry = Coefficient.zero ∨ ∃ item ∈ polynomial.monomials, item.coefficient = entry := by
  have written (monomials : List (Monomial K)) (slots : List K) (member : entry ∈ monomials.foldl
      (fun slots item => slots.set item.powers.leadingPower item.coefficient) slots) :
        entry ∈ slots ∨ ∃ item ∈ monomials, item.coefficient = entry := by
    induction monomials generalizing slots with
    | nil => exact .inl member
    | cons head rest hypothesis =>
        rcases hypothesis _ member with before | ⟨item, inRest, same⟩
        · rcases List.mem_or_eq_of_mem_set before with old | new
          · exact .inl old
          · exact .inr ⟨head, List.mem_cons_self, new.symm⟩
        · exact .inr ⟨item, List.mem_cons_of_mem _ inRest, same⟩
  exact (written _ _ member).imp_left List.eq_of_mem_replicate

end Slots

variable {polynomial : Polynomial Number}

/-- Slots are no bigger than the coefficients. -/
theorem bounded_denseSlots (bounded : ∀ item ∈ polynomial.monomials, item.coefficient.isBig = false) :
    ∀ entry ∈ polynomial.denseSlots, entry.isBig = false := by
  intro entry member
  rcases mem_denseSlots member with rfl | ⟨item, isItem, rfl⟩
  · rfl
  · exact bounded item isItem

/-- The stored coefficients of a polynomial in one variable have zeros where the listed ones have them.
Trimming keeps those up to the highest power whose coefficient is not zero, and this power alone decides how
the roots are found, how many there are and that no division is one by zero. -/
theorem roots_by_degree (polynomial : Polynomial Number) (univariate : polynomial.univariate = true)
    (bounded : ∀ item ∈ polynomial.monomials, item.coefficient.isBig = false) (precise : Bool) :
    ∃ slots vector degree, (polynomial.dense = .ok slots ∧ polynomial.coefficients = .ok vector ∧
        vector.toNumbers.map Number.isZero = slots.map Number.isZero) ∧
      (HasDegree slots degree ∧ HasDegree vector.toNumbers degree) ∧
      (vector.trim.toNumbers = vector.toNumbers.take (degree + 1) ∧
        vector.trim.toNumbers.length = degree + 1 ∧
          (0 < degree → ∃ leading, vector.trim.toNumbers[degree]? = some leading ∧ leading.isZero = false)) ∧
      Way vector.trim precise degree (polynomial.roots precise) ∧
      (∀ found, (polynomial.roots precise).outcome = .ok found → found.length = degree) ∧
      ∀ kind, (polynomial.roots precise).outcome ≠ .error (.divisionByZero kind) := by
  have stored := coefficients_of_univariate univariate
  have notBig := bounded_denseSlots bounded
  have zeros := zeros_ofNumbers notBig
  have any : polynomial.denseSlots ≠ [] := by
    apply List.ne_nil_of_length_pos
    rw [length_denseSlots]
    exact Nat.succ_pos _
  obtain ⟨degree, ofSlots⟩ := exists_hasDegree polynomial.denseSlots any
  have hasDegree := ofSlots.of_zeros zeros
  have way := way_roots (bounded_ofNumbers notBig) hasDegree precise
  refine ⟨_, _, degree, ⟨dense_of_univariate univariate, stored, zeros⟩, ⟨ofSlots, hasDegree⟩,
    ⟨hasDegree.toNumbers_trim, hasDegree.length_trim, hasDegree.leading_trim⟩, ?_⟩
  rw [roots_eq univariate stored]
  exact ⟨way, fun _ => way.length_eq, way.ne_divisionByZero (hasDegree.bounded_trim (bounded_ofNumbers notBig))⟩

/-- The coefficients of the three highest powers are zero, two of them for want of a monomial. -/
def paddedSquare : Polynomial Number :=
  ⟨[⟨.integer 3, .power 2 2⟩, ⟨.integer 0, .power 2 5⟩, ⟨.real (-2.5), .one⟩], true⟩

theorem roots_by_degree_paddedSquare : paddedSquare.univariate = true ∧
    (∀ item ∈ paddedSquare.monomials, item.coefficient.isBig = false) ∧
      ∃ vector, paddedSquare.coefficients = .ok vector ∧ vector.trim.toNumbers.length = 3 ∧
        Way vector.trim false 2 (paddedSquare.roots false) ∧
        ∀ found, (paddedSquare.roots false).outcome = .ok found → found.length = 2 := by
  have bounded : ∀ item ∈ paddedSquare.monomials, item.coefficient.isBig = false := by
    rw [paddedSquare, List.forall_mem_cons, List.forall_mem_cons, List.forall_mem_singleton]
    exact ⟨rfl, rfl, rfl⟩
  obtain ⟨slots, vector, degree, ⟨listed, stored, -⟩, ⟨ofSlots, -⟩, ⟨-, length, -⟩, way, counted, -⟩ :=
    roots_by_degree paddedSquare rfl bounded false
  have same : paddedSquare.dense =
      .ok [.real (-2.5), .real 0.0, .integer 3, .real 0.0, .real 0.0, .integer 0] := rfl
  obtain rfl := Except.ok.inj (same.symm.trans listed)
  have square : HasDegree [.real (-2.5), .real 0.0, .integer 3, .real 0.0, .real 0.0, .integer 0] 2 := by
    refine ⟨by decide, fun _ => ⟨.integer 3, rfl, rfl⟩, ?_⟩
    rw [List.drop_succ_cons, List.drop_succ_cons, List.drop_succ_cons, List.drop_zero, List.forall_mem_cons,
      List.forall_mem_cons, List.forall_mem_singleton]
    exact ⟨rfl, rfl, rfl⟩
  obtain rfl := ofSlots.unique square
  exact ⟨rfl, bounded, vector, stored, length, way, counted⟩

end Polynomial

end TrigAlgebra
