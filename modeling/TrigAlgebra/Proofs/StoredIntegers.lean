/-
This file says what the list of coefficients of a polynomial in one variable holds, power by power, and
in which form a list of integers is stored.
-/

import TrigAlgebra.Proofs.DenseEvaluation
import TrigAlgebra.Proofs.MachineWords

namespace TrigAlgebra

namespace Polynomial

section Slots

variable {K : Type} {monomials : List (Monomial K)} {slots : List K} {index : Nat}

/-- The coefficient of the first monomial with a power of the variable. -/
def coefficientOf? (polynomial : Polynomial K) (power : Nat) : Option K :=
  (polynomial.monomials.find? fun item => item.powers.leadingPower == power).map Monomial.coefficient

/-- Writing other slots keeps a slot. -/
theorem getElem?_foldl_set_of_ne (other : ∀ item ∈ monomials, item.powers.leadingPower ≠ index) :
    (monomials.foldl (fun slots item => slots.set item.powers.leadingPower item.coefficient) slots)[index]? =
      slots[index]? := by
  induction monomials generalizing slots with
  | nil => rfl
  | cons head rest hypothesis =>
      rw [List.forall_mem_cons] at other
      rw [List.foldl_cons, hypothesis other.2, List.getElem?_set_ne other.1]

/-- A slot holds what the monomial of its power has written, or what it held before. -/
theorem getElem?_foldl_set (distinct : (monomials.map fun item => item.powers.leadingPower).Nodup)
    (inside : index < slots.length) :
    (monomials.foldl (fun slots item => slots.set item.powers.leadingPower item.coefficient) slots)[index]? =
      ((monomials.find? fun item => item.powers.leadingPower == index).map Monomial.coefficient).or
        slots[index]? := by
  induction monomials generalizing slots with
  | nil => rfl
  | cons head rest hypothesis =>
      rw [List.map_cons, List.nodup_cons] at distinct
      rw [List.foldl_cons, List.find?_cons]
      by_cases written : head.powers.leadingPower = index
      · have other : ∀ item ∈ rest, item.powers.leadingPower ≠ index := fun item member same =>
          distinct.1 (List.mem_map.2 ⟨item, member, same.trans written.symm⟩)
        rw [getElem?_foldl_set_of_ne other, beq_iff_eq.2 written, written, List.getElem?_set_self inside]
        rfl
      · rw [hypothesis distinct.2 (by rwa [List.length_set]), List.getElem?_set_ne written,
          beq_eq_false_iff_ne.2 written]

/-- The list has one slot for each power up to the degree, with the coefficient of the power or zero. -/
theorem denseSlots_eq [Coefficient K] {polynomial : Polynomial K} {single : Int}
    (distinct : polynomial.Distinct) (powers : polynomial.InVariable single) :
    polynomial.denseSlots = (List.range (polynomial.degree + 1)).map fun power =>
      (polynomial.coefficientOf? power).getD Coefficient.zero := by
  apply List.ext_getElem?
  intro index
  rw [List.getElem?_map]
  by_cases inside : index < polynomial.degree + 1
  · have start : index < (List.replicate (polynomial.degree + 1) (Coefficient.zero : K)).length := by
      rwa [List.length_replicate]
    rw [denseSlots, getElem?_foldl_set (nodup_leadingPowers distinct powers) start,
      List.getElem?_replicate, if_pos inside, List.getElem?_range inside]
    change (polynomial.coefficientOf? index).or _ = some ((polynomial.coefficientOf? index).getD _)
    cases polynomial.coefficientOf? index <;> rfl
  · rw [List.getElem?_eq_none (by rw [length_denseSlots]; omega),
      List.getElem?_eq_none (by rw [List.length_range]; omega)]
    rfl

/-- Every monomial has its coefficient found. -/
theorem coefficientOf?_isSome {polynomial : Polynomial K} {item : Monomial K}
    (member : item ∈ polynomial.monomials) :
    (polynomial.coefficientOf? item.powers.leadingPower).isSome = true := by
  rw [coefficientOf?, Option.isSome_map, List.find?_isSome]
  exact ⟨item, member, beq_self_eq_true _⟩

/-- A coefficient that is found is that of a monomial. -/
theorem exists_of_coefficientOf? {polynomial : Polynomial K} {power : Nat} {coefficient : K}
    (found : polynomial.coefficientOf? power = some coefficient) :
    ∃ item ∈ polynomial.monomials, item.powers.leadingPower = power ∧ item.coefficient = coefficient := by
  obtain ⟨item, isFirst, same⟩ := Option.map_eq_some_iff.1 found
  have test := List.find?_some isFirst
  exact ⟨item, List.mem_of_find?_eq_some isFirst, beq_iff_eq.1 test, same⟩

end Slots

/-- The integer before a power of the variable, zero if there is none. -/
def integerOf (polynomial : Polynomial Number) (power : Nat) : Int :=
  ((polynomial.coefficientOf? power).bind Number.asInteger?).getD 0

/-- The integers before all powers up to the degree. -/
def integers (polynomial : Polynomial Number) : List Int :=
  (List.range (polynomial.degree + 1)).map polynomial.integerOf

theorem integers_ne_nil (polynomial : Polynomial Number) : polynomial.integers ≠ [] :=
  List.ne_nil_of_length_eq_add_one (by rw [integers, List.length_map, List.length_range])

/-- Every power up to the degree has an integer coefficient. -/
structure Filled (polynomial : Polynomial Number) : Prop where
  integers : ∀ item ∈ polynomial.monomials, ∃ value, item.coefficient = .integer value
  powers : ∀ power ≤ polynomial.degree, ∃ item ∈ polynomial.monomials, item.powers.leadingPower = power

/-- Slots hold the coefficients, and zero where there is no monomial. -/
theorem denseSlots_of_filled {polynomial : Polynomial Number} {single : Int}
    (distinct : polynomial.Distinct) (powers : polynomial.InVariable single) (filled : polynomial.Filled) :
    polynomial.denseSlots = polynomial.integers.map .integer := by
  rw [denseSlots_eq distinct powers, integers, List.map_map]
  apply List.map_congr_left
  intro power inside
  rw [List.mem_range] at inside
  obtain ⟨item, member, rfl⟩ := filled.powers power (by omega)
  obtain ⟨coefficient, found⟩ := Option.isSome_iff_exists.1 (coefficientOf?_isSome member)
  obtain ⟨other, isOther, -, rfl⟩ := exists_of_coefficientOf? found
  obtain ⟨value, isInteger⟩ := filled.integers other isOther
  rw [Function.comp_apply, integerOf, found, isInteger]
  rfl

/-- Listing the coefficients succeeds for a polynomial in one variable. -/
theorem dense_of_univariate {K : Type} [Coefficient K] {polynomial : Polynomial K}
    (univariate : polynomial.univariate = true) : polynomial.dense = .ok polynomial.denseSlots := by
  rw [dense, requireUnivariate, if_pos univariate]
  rfl

/-- The coefficients of a univariate polynomial are its stored slots. -/
theorem coefficients_of_univariate {polynomial : Polynomial Number} (univariate : polynomial.univariate = true) :
    polynomial.coefficients = .ok (DenseVector.ofNumbers polynomial.denseSlots) := by
  rw [coefficients, dense_of_univariate univariate]
  rfl

end Polynomial

namespace DenseVector

/-- The form in which a vector keeps integers, if it does not round them. -/
def storage? : DenseVector → Option Storage
  | .signedWords _ => some .signed
  | .unsignedWords _ => some .unsigned
  | .numbers _ => some .unbounded
  | _ => none

/-- The vector of the storage with the integers in it. -/
def ofIntegers : Storage → List Int → DenseVector
  | .signed => .signedWords
  | .unsigned => .unsignedWords
  | .unbounded => fun values => .numbers (values.map .integer)

/-- A vector is stored as it was made. -/
theorem storage?_ofIntegers (form : Storage) (values : List Int) :
    (ofIntegers form values).storage? = some form := by
  cases form <;> rfl

theorem isUnbounded_integer {value : Int} :
    isUnbounded (.integer value) = false ↔ Word.isSigned value = true ∨ Word.isUnsigned value = true := by
  rw [isUnbounded, Bool.and_eq_false_iff, Bool.not_eq_false', Bool.not_eq_false']

/-- Integers are read back from their numbers. -/
theorem mapM_asInteger? (values : List Int) :
    (values.map Number.integer).mapM Number.asInteger? = some values := by
  induction values with
  | nil => rfl
  | cons head rest hypothesis =>
      rw [List.map_cons, List.mapM_cons, hypothesis]
      rfl

/-- Integers that are not rounded are kept in a form that holds all of them. -/
theorem ofNumbers_integers {values : List Int} {storage : Storage}
    (kept : (ofNumbers (values.map .integer)).storage? = some storage) :
    ofNumbers (values.map .integer) = ofIntegers storage values ∧
      ∀ value ∈ values, storage.holds value = true := by
  have real : ((values.map Number.integer).any fun entry => !entry.isReal) = false := by
    simp [Number.isReal]
  unfold ofNumbers at kept ⊢
  by_cases unbounded : (values.map Number.integer).any isUnbounded = true
  · rw [if_pos unbounded] at kept ⊢
    cases kept
    exact ⟨rfl, fun _ _ => rfl⟩
  · rw [if_neg unbounded, if_neg (by simp [real]), mapM_asInteger?] at kept ⊢
    have words : ∀ value ∈ values, Word.isSigned value = true ∨ Word.isUnsigned value = true := by
      intro value member
      rw [← isUnbounded_integer]
      simp only [List.any_map, List.any_eq_true, Function.comp_apply, not_exists, not_and] at unbounded
      simpa using unbounded value member
    dsimp only at kept ⊢
    split at kept
    · cases kept
    · split at kept
      · rename_i nonempty signed
        rw [if_neg nonempty, if_pos signed]
        cases kept
        exact ⟨rfl, List.all_eq_true.1 signed⟩
      · split at kept
        · rename_i nonempty notSigned unsigned
          rw [if_neg nonempty, if_neg notSigned, if_pos unsigned]
          cases kept
          refine ⟨rfl, fun value member => (words value member).resolve_left ?_⟩
          simpa using List.all_eq_true.1 unsigned value member
        · cases kept

section Words

variable {form : Storage} {values : List Int} {entries : List Number}

/-- Only integers are read as integers. -/
theorem eq_of_mapM_asInteger? (listed : entries.mapM Number.asInteger? = some values) :
    entries = values.map .integer := by
  induction entries generalizing values with
  | nil =>
      cases listed
      rfl
  | cons head rest hypothesis =>
      rw [List.mapM_cons] at listed
      obtain ⟨value, isInteger, listed⟩ := Option.bind_eq_some_iff.1 listed
      obtain ⟨others, inRest, same⟩ := Option.bind_eq_some_iff.1 listed
      cases same
      cases head with
      | integer number =>
          cases isInteger
          rw [List.map_cons, ← hypothesis inRest]
      | _ => cases isInteger

/-- Words are stored for integers only. -/
theorem eq_of_ofNumbers (words : form ≠ .unbounded) (stored : ofNumbers entries = ofIntegers form values) :
    entries = values.map .integer := by
  unfold ofNumbers at stored
  split at stored
  · cases form with
    | unbounded => exact (words rfl).elim
    | _ => cases stored
  · split at stored
    · cases form <;> cases stored
    · split at stored
      · cases form <;> cases stored
      · rename_i listed
        rw [eq_of_mapM_asInteger? listed]
        split at stored
        · cases form <;> cases stored
        · split at stored
          · cases form <;> cases stored
            rfl
          · split at stored
            · cases form <;> cases stored
              rfl
            · cases form <;> cases stored

/-- What is stored as words fits into them. -/
theorem holds_of_ofNumbers (words : form ≠ .unbounded) (stored : ofNumbers entries = ofIntegers form values) :
    ∀ value ∈ values, form.holds value = true := by
  have kept : (ofNumbers entries).storage? = some form := by
    rw [stored, storage?_ofIntegers]
  rw [eq_of_ofNumbers words stored] at kept
  exact (ofNumbers_integers kept).2

theorem ne_nil_of_ofNumbers (words : form ≠ .unbounded) (stored : ofNumbers entries = ofIntegers form values) :
    values ≠ [] := by
  rintro rfl
  rw [eq_of_ofNumbers words stored] at stored
  cases form <;> cases stored

end Words

end DenseVector

end TrigAlgebra
