/-
This file proves that the companion matrix of coefficients from a field represents their polynomial: its
characteristic polynomial is theirs over the leading coefficient, and its eigenvalues are their roots.
-/

import Mathlib.Algebra.BigOperators.Field
import Mathlib.LinearAlgebra.Eigenspace.Charpoly
import Mathlib.LinearAlgebra.Matrix.Block
import TrigAlgebra.Proofs.RingCoefficients
import TrigAlgebra.Roots.Companion

namespace TrigAlgebra

/-- The coefficients form a field, in which only a division by zero may fail. -/
class FieldCoefficient (F : Type) [Field F] [Coefficient F] : Prop extends RingCoefficient F where
  div_eq : ∀ {first second : F}, second ≠ 0 → Coefficient.div first second = .ok (first / second)

namespace Companion

open Matrix

/-- The rows make up a square. -/
theorem length_rows {K : Type} [Coefficient K] (column : List K) : (rows column).length = column.length ∧
    ∀ row ∈ rows column, row.length = column.length := by
  unfold rows
  rw [List.length_map, List.length_range, List.forall_mem_map]
  refine ⟨rfl, fun row _ => ?_⟩
  rw [List.length_map, List.length_range]

section Column

variable {F : Type} [Field F] {size : Nat}

/-- The matrix with ones below the diagonal and a given last column. -/
def ofColumn (column : Fin size → F) : Matrix (Fin size) (Fin size) F :=
  .of fun row col => if (col : Nat) + 1 = size then column row
    else if (row : Nat) = col + 1 then 1 else 0

/-- The top row holds the unknown in its first and the constant coefficient in its last place. -/
theorem charmatrix_ofColumn_zero (column : Fin (size + 1) → F) (col : Fin (size + 1)) :
    (ofColumn column).charmatrix 0 col = (if col = 0 then Polynomial.X else 0) -
      if col = Fin.last size then Polynomial.C (column 0) else 0 := by
  have isLast : (col : Nat) + 1 = size + 1 ↔ col = Fin.last size := by
    rw [Fin.ext_iff, Fin.val_last]
    omega
  rw [charmatrix_apply, ofColumn, Matrix.of_apply, Matrix.diagonal_apply]
  simp only [isLast, Fin.val_zero, eq_comm (a := (0 : Fin (size + 1)))]
  split <;> split <;> simp_all

/-- Without its top row and first column the matrix is the one of the rest of its last column. -/
theorem charmatrix_ofColumn_succ (column : Fin (size + 1) → F) :
    (ofColumn column).charmatrix.submatrix Fin.succ Fin.succ =
      (ofColumn fun row => column row.succ).charmatrix := by
  ext1 row col
  simp [charmatrix_apply, ofColumn, Matrix.diagonal_apply]

/-- Without its top row and last column the matrix is triangular, with the negated ones on its diagonal. -/
theorem det_charmatrix_ofColumn_corner (column : Fin (size + 1) → F) :
    ((ofColumn column).charmatrix.submatrix Fin.succ Fin.castSucc).det = (-1) ^ size := by
  have entries (row col : Fin size) :
      (ofColumn column).charmatrix.submatrix Fin.succ Fin.castSucc row col =
        (if (row : Nat) + 1 = col then Polynomial.X else 0) - if row = col then 1 else 0 := by
    have inside : ¬ (col.castSucc : Nat) + 1 = size + 1 := by
      rw [Fin.val_castSucc]
      omega
    rw [submatrix_apply, charmatrix_apply, Matrix.diagonal_apply, ofColumn, Matrix.of_apply, if_neg inside]
    simp only [Fin.ext_iff, Fin.val_succ, Fin.val_castSucc, Nat.add_right_cancel_iff]
    rw [apply_ite Polynomial.C, Polynomial.C_1, Polynomial.C_0]
  have triangular : ((ofColumn column).charmatrix.submatrix Fin.succ Fin.castSucc).IsUpperTriangular := by
    intro row col below
    have order : (col : Nat) < row := below
    rw [entries, if_neg (by omega), if_neg (by omega), sub_zero]
  have diagonal (row : Fin size) :
      (ofColumn column).charmatrix.submatrix Fin.succ Fin.castSucc row row = -1 := by
    rw [entries, if_neg (by omega), if_pos rfl, zero_sub]
  rw [det_of_isUpperTriangular triangular, Finset.prod_congr rfl fun row _ => diagonal row, Finset.prod_const,
    Finset.card_univ, Fintype.card_fin]

/-- The expansion along the top row has two terms, those of its first and its last place. -/
theorem charpoly_ofColumn_succ (column : Fin (size + 1) → F) : (ofColumn column).charpoly =
    Polynomial.X * (ofColumn fun row => column row.succ).charpoly - Polynomial.C (column 0) := by
  rw [charpoly, det_succ_row_zero]
  simp only [charmatrix_ofColumn_zero, mul_sub, sub_mul, Finset.sum_sub_distrib, mul_ite, ite_mul, mul_zero,
    zero_mul, Finset.sum_ite_eq', Finset.mem_univ, if_true]
  rw [Fin.succAbove_zero, Fin.succAbove_last, charmatrix_ofColumn_succ, det_charmatrix_ofColumn_corner,
    Fin.val_zero, pow_zero, one_mul, Fin.val_last]
  -- The signs of the last term cancel.
  rw [mul_right_comm, ← mul_pow, neg_one_mul, neg_neg, one_pow, one_mul]
  rfl

theorem charpoly_ofColumn (column : Fin size → F) : (ofColumn column).charpoly =
    Polynomial.X ^ size - ∑ row : Fin size, Polynomial.monomial row (column row) := by
  induction size with
  | zero =>
      rw [charpoly, det_fin_zero, Finset.univ_eq_empty, Finset.sum_empty, pow_zero, sub_zero]
  | succ size hypothesis =>
      rw [charpoly_ofColumn_succ, hypothesis, Fin.sum_univ_succ, mul_sub, Finset.mul_sum, ← pow_succ',
        Fin.val_zero, Polynomial.monomial_zero_left]
      simp only [Fin.val_succ, Polynomial.X_mul_monomial]
      ring

/-- A root of the characteristic polynomial takes the powers below the last one to the next power, and the
last one to the next by the last column. -/
theorem vecMul_ofColumn (column : Fin size → F) {point : F}
    (root : point ^ size = ∑ row : Fin size, column row * point ^ (row : Nat)) :
    (fun row : Fin size => point ^ (row : Nat)) ᵥ* ofColumn column =
      point • fun row : Fin size => point ^ (row : Nat) := by
  ext col
  change ∑ row : Fin size, point ^ (row : Nat) * ofColumn column row col = point * point ^ (col : Nat)
  rw [← pow_succ']
  by_cases isLast : (col : Nat) + 1 = size
  · rw [isLast, root]
    refine Finset.sum_congr rfl fun row _ => ?_
    rw [ofColumn, Matrix.of_apply, if_pos isLast, mul_comm]
  -- Off the last column only the one below the diagonal meets a power.
  · have inside : (col : Nat) + 1 < size := by omega
    rw [Finset.sum_eq_single ⟨col + 1, inside⟩]
    · rw [ofColumn, Matrix.of_apply, if_neg isLast, if_pos rfl, mul_one]
    · intro row _ other
      have apart : ¬ (row : Nat) = col + 1 := fun same => other (Fin.ext same)
      rw [ofColumn, Matrix.of_apply, if_neg isLast, if_neg apart, mul_zero]
    · exact fun absent => (absent (Finset.mem_univ _)).elim

end Column

section Rows

variable {F : Type} [Field F] {size : Nat}

/-- Rows of numbers as a square matrix. -/
def toMatrix (size : Nat) (rows : List (List F)) : Matrix (Fin size) (Fin size) F :=
  .of fun row col => (rows.getD row []).getD col 0

variable [Coefficient F] [FieldCoefficient F]

theorem entry_ofFn (column : Fin size → F) (row col : Fin size) :
    entry (List.ofFn column) row col = ofColumn column row col := by
  unfold entry
  rw [List.length_ofFn, RingCoefficient.zero_eq, RingCoefficient.one_eq, List.getD_eq_getElem?_getD,
    List.getElem?_ofFn, dif_pos row.isLt]
  rfl

theorem toMatrix_rows (column : Fin size → F) : toMatrix size (rows (List.ofFn column)) = ofColumn column := by
  ext row col
  rw [← entry_ofFn]
  simp [toMatrix, rows]

/-- The coefficients below the leading one over it, with changed sign. -/
def lowerOverLeading (coefficients : Fin (size + 1) → F) (row : Fin size) : F :=
  -coefficients row.castSucc / coefficients (Fin.last size)

theorem lastColumn_ofFn {coefficients : Fin (size + 1) → F} (nonzero : coefficients (Fin.last size) ≠ 0) :
    lastColumn (List.ofFn coefficients) = .ok (List.ofFn (lowerOverLeading coefficients)) := by
  have column : List.ofFn (lowerOverLeading coefficients) =
      (List.ofFn fun row : Fin size => coefficients row.castSucc).map fun coefficient =>
        -coefficient / coefficients (Fin.last size) := by
    rw [List.map_ofFn]
    rfl
  unfold lastColumn
  rw [List.ofFn_succ', List.concat_eq_append, List.reverse_concat, column]
  dsimp only
  rw [List.reverse_reverse, mapM_eq_ok, List.forall₂_map_right_iff, List.forall₂_same]
  intro coefficient _
  rw [RingCoefficient.neg_eq, FieldCoefficient.div_eq nonzero]

theorem matrix_ofFn {coefficients : Fin (size + 1) → F} (nonzero : coefficients (Fin.last size) ≠ 0) :
    matrix (List.ofFn coefficients) = .ok (rows (List.ofFn (lowerOverLeading coefficients))) := by
  rw [matrix, lastColumn_ofFn nonzero]
  rfl

end Rows

section Roots

variable {F : Type} [Field F] {size : Nat} {coefficients : Fin (size + 1) → F}

/-- Over its leading coefficient the polynomial has the powers of the last column. -/
theorem charpoly_lowerOverLeading (nonzero : coefficients (Fin.last size) ≠ 0) :
    (ofColumn (lowerOverLeading coefficients)).charpoly = ∑ power : Fin (size + 1),
      Polynomial.monomial power (coefficients power / coefficients (Fin.last size)) := by
  rw [charpoly_ofColumn, Fin.sum_univ_castSucc, Fin.val_last, div_self nonzero,
    Polynomial.monomial_one_right_eq_X_pow, sub_eq_add_neg, add_comm, ← Finset.sum_neg_distrib]
  congr 1
  refine Finset.sum_congr rfl fun row _ => ?_
  rw [lowerOverLeading, neg_div, map_neg, neg_neg, Fin.val_castSucc]

theorem isRoot_charpoly_iff (nonzero : coefficients (Fin.last size) ≠ 0) {point : F} :
    (ofColumn (lowerOverLeading coefficients)).charpoly.IsRoot point ↔
      ∑ power : Fin (size + 1), coefficients power * point ^ (power : Nat) = 0 := by
  rw [charpoly_lowerOverLeading nonzero, Polynomial.IsRoot.def, Polynomial.eval_finsetSum]
  simp only [Polynomial.eval_monomial, div_mul_eq_mul_div]
  rw [← Finset.sum_div, div_eq_zero_iff, or_iff_left nonzero]

end Roots

/-- The companion matrix of at least two coefficients with a nonzero leading one has their polynomial over
the leading coefficient as its characteristic polynomial. Its eigenvalues are the roots of the polynomial,
and the powers of a root are a left eigenvector. -/
theorem matrix_represents {F : Type} [Field F] [Coefficient F] [FieldCoefficient F] (size : Nat)
    (positive : 1 ≤ size) (coefficients : Fin (size + 1) → F) (nonzero : coefficients (Fin.last size) ≠ 0) :
    ∃ rows, matrix (List.ofFn coefficients) = .ok rows ∧
      (rows.length = size ∧ ∀ row ∈ rows, row.length = size) ∧
      (toMatrix size rows).charpoly = ∑ power : Fin (size + 1),
        Polynomial.monomial power (coefficients power / coefficients (Fin.last size)) ∧
      ∀ point : F,
        (Module.End.HasEigenvalue (toLin' (toMatrix size rows)) point ↔
          ∑ power : Fin (size + 1), coefficients power * point ^ (power : Nat) = 0) ∧
        (∑ power : Fin (size + 1), coefficients power * point ^ (power : Nat) = 0 →
          (fun row : Fin size => point ^ (row : Nat)) ≠ 0 ∧
            (fun row : Fin size => point ^ (row : Nat)) ᵥ* toMatrix size rows =
              point • fun row : Fin size => point ^ (row : Nat)) := by
  have read := toMatrix_rows (lowerOverLeading coefficients)
  have square := length_rows (List.ofFn (lowerOverLeading coefficients))
  rw [List.length_ofFn] at square
  refine ⟨_, matrix_ofFn nonzero, square, ?_⟩
  rw [read]
  refine ⟨charpoly_lowerOverLeading nonzero, fun point => ⟨?_, fun root => ⟨fun zero => ?_, ?_⟩⟩⟩
  · rw [Module.End.hasEigenvalue_iff_isRoot_charpoly, charpoly_toLin', isRoot_charpoly_iff nonzero]
  · have first := congrFun zero ⟨0, positive⟩
    exact one_ne_zero ((pow_zero point).symm.trans first)
  · rw [← isRoot_charpoly_iff nonzero, charpoly_ofColumn, Polynomial.IsRoot.def, Polynomial.eval_sub,
      Polynomial.eval_pow, Polynomial.eval_X, Polynomial.eval_finsetSum, sub_eq_zero] at root
    simp only [Polynomial.eval_monomial] at root
    exact vecMul_ofColumn _ root

/-- The arithmetic of rational numbers is exact; zero is the only angle with known functions. -/
instance rationals : Coefficient Rat where
  zero := 0
  one := 1
  ofInt value := value
  add first second := .ok (first + second)
  mul first second := .ok (first * second)
  div first second := if second = 0 then .error (.divisionByZero .real) else .ok (first / second)
  pow base exponent := .ok (base ^ exponent)
  neg value := -value
  circular function angle := if angle ≠ 0 then .error .unevaluable else .ok (match function with
    | .sine => 0
    | .cosine => 1)
  same first second := first == second
  integer? value := .ok (if value.den = 1 then some value.num else none)
  text value := .ok (Text.writeInteger value.num ++ "/" ++ Text.writeInteger value.den)

instance : FieldCoefficient Rat where
  zero_eq := rfl
  one_eq := rfl
  ofInt_eq _ := rfl
  add_eq _ _ := rfl
  mul_eq _ _ := rfl
  pow_eq _ _ := rfl
  neg_eq _ := rfl
  same_iff := beq_iff_eq
  integer_eq {value integer} same := by
    change Except.ok (if value.den = 1 then some value.num else none) = .ok (some integer) at same
    split at same
    · rename_i whole
      cases same
      exact ((Rat.den_eq_one_iff value).1 whole).symm
    · cases same
  div_eq nonzero := if_neg nonzero

/-- Twice the product of the distances to 1, 2 and -3, which has no square. -/
theorem matrix_represents_cubic :
    (1 ≤ 3 ∧ (![12, -14, 0, 2] : Fin 4 → Rat) (Fin.last 3) ≠ 0) ∧
      ∃ rows, matrix (List.ofFn (![12, -14, 0, 2] : Fin 4 → Rat)) = .ok rows ∧
        rows = [[0, 0, -6], [1, 0, 7], [0, 1, 0]] ∧
        Module.End.HasEigenvalue (toLin' (toMatrix 3 rows)) 2 ∧
        ¬ Module.End.HasEigenvalue (toLin' (toMatrix 3 rows)) 5 := by
  have nonzero : (![12, -14, 0, 2] : Fin 4 → Rat) (Fin.last 3) ≠ 0 := by decide
  obtain ⟨rows, returned, -, -, roots⟩ := matrix_represents 3 (by decide) ![12, -14, 0, 2] nonzero
  have computed : matrix (List.ofFn (![12, -14, 0, 2] : Fin 4 → Rat)) =
      .ok [[0, 0, -6], [1, 0, 7], [0, 1, 0]] := by decide +kernel
  have same := Except.ok.inj (returned.symm.trans computed)
  refine ⟨⟨by decide, nonzero⟩, rows, returned, same, (roots 2).1.2 (by decide +kernel), fun eigenvalue => ?_⟩
  exact absurd ((roots 5).1.1 eigenvalue) (by decide +kernel)

end Companion

end TrigAlgebra
