/-
This file finds the eigenvalues of matrices that are zero below the first subdiagonal, by shifted
factorisations into a unitary and a triangular matrix.
-/

import TrigAlgebra.BigFloat.Complex

namespace TrigAlgebra.Eigenvalues

open BigComplex

/-- The binary digits carried by the iteration. -/
def workingPrecision : Nat := 320

abbrev Row : Type := List BigComplex

def getEntry (row : Row) (column : Nat) : BigComplex := row.getD column BigComplex.zero

/-- A unitary change of two neighbouring rows or columns. -/
structure Rotation where
  cosine : BigComplex
  sine : BigComplex

def times (first second : BigComplex) : BigComplex := first.mul workingPrecision second

def plus (first second : BigComplex) : BigComplex := first.add workingPrecision second

/-- The rotation that turns the second of two entries into zero. -/
def Rotation.zeroing (first second : BigComplex) : Rotation :=
  let square :=
    (first.squaredSize workingPrecision).add workingPrecision (second.squaredSize workingPrecision)
  if square.isZero then ⟨BigComplex.one, BigComplex.zero⟩
  else
    let length := square.sqrt workingPrecision
    ⟨first.shrink workingPrecision length, second.shrink workingPrecision length⟩

def Rotation.onRows (rotation : Rotation) (upper lower : Row) : Row × Row :=
  (List.zipWith
      (fun first second =>
        plus (times rotation.cosine.conjugate first) (times rotation.sine.conjugate second))
      upper lower,
    List.zipWith
      (fun first second => plus (times rotation.sine.neg first) (times rotation.cosine second))
      upper lower)

/-- One rotation for each pair of neighbouring entries, from the left. -/
def rotateColumns : List Rotation → Row → Row
  | rotation :: rest, first :: second :: others =>
      plus (times rotation.cosine first) (times rotation.sine second) ::
        rotateColumns rest
          (plus (times rotation.sine.conjugate.neg first)
              (times rotation.cosine.conjugate second) :: others)
  | _, row => row

/-- The rotations that clear the subdiagonal, and the triangular rows that they leave. -/
def eliminate (column : Nat) (top : Row) : List Row → List Rotation × List Row
  | [] => ([], [top])
  | next :: others =>
      let rotation := Rotation.zeroing (getEntry top column) (getEntry next column)
      let (upper, lower) := rotation.onRows top next
      let (rotations, rows) := eliminate (column + 1) lower others
      (rotation :: rotations, upper :: rows)

def addDiagonal (amount : BigComplex) (rows : List Row) : List Row :=
  rows.zipIdx.map fun (row, index) => row.modify index (plus amount)

/-- The eigenvalue of the last two rows and columns that lies nearer to the last entry. -/
def cornerShift (above : Row) (last : Row) (size : Nat) : BigComplex :=
  let corner := getEntry last (size - 1)
  let half := (plus (getEntry above (size - 2)) corner.neg).scale workingPrecision (.finite 1 (-1))
  let product := times (getEntry above (size - 1)) (getEntry last (size - 2))
  let root := (plus (times half half) product).sqrt workingPrecision
  let near := plus half root
  let far := plus half root.neg
  plus corner (if (near.abs workingPrecision).less (far.abs workingPrecision) then near else far)

/-- Now and then a shift off the corner breaks the symmetry on which the other shifts can hang. -/
def chooseShift (fuel : Nat) (rows : List Row) : BigComplex :=
  let size := rows.length
  let above := rows.getD (size - 2) []
  let last := rows.getD (size - 1) []
  if fuel % 10 = 0 then
    plus (getEntry last (size - 1))
      (.ofReal ((getEntry last (size - 2)).abs workingPrecision))
  else cornerShift above last size

def sweep (shift : BigComplex) (rows : List Row) : List Row :=
  match addDiagonal shift.neg rows with
  | [] => []
  | top :: others =>
      let (rotations, triangular) := eliminate 0 top others
      addDiagonal shift (triangular.map (rotateColumns rotations))

/-- Entries that many binary digits below the largest one count as zero. -/
def vanishingDigits : Int := 8192

/-- An entry below the diagonal counts as zero beside much larger neighbours on the diagonal, and
when it vanishes beside the largest entry of the matrix. -/
def isNegligible (scale : BigFloat) (rows : List Row) (index : Nat) : Bool :=
  let entry := (getEntry (rows.getD index []) (index - 1)).abs workingPrecision
  let upper := (getEntry (rows.getD (index - 1) []) (index - 1)).abs workingPrecision
  let lower := (getEntry (rows.getD index []) index).abs workingPrecision
  let size := upper.add workingPrecision lower
  let size := if size.isZero then scale else size
  !(size.shift (-((workingPrecision : Int) - 16))).less entry ||
    !(scale.shift (-vanishingDigits)).less entry

/-- The largest entry of a matrix. -/
def largest (rows : List Row) : BigFloat :=
  rows.flatten.foldl
    (fun best entry =>
      let size := entry.abs workingPrecision
      if best.less size then size else best)
    BigFloat.zero

/-- Where an entry below the diagonal is negligible the matrix falls into two. -/
def iterate (scale : BigFloat) : (fuel : Nat) → List Row → List BigComplex
  | 0, rows => rows.zipIdx.map fun (row, index) => getEntry row index
  | fuel + 1, rows =>
      match rows with
      | [] => []
      | [row] => [getEntry row 0]
      | _ =>
        match (List.range rows.length).find? fun index =>
            0 < index && isNegligible scale rows index with
        | some index =>
            iterate scale fuel ((rows.take index).map (List.take index)) ++
              iterate scale fuel ((rows.drop index).map (List.drop index))
        | none => iterate scale fuel (sweep (chooseShift fuel rows) rows)

def ofUnreduced (rows : List Row) : List BigComplex :=
  iterate (largest rows) (60 * rows.length + 9) rows

/-- A first row of zeros has the eigenvalue zero, and the other eigenvalues are those of the matrix
without it and its column. -/
def ofRows : List Row → List BigComplex
  | [] => []
  | top :: others =>
      if top.all BigComplex.isZero then BigComplex.zero :: ofRows (others.map (List.drop 1))
      else ofUnreduced (top :: others)
termination_by rows => rows.length

end TrigAlgebra.Eigenvalues
