/-
This file compares stored coefficients entry by entry within a tolerance.
-/

import TrigAlgebra.DenseVector.Basic
import TrigAlgebra.Number.Power

namespace TrigAlgebra.DenseVector

/-- The missing entries of the shorter list count as zero. -/
def pad {A : Type} (zero : A) (size : Nat) (entries : List A) : List A :=
  entries ++ List.replicate (size - entries.length) zero

/-- Entries of any kind are not filled up. -/
def padded (size : Nat) : DenseVector → DenseVector
  | .reals entries => .reals (pad 0.0 size entries)
  | .complexes entries => .complexes (pad (0.0, 0.0) size entries)
  | .signedWords entries => .signedWords (pad 0 size entries)
  | .unsignedWords entries => .unsignedWords (pad 0 size entries)
  | .numbers entries => .numbers entries

/-- How far two entries are apart, as a number of their own kind or as a machine number. -/
inductive Distance where
  | number (value : Number)
  | word (value : Int)
  | rounded (value : Float)

def atMost (limit value : Number) : Bool :=
  match Number.compare? value limit with
  | some .lt => true
  | some .eq => true
  | _ => false

/-- Machine numbers meet a complex limit by real part first, then by imaginary part. -/
def roundedAtMost (value limit imaginary : Float) : Bool :=
  if value == limit then 0.0 ≤ imaginary else value < limit && !imaginary.isNaN

namespace Distance

def kind : Distance → Kind
  | .number value => value.kind
  | .word _ => .integer
  | .rounded _ => .real

/-- A rounded distance is compared with the rounded limit, all others exactly; words meet a
rounded limit as rounded numbers. -/
def within (limit : Number) (distance : Distance) : Except Fault Bool :=
  match distance, limit with
  | distance, .bigComplex _ => .error (.unordered .lessOrEqual distance.kind .bigComplex)
  | .number value, .complex _ _ => .error (.unordered .lessOrEqual value.kind .complex)
  | .number value, limit => .ok (atMost limit value)
  | .word value, .real limit => .ok (Binary64.ofInt value ≤ limit)
  | .word value, .complex re im => .ok (roundedAtMost (Binary64.ofInt value) re im)
  | .word value, limit => .ok (atMost limit (.integer value))
  | .rounded value, .complex re im => .ok (roundedAtMost value re im)
  | .rounded value, .bigReal limit => .ok (atMost (.bigReal limit) (.real value))
  | .rounded value, limit => limit.toFloat.map (value ≤ ·)

end Distance

/-- The size of a number, which is rounded for a complex one. -/
def numberSize : Number → Except Fault Number
  | .integer value => .ok (.integer value.natAbs)
  | .real value => .ok (.real value.abs)
  | .bigReal value => .ok (.bigReal value.abs)
  | .bigComplex value => .ok (.bigReal (value.abs Number.bigPrecision))
  | .complex re im =>
      let size := Number.complexLength re im
      if re.isFinite && im.isFinite && size.isInf then .error .magnitudeTooLarge
      else .ok (.real size)

/-- The size of an entry that stands beside a missing one. A list of numbers is filled up with
words, so that the difference is a machine number unless the entry is of a big kind. -/
def sizeBesideWord : Number → Except Fault Distance
  | .integer value =>
      if Word.isSigned value then .ok (.word (Word.wrapSigned value.natAbs))
      else .error .wordTooLarge
  | .real value => .ok (.rounded value.abs)
  | .complex re im => .ok (.rounded (Number.complexLength re im))
  | number => (numberSize number).map .number

/-- The differences of the common entries and the entries beyond them fail before any size does. -/
def numberDistances (first second : List Number) : Except Fault (List Distance) := do
  let differences ← (List.zip first second).mapM fun pair => Number.sub pair.1 pair.2
  let beyond ← (first.drop second.length ++ second.drop first.length).mapM sizeBesideWord
  let sizes ← differences.mapM numberSize
  return sizes.map .number ++ beyond

/-- The sizes of the differences of the entries. Differences of words wrap around, and the size of
the least signed word is that word itself. -/
def distances : DenseVector → DenseVector → Except Fault (List Distance)
  | .signedWords first, .signedWords second =>
      .ok (List.zipWith
        (fun left right => .word (Word.wrapSigned (Word.wrapSigned (left - right)).natAbs))
        first second)
  | .unsignedWords first, .unsignedWords second =>
      .ok (List.zipWith (fun left right => .word (Word.wrapUnsigned (left - right))) first second)
  | first@(.numbers _), second => numberDistances first.toNumbers second.toNumbers
  | first, second@(.numbers _) => numberDistances first.toNumbers second.toNumbers
  | first@(.complexes _), second => .ok (lengths first second)
  | first, second@(.complexes _) => .ok (lengths first second)
  | first, second =>
      .ok (List.zipWith (fun left right => .rounded (toReal left - toReal right).abs)
        first.toNumbers second.toNumbers)
where
  lengths (first second : DenseVector) : List Distance :=
    List.zipWith
      (fun left right =>
        .rounded (Number.complexLength ((toPair left).1 - (toPair right).1)
          ((toPair left).2 - (toPair right).2)))
      first.toNumbers second.toNumbers

/-- All entries are compared, also after one that is too far off. -/
def isApprox (first second : DenseVector) (tolerance : Number) : Except Fault Bool := do
  let size := max first.length second.length
  let sizes ← distances (first.padded size) (second.padded size)
  return (← sizes.mapM (Distance.within tolerance)).all id

/-- The tolerance of a comparison that names none. -/
def defaultTolerance : Number := .real 1e-10

end TrigAlgebra.DenseVector
