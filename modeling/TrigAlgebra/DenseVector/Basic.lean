/-
This file stores lists of coefficients in the narrowest common form, as machine words, rounded
numbers or numbers of any kind.
-/

import TrigAlgebra.Number.Coefficient
import TrigAlgebra.Polynomial.Dense
import TrigAlgebra.Word

namespace TrigAlgebra

/-- Words are integers of 64 bits, with a sign or without. -/
inductive DenseVector where
  | reals (entries : List Float)
  | complexes (entries : List (Float × Float))
  | signedWords (entries : List Int)
  | unsignedWords (entries : List Int)
  | numbers (entries : List Number)

/-- The integer that a number is, when it is one of the integer kind. -/
def Number.asInteger? : Number → Option Int
  | .integer value => some value
  | _ => none

namespace DenseVector

/-- Whether a number needs more room than a word or a rounded number has. -/
def isUnbounded : Number → Bool
  | .integer value => !Word.isSigned value && !Word.isUnsigned value
  | number => number.isBig

def toReal : Number → Float
  | .integer value => Binary64.ofInt value
  | .real value => value
  | _ => Binary64.undefined

def toPair : Number → Float × Float
  | .complex re im => (re, im)
  | number => (toReal number, 0.0)

/-- One unbounded number keeps all entries as they are; otherwise the widest kind decides, and
integers that no one kind of word holds are rounded. -/
def ofNumbers (entries : List Number) : DenseVector :=
  if entries.any isUnbounded then .numbers entries
  else if entries.any fun entry => !entry.isReal then .complexes (entries.map toPair)
  else
    match entries.mapM Number.asInteger? with
    | none => .reals (entries.map toReal)
    | some integers =>
        if integers.isEmpty then .reals []
        else if integers.all Word.isSigned then .signedWords integers
        else if integers.all fun value => !Word.isSigned value then .unsignedWords integers
        else .reals (entries.map toReal)

def toNumbers : DenseVector → List Number
  | .reals entries => entries.map .real
  | .complexes entries => entries.map fun entry => .complex entry.1 entry.2
  | .signedWords entries => entries.map .integer
  | .unsignedWords entries => entries.map .integer
  | .numbers entries => entries

def length (vector : DenseVector) : Nat := vector.toNumbers.length

/-- All entries as pairs of rounded numbers. -/
def toComplexes (vector : DenseVector) : Except Fault (List (Float × Float)) :=
  vector.toNumbers.mapM Number.toComplex

/-- Zeros of the highest powers are dropped, but the first entry always stays. -/
def trimEntries {A : Type} (isZero : A → Bool) (entries : List A) : List A :=
  match (entries.reverse.dropWhile isZero).reverse with
  | [] => entries.take 1
  | kept => kept

def isZeroPair (pair : Float × Float) : Bool := pair.1 == 0.0 && pair.2 == 0.0

def trim : DenseVector → DenseVector
  | .reals entries => .reals (trimEntries (· == 0.0) entries)
  | .complexes entries => .complexes (trimEntries isZeroPair entries)
  | .signedWords entries => .signedWords (trimEntries (· == 0) entries)
  | .unsignedWords entries => .unsignedWords (trimEntries (· == 0) entries)
  | .numbers entries => .numbers (trimEntries Number.isZero entries)

end DenseVector

/-- The coefficients of a polynomial in one variable, stored by power. -/
def Polynomial.coefficients (polynomial : Polynomial Number) : Except Fault DenseVector :=
  polynomial.dense.map DenseVector.ofNumbers

end TrigAlgebra
