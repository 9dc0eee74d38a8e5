/-
This file computes digests of numbers, factors and monomials. Equal values have equal digests.
-/

import TrigAlgebra.Monomial
import TrigAlgebra.Number.Basic
import TrigAlgebra.Word

namespace TrigAlgebra

namespace Digest

/-- The binary digits of a residue. -/
def residueBits : Int := 61

/-- Numbers are taken modulo this prime, which has `residueBits` binary digits, all of them one. -/
def modulus : Nat := 0x1fffffffffffffff

/-- No digest is minus one. -/
def reserve (digest : Int) : Int := if digest = -1 then -2 else digest

/-- A power of two is one modulo the prime when its exponent is a multiple of `residueBits`. -/
def finite (mantissa exponent : Int) : Int :=
  let size := (mantissa.natAbs <<< (exponent % residueBits).toNat) % modulus
  reserve (BigFloat.signedNat (mantissa < 0) size)

def infinite : Nat := 314159

def ofBigFloat : BigFloat → Int
  | .finite mantissa exponent => finite mantissa exponent
  | .infinite negative => BigFloat.signedNat negative infinite
  | .undefined => 0

/-- The factor of an imaginary part. -/
def imaginaryWeight : Int := 1000003

def ofBigComplex (value : BigComplex) : Int :=
  reserve (Word.wrapSigned (ofBigFloat value.re + imaginaryWeight * ofBigFloat value.im))

/-- The start of a sequence. -/
def start : Int := 2870177450012600261

/-- The 31 high binary digits of a word move below its 33 low ones. -/
def rotate (word : Nat) : Nat := (word <<< 31 + word >>> 33) % Word.count.toNat

/-- One step mixes the next digest of a sequence into the word so far. -/
def mix (word digest : Int) : Int :=
  let sum := Word.wrapUnsigned (word + digest * 14029467366897019727)
  Word.wrapUnsigned (rotate sum.toNat * 11400714785074694791)

/-- The count of a sequence is added to the mixed word. -/
def ofList (digests : List Int) : Int :=
  let word := digests.foldl mix start
  let count := Nat.xor digests.length (Nat.xor start.toNat 3527539)
  let sum := Word.wrapSigned (word + count)
  if sum = -1 then 1546275796 else sum

end Digest

def Number.digest (value : Number) : Int := Digest.ofBigComplex value.toBigComplex

def Factor.digest (factor : Factor) : Int :=
  Digest.ofList [(Number.integer factor.var).digest, (Number.integer factor.power).digest]

def PowerProduct.digest (product : PowerProduct) : Int :=
  Digest.ofList (product.factors.map Factor.digest)

def Monomial.digest (monomial : Monomial Number) : Int :=
  Digest.ofList [monomial.coefficient.digest, monomial.powers.digest]

end TrigAlgebra
