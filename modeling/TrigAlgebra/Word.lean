/-
This file wraps integers to machine words of 64 bits.
-/

namespace TrigAlgebra.Word

/-- The number of different words. -/
def count : Int := 0x10000000000000000

/-- Signed words lie below this bound, and not below its negative. -/
def signedBound : Int := 0x8000000000000000

def isSigned (value : Int) : Bool := -signedBound ≤ value && value < signedBound

def isUnsigned (value : Int) : Bool := 0 ≤ value && value < count

/-- The signed word with the same last 64 bits. -/
def wrapSigned (value : Int) : Int := (value + signedBound) % count - signedBound

/-- The unsigned word with the same last 64 bits. -/
def wrapUnsigned (value : Int) : Int := value % count

end TrigAlgebra.Word
