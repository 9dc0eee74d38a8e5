/-
This file reads and writes natural numbers in decimal digits.
-/

import TrigAlgebra.Fault

namespace TrigAlgebra.Text

/-- The digit stands for a value below ten. -/
def decimalDigit (value : Nat) : Char :=
  Char.ofNat ('0'.toNat + value)

/-- The digits start with a zero only for the number zero. -/
def decimalDigits (value : Nat) : List Char :=
  if value < 10 then [decimalDigit value]
  else decimalDigits (value / 10) ++ [decimalDigit (value % 10)]

def digitValue (character : Char) : Nat :=
  character.toNat - '0'.toNat

/-- The value of a text of decimal digits, leading zeros allowed. -/
def numeralValue (digits : List Char) : Nat :=
  digits.foldl (fun value character => 10 * value + digitValue character) 0

/-- The longest numeral that is read or written has this many digits. -/
def numeralLimit : Nat := 4300

def readNumeral (digits : List Char) : Except Fault Nat :=
  if numeralLimit < digits.length then .error (.numeralTooLong digits.length)
  else .ok (numeralValue digits)

def writeInteger (value : Int) : String :=
  if value < 0 then "-" ++ String.ofList (decimalDigits value.natAbs)
  else String.ofList (decimalDigits value.natAbs)

/-- An integer of too many digits is not written. -/
def writeLimited (value : Int) : Except Fault String :=
  if numeralLimit < (decimalDigits value.natAbs).length then .error .numeralUnwritten
  else .ok (writeInteger value)

/-- The sign of an integer that fits is not counted. -/
def Fits (value : Int) : Prop :=
  (decimalDigits value.natAbs).length ≤ numeralLimit

instance (value : Int) : Decidable (Fits value) :=
  inferInstanceAs (Decidable (_ ≤ _))

end TrigAlgebra.Text

namespace TrigAlgebra

/-- The integers are written into the message before the fault arises, so an integer that cannot be
written takes its place. -/
def Fault.showing (fault : Fault) (values : List Int) : Fault :=
  match values.mapM Text.writeLimited with
  | .ok _ => fault
  | .error unwritten => unwritten

end TrigAlgebra
