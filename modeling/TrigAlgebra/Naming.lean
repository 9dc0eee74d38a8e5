/-
This file packs a short name and a positive index into one even integer, and reads them back.
-/

import TrigAlgebra.Text.Numeral

namespace TrigAlgebra

/-- The standard table is the one with the default fields. -/
structure NamingTable where
  alphabet : String := "@#_.abcdefghijklmnopqrstuvwxyz"
  maxNameLength : Nat := 4
  maxVariable : Int := 0xffffffff
deriving Repr

/-- This integer stands for no variable. -/
def noVariable : Int := 0

namespace NamingTable

/-- The digit zero marks an unused position of a name. -/
def radix (table : NamingTable) : Nat :=
  table.alphabet.toList.length + 1

def maxNamePart (table : NamingTable) : Nat :=
  table.radix.pow table.maxNameLength

/-- The quotient is rounded down, so a negative bound admits no index. -/
def maxIndex (table : NamingTable) : Int :=
  table.maxVariable / 2 / table.maxNamePart

def isName (table : NamingTable) (name : String) : Bool :=
  !name.toList.isEmpty && name.toList.all table.alphabet.toList.contains

/-- The positional value of a name, most significant letter first. -/
def namePart (table : NamingTable) (letters : List Char) : Nat :=
  letters.foldl
    (fun value letter => value * table.radix + (table.alphabet.toList.idxOf letter + 1)) 0

/-- A refusal shows the index, and one for its size also the largest index. -/
def encode (table : NamingTable) (name : String) (index : Int) : Except Fault Int :=
  let namePart := table.namePart name.toList
  if !table.isName name then .error (.invalidName (.text name))
  else if table.maxNamePart < namePart then .error (.nameTooLong name)
  else if index < 1 then .error ((Fault.indexBelowOne index).showing [index])
  else if table.maxIndex < index then
    .error ((Fault.indexTooLarge index table.maxIndex).showing [index, table.maxIndex])
  else .ok (2 * (namePart + table.maxNamePart * (index - 1)))

/-- Only text can be a name. -/
def encodeLabel (table : NamingTable) (label : Label) (index : Int) : Except Fault Int :=
  match label with
  | .text name => table.encode name index
  | .integer value => .error ((Fault.invalidName label).showing [value])
  | .nothing => .error (.invalidName label)

def isNameLabel (table : NamingTable) : Label → Bool
  | .text name => table.isName name
  | _ => false

/-- The letters of a positional value, unless a digit below a used position is zero. -/
def letters? (alphabet : List Char) (value : Nat) : Option (List Char) :=
  if value = 0 then some []
  else if alphabet = [] then none
  else
    match value % (alphabet.length + 1) with
    | 0 => none
    | digit + 1 =>
      match alphabet[digit]?, letters? alphabet (value / (alphabet.length + 1)) with
      | some letter, some higher => some (higher ++ [letter])
      | _, _ => none
termination_by value
decreasing_by
  have positive : 0 < alphabet.length := List.length_pos_iff.mpr (by assumption)
  exact Nat.div_lt_self (by omega) (by omega)

/-- Every refusal shows the variable. -/
def decode (table : NamingTable) (var : Int) : Except Fault (String × Int) :=
  if var ≤ noVariable ∨ var % 2 ≠ 0 then .error ((Fault.invalidVariable var).showing [var])
  else
    let half := var.toNat / 2
    let index := half / table.maxNamePart + 1
    if table.maxIndex < index then .error ((Fault.variableTooLarge var).showing [var])
    else
      match letters? table.alphabet.toList (half % table.maxNamePart) with
      | none | some [] => .error ((Fault.namelessVariable var).showing [var])
      | some letters => .ok (String.ofList letters, index)

/-- The name is followed by its index. -/
def render (table : NamingTable) (var : Int) : Except Fault String := do
  let (name, index) ← table.decode var
  return name ++ (← Text.writeLimited index)

/-- An absent index counts as one. -/
def split (table : NamingTable) (text : String) : Except Fault (String × Int) :=
  let reversed := text.toList.reverse
  let stem := String.ofList (reversed.dropWhile Char.isDigit).reverse
  let digits := (reversed.takeWhile Char.isDigit).reverse
  if !table.isName stem then .error (.invalidName (.text text))
  else if digits.isEmpty then .ok (stem, 1)
  else (Text.readNumeral digits).map fun index => (stem, (index : Int))

end NamingTable

end TrigAlgebra
