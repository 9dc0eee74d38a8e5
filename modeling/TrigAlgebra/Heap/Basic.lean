/-
This file models the memory of a session. Lists of monomials, polynomials that point to a list, and angle
maps are kept at places of their own and change in place, so that two owners can come to share one.
-/

import TrigAlgebra.Number.Coefficient
import TrigAlgebra.Traced
import TrigAlgebra.TrigPolynomial.Basic

namespace TrigAlgebra

/-- Where something is kept in the memory. -/
abbrev Place : Type := Nat

/-- What a polynomial consists of: the place of its list of monomials, and its flag. -/
structure PolynomialCell where
  list : Place
  univariate : Bool

/-- What a trigonometric polynomial consists of: the places of its polynomial and of its angles. -/
structure TrigPlace where
  polynomial : Place
  angles : Place

/-- Lists, polynomials and maps are each numbered on their own. -/
structure Heap where
  lists : Array (List (Monomial Number)) := #[]
  polynomials : Array PolynomialCell := #[]
  maps : Array AngleMap := #[]

namespace Heap

/-- A place that holds nothing does not arise. -/
def cell (heap : Heap) (place : Place) : PolynomialCell :=
  heap.polynomials[place]?.getD ⟨0, true⟩

/-- The polynomial as the memory has it now. -/
def polynomial (heap : Heap) (place : Place) : Polynomial Number :=
  ⟨heap.lists[(heap.cell place).list]?.getD [], (heap.cell place).univariate⟩

def angles (heap : Heap) (place : Place) : AngleMap :=
  heap.maps[place]?.getD .empty

def trig (heap : Heap) (place : TrigPlace) : TrigPolynomial Number :=
  ⟨heap.polynomial place.polynomial, heap.angles place.angles⟩

/-- The list itself changes, for everyone who points to it. -/
def writeList (heap : Heap) (place : Place) (monomials : List (Monomial Number)) : Heap :=
  { heap with lists := heap.lists.setIfInBounds (heap.cell place).list monomials }

/-- The polynomial points to another list, and the list from before stays as it is. -/
def pointTo (heap : Heap) (place list : Place) : Heap :=
  { heap with polynomials := heap.polynomials.setIfInBounds place ⟨list, (heap.cell place).univariate⟩ }

/-- The flag changes, and the list stays. -/
def writeFlag (heap : Heap) (place : Place) (flag : Bool) : Heap :=
  { heap with polynomials := heap.polynomials.setIfInBounds place ⟨(heap.cell place).list, flag⟩ }

def writeAngles (heap : Heap) (place : Place) (angles : AngleMap) : Heap :=
  { heap with maps := heap.maps.setIfInBounds place angles }

end Heap

/-- How a program ended, and the memory it left. -/
structure Ended (A : Type) where
  heap : Heap
  traced : Traced A

/-- A program keeps what it has written also when it fails. -/
def Program (A : Type) : Type := Heap → Ended A

namespace Program

variable {A B : Type}

/-- The second program runs in the memory that the first one left, unless that one failed. -/
def bind (first : Program A) (next : A → Program B) : Program B := fun heap =>
  let ended := first heap
  match ended.traced.outcome with
  | .ok value =>
      let rest := next value ended.heap
      ⟨rest.heap, ended.traced.notes ++ rest.traced.notes, rest.traced.outcome⟩
  | .error fault => ⟨ended.heap, ended.traced.notes, .error fault⟩

instance : Monad Program where
  pure value := fun heap => ⟨heap, pure value⟩
  bind := Program.bind

instance : MonadLift Traced Program where
  monadLift traced := fun heap => ⟨heap, traced⟩

instance : MonadLift (Except Fault) Program where
  monadLift result := fun heap => ⟨heap, .ofResult result⟩

def fail (fault : Fault) : Program A := fun heap => ⟨heap, .ofResult (.error fault)⟩

def read (look : Heap → A) : Program A := fun heap => ⟨heap, pure (look heap)⟩

/-- A change of the memory that cannot fail. -/
def write (change : Heap → Heap) : Program Unit := fun heap => ⟨change heap, pure ()⟩

/-- A list at a place that nothing points to. -/
def newList (monomials : List (Monomial Number)) : Program Place := fun heap =>
  ⟨{ heap with lists := heap.lists.push monomials }, pure heap.lists.size⟩

def newCell (cell : PolynomialCell) : Program Place := fun heap =>
  ⟨{ heap with polynomials := heap.polynomials.push cell }, pure heap.polynomials.size⟩

def newAngles (angles : AngleMap) : Program Place := fun heap =>
  ⟨{ heap with maps := heap.maps.push angles }, pure heap.maps.size⟩

end Program

end TrigAlgebra
