/-
This file says what a program changes in memory. As long as no two polynomials point to one list, a
change to one polynomial leaves all others as they are.
-/

import Mathlib.Order.Nat
import TrigAlgebra.Heap.Polynomials
import TrigAlgebra.Proofs.Results

namespace TrigAlgebra

namespace Heap

/-- Every polynomial has a list of its own. -/
structure Unshared (heap : Heap) : Prop where
  inside : ∀ place < heap.polynomials.size, (heap.cell place).list < heap.lists.size
  apart : ∀ first < heap.polynomials.size, ∀ second < heap.polynomials.size,
    (heap.cell first).list = (heap.cell second).list → first = second

theorem unshared_empty : Unshared {} :=
  ⟨fun _ absurd => (Nat.not_lt_zero _ absurd).elim, fun _ absurd => (Nat.not_lt_zero _ absurd).elim⟩

/-- No list is shared afterwards, and all polynomials and maps from before are what they were, but for
those that may have changed. -/
structure Keeps (changed changedMap : Option Place) (heap after : Heap) : Prop where
  unshared : after.Unshared
  polynomials_le : heap.polynomials.size ≤ after.polynomials.size
  maps_le : heap.maps.size ≤ after.maps.size
  polynomial_eq : ∀ place < heap.polynomials.size, some place ≠ changed →
    after.polynomial place = heap.polynomial place
  angles_eq : ∀ place < heap.maps.size, some place ≠ changedMap → after.angles place = heap.angles place

variable {heap middle after : Heap} {changed changedMap : Option Place} {place other : Place}
  {monomials : List (Monomial Number)}

/-- Nothing happens to a memory that stays as it is. -/
theorem Unshared.keeps (unshared : heap.Unshared) : Keeps changed changedMap heap heap :=
  ⟨unshared, Nat.le_refl _, Nat.le_refl _, fun _ _ _ => rfl, fun _ _ _ => rfl⟩

/-- Two stretches that touch the same places are one. -/
theorem Keeps.trans (first : Keeps changed changedMap heap middle)
    (second : Keeps changed changedMap middle after) : Keeps changed changedMap heap after where
  unshared := second.unshared
  polynomials_le := first.polynomials_le.trans second.polynomials_le
  maps_le := first.maps_le.trans second.maps_le
  polynomial_eq place inside other :=
    (second.polynomial_eq place (inside.trans_le first.polynomials_le) other).trans
      (first.polynomial_eq place inside other)
  angles_eq place inside other :=
    (second.angles_eq place (inside.trans_le first.maps_le) other).trans (first.angles_eq place inside other)

theorem Keeps.weakenMap (keeps : Keeps changed none heap after) : Keeps changed changedMap heap after :=
  ⟨keeps.unshared, keeps.polynomials_le, keeps.maps_le, keeps.polynomial_eq,
    fun place inside _ => keeps.angles_eq place inside (Option.some_ne_none place)⟩

/-- A change to what is new leaves all as it was. -/
theorem Keeps.trans_new (first : Keeps none none heap middle) (second : Keeps changed changedMap middle after)
    (isNew : ∀ place ∈ changed, heap.polynomials.size ≤ place)
    (isNewMap : ∀ place ∈ changedMap, heap.maps.size ≤ place) : Keeps none none heap after where
  unshared := second.unshared
  polynomials_le := first.polynomials_le.trans second.polynomials_le
  maps_le := first.maps_le.trans second.maps_le
  polynomial_eq place inside _ := by
    have same := first.polynomial_eq place inside (Option.some_ne_none place)
    refine (second.polynomial_eq place (inside.trans_le first.polynomials_le) fun isChanged => ?_).trans same
    exact Nat.not_lt.2 (isNew place isChanged.symm) inside
  angles_eq place inside _ := by
    have same := first.angles_eq place inside (Option.some_ne_none place)
    refine (second.angles_eq place (inside.trans_le first.maps_le) fun isChanged => ?_).trans same
    exact Nat.not_lt.2 (isNewMap place isChanged.symm) inside

/-- A polynomial is what its cell and its list say. -/
theorem polynomial_eq_of_cell (cells : after.cell other = heap.cell other)
    (lists : after.lists[(heap.cell other).list]? = heap.lists[(heap.cell other).list]?) :
    after.polynomial other = heap.polynomial other := by
  rw [Heap.polynomial, Heap.polynomial, cells, lists]

/-- Only the owner of the list sees that it changed, since no other cell points to it. -/
theorem keeps_writeList (unshared : heap.Unshared) (inside : place < heap.polynomials.size) :
    Keeps (some place) none heap (heap.writeList place monomials) where
  unshared := ⟨fun other isOther => (unshared.inside other isOther).trans_eq Array.size_setIfInBounds.symm,
    unshared.apart⟩
  polynomials_le := Nat.le_refl _
  maps_le := Nat.le_refl _
  polynomial_eq other isOther different := by
    refine polynomial_eq_of_cell rfl (Array.getElem?_setIfInBounds_ne fun same => different ?_)
    exact congrArg some (unshared.apart place inside other isOther same).symm
  angles_eq _ _ _ := rfl

/-- The owner has the new monomials and its old flag. -/
theorem polynomial_writeList (unshared : heap.Unshared) (inside : place < heap.polynomials.size) :
    (heap.writeList place monomials).polynomial place = ⟨monomials, (heap.polynomial place).univariate⟩ := by
  have written : (heap.writeList place monomials).lists[(heap.cell place).list]? = some monomials :=
    Array.getElem?_setIfInBounds_self_of_lt (unshared.inside place inside)
  rw [Heap.polynomial]
  change (⟨(heap.writeList place monomials).lists[(heap.cell place).list]?.getD [], _⟩ : Polynomial Number) = _
  rw [written]
  rfl

/-- A list that nothing points to yet. -/
def withList (heap : Heap) (monomials : List (Monomial Number)) : Heap :=
  { heap with lists := heap.lists.push monomials }

/-- The polynomial points to a list that is new. -/
def assigned (heap : Heap) (place : Place) (monomials : List (Monomial Number)) : Heap :=
  (heap.withList monomials).pointTo place heap.lists.size

theorem cell_pointTo_self {list : Place} (inside : place < heap.polynomials.size) :
    (heap.pointTo place list).cell place = ⟨list, (heap.cell place).univariate⟩ := by
  have written := Array.getElem?_setIfInBounds_self_of_lt
    (a := (⟨list, (heap.cell place).univariate⟩ : PolynomialCell)) inside
  rw [Heap.cell, pointTo, written]
  rfl

theorem cell_pointTo_ne {list : Place} (different : other ≠ place) :
    (heap.pointTo place list).cell other = heap.cell other := by
  rw [Heap.cell, pointTo, Array.getElem?_setIfInBounds_ne different.symm]
  rfl

/-- If one cell points to a list that is new, and all others point where they did, no list is shared. -/
theorem Unshared.repoint (unshared : heap.Unshared) (lists : after.lists.size = heap.lists.size + 1)
    (self : (after.cell place).list = heap.lists.size)
    (others : ∀ other < after.polynomials.size, other ≠ place →
      other < heap.polynomials.size ∧ after.cell other = heap.cell other) : after.Unshared := by
  have old (other : Place) (isOther : other < after.polynomials.size) (different : other ≠ place) :
      (after.cell other).list < heap.lists.size := by
    obtain ⟨inside, same⟩ := others other isOther different
    rw [same]
    exact unshared.inside other inside
  refine ⟨fun other isOther => ?_, fun first isFirst second isSecond same => ?_⟩
  · rw [lists]
    by_cases isPlace : other = place
    · rw [isPlace, self]
      exact Nat.lt_succ_self _
    · exact Nat.lt_succ_of_lt (old other isOther isPlace)
  · by_cases firstPlace : first = place
    · by_cases secondPlace : second = place
      · rw [firstPlace, secondPlace]
      · rw [firstPlace, self] at same
        exact absurd same.symm (old second isSecond secondPlace).ne
    · by_cases secondPlace : second = place
      · rw [secondPlace, self] at same
        exact absurd same (old first isFirst firstPlace).ne
      · obtain ⟨firstInside, firstSame⟩ := others first isFirst firstPlace
        obtain ⟨secondInside, secondSame⟩ := others second isSecond secondPlace
        rw [firstSame, secondSame] at same
        exact unshared.apart first firstInside second secondInside same

/-- One more list is not seen by those who point to the lists from before. -/
theorem polynomial_eq_of_push (unshared : heap.Unshared) (isOther : other < heap.polynomials.size)
    (cells : after.cell other = heap.cell other) (lists : after.lists = heap.lists.push monomials) :
    after.polynomial other = heap.polynomial other := by
  have inside := unshared.inside other isOther
  refine polynomial_eq_of_cell cells ?_
  rw [lists, Array.getElem?_push_lt inside, Array.getElem?_eq_getElem inside]

/-- A new list is no other polynomial's list. -/
theorem keeps_assigned (unshared : heap.Unshared) (inside : place < heap.polynomials.size) :
    Keeps (some place) none heap (heap.assigned place monomials) where
  unshared := unshared.repoint (Array.size_push _) (congrArg PolynomialCell.list (cell_pointTo_self inside))
    fun _ isOther different => ⟨isOther.trans_eq Array.size_setIfInBounds, cell_pointTo_ne different⟩
  polynomials_le := Array.size_setIfInBounds.ge
  maps_le := Nat.le_refl _
  polynomial_eq _ isOther different :=
    polynomial_eq_of_push unshared isOther (cell_pointTo_ne fun same => different (congrArg some same)) rfl
  angles_eq _ _ _ := rfl

/-- The polynomial has the monomials of the new list and its old flag. -/
theorem polynomial_assigned (inside : place < heap.polynomials.size) :
    (heap.assigned place monomials).polynomial place = ⟨monomials, (heap.polynomial place).univariate⟩ := by
  have self : (heap.assigned place monomials).cell place = ⟨heap.lists.size, (heap.cell place).univariate⟩ :=
    cell_pointTo_self inside
  have list : (heap.assigned place monomials).lists[heap.lists.size]? = some monomials :=
    Array.getElem?_push_size
  rw [Heap.polynomial, self, list]
  rfl

theorem cell_writeFlag_self {flag : Bool} (inside : place < heap.polynomials.size) :
    (heap.writeFlag place flag).cell place = ⟨(heap.cell place).list, flag⟩ := by
  rw [Heap.cell, writeFlag, Array.getElem?_setIfInBounds_self_of_lt inside]
  rfl

theorem cell_writeFlag_ne {flag : Bool} (different : other ≠ place) :
    (heap.writeFlag place flag).cell other = heap.cell other := by
  rw [Heap.cell, writeFlag, Array.getElem?_setIfInBounds_ne different.symm]
  rfl

/-- The flag belongs to one cell and no list. -/
theorem keeps_writeFlag (unshared : heap.Unshared) (inside : place < heap.polynomials.size) (flag : Bool) :
    Keeps (some place) none heap (heap.writeFlag place flag) := by
  have size : (heap.writeFlag place flag).polynomials.size = heap.polynomials.size := Array.size_setIfInBounds
  have lists (other : Place) : ((heap.writeFlag place flag).cell other).list = (heap.cell other).list := by
    by_cases isPlace : other = place
    · rw [isPlace, cell_writeFlag_self inside]
    · rw [cell_writeFlag_ne isPlace]
  refine ⟨⟨fun other isOther => ?_, fun first isFirst second isSecond same => ?_⟩, size.ge, Nat.le_refl _,
    fun other isOther different => ?_, fun _ _ _ => rfl⟩
  · rw [lists]
    exact unshared.inside other (size ▸ isOther)
  · rw [lists, lists] at same
    exact unshared.apart first (size ▸ isFirst) second (size ▸ isSecond) same
  · exact polynomial_eq_of_cell (cell_writeFlag_ne fun same => different (congrArg some same)) rfl

theorem polynomial_writeFlag (inside : place < heap.polynomials.size) (flag : Bool) :
    (heap.writeFlag place flag).polynomial place = ⟨(heap.polynomial place).monomials, flag⟩ := by
  rw [Heap.polynomial, cell_writeFlag_self inside]
  rfl

/-- A polynomial without monomials at the first free place. -/
def withPolynomial (heap : Heap) : Heap :=
  { heap with lists := heap.lists.push [], polynomials := heap.polynomials.push ⟨heap.lists.size, true⟩ }

theorem size_withPolynomial : heap.withPolynomial.polynomials.size = heap.polynomials.size + 1 :=
  Array.size_push _

theorem cell_withPolynomial_self :
    heap.withPolynomial.cell heap.polynomials.size = ⟨heap.lists.size, true⟩ := by
  rw [Heap.cell, withPolynomial, Array.getElem?_push_size]
  rfl

theorem cell_withPolynomial_of_lt (isOther : other < heap.polynomials.size) :
    heap.withPolynomial.cell other = heap.cell other := by
  rw [Heap.cell, withPolynomial, Array.getElem?_push_lt isOther, Heap.cell, Array.getElem?_eq_getElem isOther]

/-- A new polynomial has a list that no older one points to. -/
theorem keeps_withPolynomial (unshared : heap.Unshared) : Keeps none none heap heap.withPolynomial where
  unshared := unshared.repoint (Array.size_push _) (congrArg PolynomialCell.list cell_withPolynomial_self)
    fun other isOther different => by
      have isOld := Nat.lt_of_le_of_ne (Nat.lt_succ_iff.1 (isOther.trans_eq size_withPolynomial)) different
      exact ⟨isOld, cell_withPolynomial_of_lt isOld⟩
  polynomials_le := size_withPolynomial ▸ Nat.le_succ _
  maps_le := Nat.le_refl _
  polynomial_eq _ isOther _ := polynomial_eq_of_push unshared isOther (cell_withPolynomial_of_lt isOther) rfl
  angles_eq _ _ _ := rfl

/-- The new polynomial is empty. -/
theorem polynomial_withPolynomial : heap.withPolynomial.polynomial heap.polynomials.size = .zero := by
  have list : heap.withPolynomial.lists[heap.lists.size]? = some [] := Array.getElem?_push_size
  rw [Heap.polynomial, cell_withPolynomial_self, list]
  rfl

def withAngles (heap : Heap) (angles : AngleMap) : Heap := { heap with maps := heap.maps.push angles }

/-- A new map is at a place of its own. -/
theorem keeps_withAngles (unshared : heap.Unshared) (angles : AngleMap) :
    Keeps none none heap (heap.withAngles angles) where
  unshared := ⟨unshared.inside, unshared.apart⟩
  polynomials_le := Nat.le_refl _
  maps_le := (Nat.le_succ _).trans_eq (Array.size_push _).symm
  polynomial_eq _ _ _ := rfl
  angles_eq place inside _ := by
    rw [Heap.angles, withAngles, Array.getElem?_push_lt inside, Heap.angles, Array.getElem?_eq_getElem inside]

theorem angles_withAngles (angles : AngleMap) :
    (heap.withAngles angles).angles heap.maps.size = angles := by
  rw [Heap.angles, withAngles, Array.getElem?_push_size]
  rfl

/-- The maps at all other places stay. -/
theorem keeps_writeAngles (unshared : heap.Unshared) (angles : AngleMap) :
    Keeps changed (some place) heap (heap.writeAngles place angles) where
  unshared := ⟨unshared.inside, unshared.apart⟩
  polynomials_le := Nat.le_refl _
  maps_le := Array.size_setIfInBounds.ge
  polynomial_eq _ _ _ := rfl
  angles_eq other inside different := by
    rw [Heap.angles, writeAngles, Array.getElem?_setIfInBounds_ne fun same => different (congrArg some same.symm)]
    rfl

theorem angles_writeAngles (inside : place < heap.maps.size) (angles : AngleMap) :
    (heap.writeAngles place angles).angles place = angles := by
  rw [Heap.angles, writeAngles, Array.getElem?_setIfInBounds_self_of_lt inside]
  rfl

end Heap

end TrigAlgebra
