/-
This file keeps, in order of insertion, which variables stand for the sine and the cosine of which
angle.
-/

import TrigAlgebra.Circular

namespace TrigAlgebra

/-- The variables that stand for the sine and the cosine of one angle. -/
structure Placeholders where
  sine : Int
  cosine : Int
deriving DecidableEq

def Placeholders.of (placeholders : Placeholders) : Circular → Int
  | .sine => placeholders.sine
  | .cosine => placeholders.cosine

structure AngleMap where
  entries : List (Int × Placeholders)
  distinct : (entries.map Prod.fst).Nodup

namespace AngleMap

def empty : AngleMap := ⟨[], .nil⟩

/-- An angle that is already there keeps its place. -/
def setEntry (angle : Int) (placeholders : Placeholders) :
    List (Int × Placeholders) → List (Int × Placeholders)
  | [] => [(angle, placeholders)]
  | head :: rest =>
      if head.1 = angle then (angle, placeholders) :: rest
      else head :: setEntry angle placeholders rest

theorem mem_angles_setEntry (angle : Int) (placeholders : Placeholders)
    (entries : List (Int × Placeholders)) (other : Int) :
    other ∈ (setEntry angle placeholders entries).map Prod.fst ↔
      other = angle ∨ other ∈ entries.map Prod.fst := by
  induction entries with
  | nil => simp [setEntry]
  | cons head rest hypothesis =>
      simp only [setEntry]
      split
      · rename_i same
        simp [same]
      · simp only [List.map_cons, List.mem_cons, hypothesis]
        constructor <;> rintro (first | second | third) <;> simp_all

theorem distinct_setEntry (angle : Int) (placeholders : Placeholders)
    {entries : List (Int × Placeholders)} (distinct : (entries.map Prod.fst).Nodup) :
    ((setEntry angle placeholders entries).map Prod.fst).Nodup := by
  induction entries with
  | nil => simp [setEntry]
  | cons head rest hypothesis =>
      rw [List.map_cons, List.nodup_cons] at distinct
      simp only [setEntry]
      split
      · rename_i same
        rw [List.map_cons, List.nodup_cons]
        exact ⟨same ▸ distinct.1, distinct.2⟩
      · rename_i different
        rw [List.map_cons, List.nodup_cons, mem_angles_setEntry]
        exact ⟨fun either => either.elim different distinct.1, hypothesis distinct.2⟩

def set (angles : AngleMap) (angle : Int) (placeholders : Placeholders) : AngleMap :=
  ⟨setEntry angle placeholders angles.entries, distinct_setEntry angle placeholders angles.distinct⟩

/-- Of two entries for one angle the later one counts. -/
def ofList (entries : List (Int × Placeholders)) : AngleMap :=
  entries.foldl (fun angles entry => angles.set entry.1 entry.2) empty

/-- The entries of the second map win. -/
def update (angles other : AngleMap) : AngleMap :=
  other.entries.foldl (fun angles entry => angles.set entry.1 entry.2) angles

def find? (angles : AngleMap) (angle : Int) : Option Placeholders :=
  (angles.entries.find? fun entry => entry.1 == angle).map Prod.snd

/-- The order of the entries does not matter. -/
def same (first second : AngleMap) : Bool :=
  first.entries.length == second.entries.length &&
    first.entries.all fun entry => second.find? entry.1 == some entry.2

end AngleMap

end TrigAlgebra
