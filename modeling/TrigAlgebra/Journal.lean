/-
This file decides which records a journal shows at a chosen level.
-/

import TrigAlgebra.Fault

namespace TrigAlgebra.Journal

/-- A record is shown at its own level and below. -/
def debug : Int := 10

def info : Int := 20

/-- The names of the levels; some levels have two. -/
def levels : List (String × Int) :=
  [("CRITICAL", 50), ("FATAL", 50), ("ERROR", 40), ("WARN", 30), ("WARNING", 30), ("INFO", info),
    ("DEBUG", debug), ("NOTSET", 0)]

/-- A level is asked for by number or by name. -/
def level : Label → Except Fault Int
  | .integer level => .ok level
  | .text name =>
      match levels.lookup name with
      | some level => .ok level
      | none => .error (.unknownLevel name)
  | .nothing => .error .levelMissing

/-- The level zero leaves the decision to the surroundings, which show information. -/
def effective (level : Int) : Int := if level = 0 then info else level

def isShown (level record : Int) : Bool := effective level ≤ record

/-- The notes of a run, all of them for debugging. -/
def shown (level : Int) (notes : List String) : List String :=
  if isShown level debug then notes else []

end TrigAlgebra.Journal
