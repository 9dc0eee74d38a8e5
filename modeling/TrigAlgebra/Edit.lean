/-
This file describes operations in place: what one leaves behind is known also when it fails.
-/

import TrigAlgebra.Fault

namespace TrigAlgebra

/-- The way an operation in place ended and the content it left. -/
structure Edit (S : Type) where
  outcome : Except Fault Unit
  content : S

namespace Edit

variable {S T : Type}

def done (content : S) : Edit S := ⟨.ok (), content⟩

def failed (fault : Fault) (content : S) : Edit S := ⟨.error fault, content⟩

/-- The new content is kept only if it could be computed. -/
def ofResult (old : S) : Except Fault S → Edit S
  | .ok new => done new
  | .error fault => failed fault old

/-- An operation on a copy shows its content only when it succeeds. -/
def result (edit : Edit S) : Except Fault S :=
  edit.outcome.map fun _ => edit.content

/-- An operation on a part is one on the whole. -/
def map (embed : S → T) (edit : Edit S) : Edit T :=
  ⟨edit.outcome, embed edit.content⟩

/-- The second change is made only if the operation has succeeded. -/
def followedBy (edit : Edit S) (change : S → S) : Edit S :=
  match edit.outcome with
  | .ok () => done (change edit.content)
  | .error fault => failed fault edit.content

end Edit

end TrigAlgebra
