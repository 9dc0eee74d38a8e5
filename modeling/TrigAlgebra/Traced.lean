/-
This file describes computations that write notes, which stay also when a computation fails.
-/

import TrigAlgebra.Fault

namespace TrigAlgebra

structure Traced (A : Type) where
  notes : List String
  outcome : Except Fault A

namespace Traced

variable {A B : Type}

def bind (first : Traced A) (next : A → Traced B) : Traced B :=
  match first.outcome with
  | .ok value => ⟨first.notes ++ (next value).notes, (next value).outcome⟩
  | .error fault => ⟨first.notes, .error fault⟩

instance : Monad Traced where
  pure value := ⟨[], .ok value⟩
  bind := Traced.bind

def ofResult (result : Except Fault A) : Traced A := ⟨[], result⟩

instance : MonadLift (Except Fault) Traced where
  monadLift := ofResult

def note (text : String) : Traced Unit := ⟨[text], .ok ()⟩

@[simp] theorem outcome_pure (value : A) : (pure value : Traced A).outcome = .ok value := rfl

@[simp] theorem outcome_ofResult (result : Except Fault A) : (ofResult result).outcome = result :=
  rfl

@[simp] theorem outcome_note (text : String) : (note text).outcome = .ok () := rfl

/-- The outcome of a sequence depends only on the outcomes of its parts. -/
@[simp] theorem outcome_bind (first : Traced A) (next : A → Traced B) :
    (first >>= next).outcome = first.outcome.bind fun value => (next value).outcome := by
  change (Traced.bind first next).outcome = _
  unfold Traced.bind
  cases first.outcome <;> rfl

end Traced

end TrigAlgebra
