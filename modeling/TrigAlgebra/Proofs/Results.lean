/-
This file takes computations that may fail apart: when one succeeds, so did all its parts, and when
one fails, a part of it did.
-/

import Mathlib.Data.List.Forall2
import TrigAlgebra.Traced

namespace TrigAlgebra

variable {A B : Type}

instance (result : Except Fault A) : Decidable (∃ value, result = .ok value) :=
  match result with
  | .ok value => .isTrue ⟨value, rfl⟩
  | .error _ => .isFalse fun ⟨_, absurd⟩ => (nomatch absurd)

/-- A change of the value succeeds where the computation does. -/
theorem map_eq_ok {result : Except Fault A} {change : A → B} {value : B} :
    result.map change = .ok value ↔ ∃ part, result = .ok part ∧ change part = value := by
  cases result <;> simp [Except.map]

/-- A change of the value does not change a fault. -/
theorem map_eq_error {result : Except Fault A} {change : A → B} {fault : Fault} :
    result.map change = .error fault ↔ result = .error fault := by
  cases result <;> simp [Except.map]

/-- A sequence succeeds if both parts do. -/
theorem bind_eq_ok {result : Except Fault A} {next : A → Except Fault B} {value : B} :
    result >>= next = .ok value ↔ ∃ part, result = .ok part ∧ next part = .ok value := by
  cases result <;> simp [bind, Except.bind]

/-- A sequence fails with the first part, or with the second one after the first has succeeded. -/
theorem bind_eq_error {result : Except Fault A} {next : A → Except Fault B} {fault : Fault} :
    result >>= next = .error fault ↔
      result = .error fault ∨ ∃ part, result = .ok part ∧ next part = .error fault := by
  cases result <;> simp [bind, Except.bind]

/-- A fault that neither part has is not one of the sequence. -/
theorem bind_ne_error {result : Except Fault A} {next : A → Except Fault B} {fault : Fault}
    (first : result ≠ .error fault) (later : ∀ part, result = .ok part → next part ≠ .error fault) :
    result >>= next ≠ .error fault := by
  intro failed
  rcases bind_eq_error.1 failed with early | ⟨part, returned, late⟩
  · exact first early
  · exact later part returned late

theorem pure_eq_ok {part value : A} : (pure part : Except Fault A) = .ok value ↔ part = value := by
  simp [pure, Except.pure]

theorem pure_ne_error {part : A} {fault : Fault} : (pure part : Except Fault A) ≠ .error fault := by
  simp [pure, Except.pure]

/-- A computation without notes has the outcome of the result. -/
theorem outcome_lift_eq_ok {result : Except Fault A} {value : A} :
    (liftM result : Traced A).outcome = .ok value ↔ result = .ok value :=
  Iff.rfl

theorem outcome_pure_eq_ok {part value : A} :
    (pure part : Traced A).outcome = .ok value ↔ part = value := by
  rw [Traced.outcome_pure, Except.ok.injEq]

/-- The outcome of a sequence is that of its second part, if the first one has succeeded. -/
theorem outcome_bind_eq_ok {first : Traced A} {next : A → Traced B} {value : B} :
    (first >>= next).outcome = .ok value ↔
      ∃ part, first.outcome = .ok part ∧ (next part).outcome = .ok value := by
  rw [Traced.outcome_bind]
  exact bind_eq_ok

/-- After a success the second part decides. -/
theorem outcome_bind_of_ok {first : Traced A} {next : A → Traced B} {part : A}
    (returned : first.outcome = .ok part) : (first >>= next).outcome = (next part).outcome := by
  rw [Traced.outcome_bind, returned]
  rfl

/-- After a fault nothing follows. -/
theorem outcome_bind_of_error {first : Traced A} {next : A → Traced B} {fault : Fault}
    (failed : first.outcome = .error fault) : (first >>= next).outcome = .error fault := by
  rw [Traced.outcome_bind, failed]
  rfl

/-- A list of computations succeeds if each does, and the values stand in the same order. -/
theorem mapM_eq_ok {step : A → Except Fault B} {list : List A} {values : List B} :
    list.mapM step = .ok values ↔ List.Forall₂ (fun part value => step part = .ok value) list values := by
  induction list generalizing values with
  | nil =>
      rw [List.mapM_nil, pure_eq_ok, List.forall₂_nil_left_iff]
      exact eq_comm
  | cons head rest hypothesis =>
      rw [List.mapM_cons, bind_eq_ok, List.forall₂_cons_left_iff]
      apply exists_congr
      intro value
      rw [bind_eq_ok, ← exists_and_left]
      apply exists_congr
      intro others
      rw [hypothesis, pure_eq_ok, @eq_comm _ (value :: others)]

/-- Every value of a sequence of steps comes from one of them. -/
theorem length_of_mapM {step : A → Except Fault B} {list : List A} {values : List B}
    (returned : list.mapM step = .ok values) : values.length = list.length :=
  (mapM_eq_ok.1 returned).length_eq.symm

/-- Every value comes from one of the parts. -/
theorem exists_of_mem_mapM {step : A → Except Fault B} {list : List A} {values : List B} {value : B}
    (returned : list.mapM step = .ok values) (member : value ∈ values) :
    ∃ part ∈ list, step part = .ok value := by
  have related := mapM_eq_ok.1 returned
  clear returned
  induction related with
  | nil => exact (List.not_mem_nil member).elim
  | cons head _ hypothesis =>
      rcases List.mem_cons.1 member with rfl | inRest
      · exact ⟨_, List.mem_cons_self, head⟩
      · obtain ⟨part, isPart, same⟩ := hypothesis inRest
        exact ⟨part, List.mem_cons_of_mem _ isPart, same⟩

/-- Steps that all succeed do so one after the other. -/
theorem exists_mapM_eq_ok {step : A → Except Fault B} {list : List A} {Holds : A → B → Prop}
    (each : ∀ part ∈ list, ∃ value, step part = .ok value ∧ Holds part value) :
    ∃ values, list.mapM step = .ok values ∧ List.Forall₂ Holds list values := by
  induction list with
  | nil => exact ⟨[], mapM_eq_ok.2 .nil, .nil⟩
  | cons head rest hypothesis =>
      rw [List.forall_mem_cons] at each
      obtain ⟨value, returned, holds⟩ := each.1
      obtain ⟨values, others, hold⟩ := hypothesis each.2
      exact ⟨value :: values, mapM_eq_ok.2 (.cons returned (mapM_eq_ok.1 others)), .cons holds hold⟩

/-- A sequence of steps returns when every step does. -/
theorem mapM_returns_iff {step : A → Except Fault B} {list : List A} :
    (∃ values, list.mapM step = .ok values) ↔ ∀ part ∈ list, ∃ value, step part = .ok value := by
  constructor
  · rintro ⟨values, returned⟩
    have related := mapM_eq_ok.1 returned
    clear returned
    induction related with
    | nil => exact List.forall_mem_nil _
    | cons head _ hypothesis => exact List.forall_mem_cons.2 ⟨⟨_, head⟩, hypothesis⟩
  · intro each
    have holds : ∀ part ∈ list, ∃ value, step part = .ok value ∧ True := fun part member =>
      (each part member).imp fun value returned => ⟨returned, trivial⟩
    obtain ⟨values, returned, -⟩ := exists_mapM_eq_ok holds
    exact ⟨values, returned⟩

/-- The first part that fails decides about the fault. -/
theorem mapM_cons_eq_error {step : A → Except Fault B} {head : A} {rest : List A} {fault : Fault} :
    (head :: rest).mapM step = .error fault ↔
      step head = .error fault ∨ (∃ value, step head = .ok value) ∧ rest.mapM step = .error fault := by
  rw [List.mapM_cons, bind_eq_error, ← exists_and_right]
  simp only [bind_eq_error, pure_ne_error, and_false, exists_false, or_false]

/-- A fault of a list of computations is one of them. -/
theorem mapM_eq_error {step : A → Except Fault B} {list : List A} {fault : Fault}
    (failed : list.mapM step = .error fault) : ∃ part ∈ list, step part = .error fault := by
  induction list with
  | nil => exact (pure_ne_error failed).elim
  | cons head rest hypothesis =>
      rcases mapM_cons_eq_error.1 failed with first | ⟨-, later⟩
      · exact ⟨head, List.mem_cons_self, first⟩
      · obtain ⟨part, member, fails⟩ := hypothesis later
        exact ⟨part, List.mem_cons_of_mem head member, fails⟩

end TrigAlgebra
