/-
This file proves that letters and their positional value determine each other: every letter counts
at least one, so no digit is zero, and the size of the value bounds the number of letters.
-/

import Mathlib.Algebra.Order.Ring.Nat
import Mathlib.Data.List.Induction
import Mathlib.Data.List.Nodup
import Mathlib.Data.Nat.Digits.Defs
import TrigAlgebra.Naming

namespace TrigAlgebra.NamingTable

variable {table : NamingTable} {letters : List Char} {letter : Char}

/-- All letters are in the alphabet. -/
def Spells (table : NamingTable) (letters : List Char) : Prop :=
  ∀ letter ∈ letters, letter ∈ table.alphabet.toList

theorem spells_append :
    table.Spells (letters ++ [letter]) ↔ table.Spells letters ∧ letter ∈ table.alphabet.toList := by
  unfold Spells
  rw [List.forall_mem_append, List.forall_mem_singleton]

/-- One more letter at the front is one more digit. -/
theorem namePart_append (letters : List Char) (letter : Char) :
    table.namePart (letters ++ [letter]) =
      table.namePart letters * table.radix + (table.alphabet.toList.idxOf letter + 1) := by
  rw [namePart, List.foldl_append]
  rfl

/-- Letters are digits below the radix. -/
theorem digit_lt_radix (member : letter ∈ table.alphabet.toList) :
    table.alphabet.toList.idxOf letter + 1 < table.radix :=
  Nat.succ_lt_succ (List.idxOf_lt_length_of_mem member)

/-- A name with letters is not packed into zero. -/
theorem namePart_pos (any : letters ≠ []) : 0 < table.namePart letters := by
  rcases List.eq_nil_or_concat' letters with rfl | ⟨others, last, rfl⟩
  · exact (any rfl).elim
  · rw [namePart_append]
    exact Nat.add_pos_right _ (Nat.succ_pos _)

/-- A name is packed below the power of the radix. -/
theorem namePart_lt (spelled : table.Spells letters) :
    table.namePart letters < table.radix ^ letters.length := by
  induction letters using List.reverseRecOn with
  | nil => exact Nat.one_pos
  | append_singleton letters letter hypothesis =>
      obtain ⟨others, member⟩ := spells_append.1 spelled
      have digit := digit_lt_radix member
      have below := Nat.mul_le_mul_right table.radix (hypothesis others)
      rw [Nat.succ_mul] at below
      rw [namePart_append, List.length_append, List.length_singleton, pow_succ]
      omega

/-- Even the smallest digits make the value of several letters large. -/
theorem pow_length_le (any : letters ≠ []) :
    table.radix ^ letters.length ≤ table.namePart letters * table.radix := by
  induction letters using List.reverseRecOn with
  | nil => exact (any rfl).elim
  | append_singleton letters letter hypothesis =>
      rw [List.length_append, List.length_singleton, pow_succ]
      apply Nat.mul_le_mul_right
      rw [namePart_append]
      by_cases none : letters = []
      · rw [none, List.length_nil, pow_zero]
        omega
      · exact (hypothesis none).trans (Nat.le_add_right _ _)

/-- Comparing the value with a power of the radix compares the number of letters. -/
theorem namePart_le_iff {limit : Nat} (positive : 1 ≤ limit) (spelled : table.Spells letters) :
    table.namePart letters ≤ table.radix ^ limit ↔ letters.length ≤ limit := by
  have grows {first second : Nat} (less : first ≤ second) :
      table.radix ^ first ≤ table.radix ^ second := Nat.pow_le_pow_right (Nat.succ_pos _) less
  constructor
  · intro small
    by_contra long
    rcases List.eq_nil_or_concat' letters with rfl | ⟨others, last, rfl⟩
    · exact long (Nat.zero_le limit)
    · rw [List.length_append, List.length_singleton] at long
      have several : others ≠ [] := List.ne_nil_of_length_pos (by omega)
      have large := (grows (by omega : limit ≤ others.length)).trans (pow_length_le several)
      rw [namePart_append] at small
      omega
  · intro short
    exact (namePart_lt spelled).le.trans (grows short)

theorem letters?_zero (alphabet : List Char) : letters? alphabet 0 = some [] := by
  unfold letters?
  exact if_pos rfl

/-- The letters of an alphabet spell a value that is read as these letters. -/
theorem letters?_namePart (spelled : table.Spells letters) :
    letters? table.alphabet.toList (table.namePart letters) = some letters := by
  induction letters using List.reverseRecOn with
  | nil => exact letters?_zero _
  | append_singleton letters letter hypothesis =>
      obtain ⟨others, member⟩ := spells_append.1 spelled
      have digit := digit_lt_radix member
      have inside := List.idxOf_lt_length_of_mem member
      have remainder : table.namePart (letters ++ [letter]) % (table.alphabet.toList.length + 1) =
          table.alphabet.toList.idxOf letter + 1 := by
        rw [namePart_append, ← radix, Nat.mul_add_mod_self_right, Nat.mod_eq_of_lt digit]
      have quotient : table.namePart (letters ++ [letter]) / (table.alphabet.toList.length + 1) =
          table.namePart letters := by
        rw [namePart_append, ← radix, add_comm, Nat.add_mul_div_right _ _ (Nat.zero_lt_of_lt digit),
          Nat.div_eq_of_lt digit, zero_add]
      have positive : 0 < table.namePart (letters ++ [letter]) :=
        namePart_pos (List.concat_ne_nil letter letters)
      unfold letters?
      rw [if_neg positive.ne', if_neg (List.ne_nil_of_mem member), remainder, quotient, hypothesis others]
      dsimp only
      rw [List.getElem?_eq_getElem inside, List.getElem_idxOf inside]

/-- Letters that were read spell the value, if no letter occurs twice in the alphabet. -/
theorem namePart_of_letters? (distinct : table.alphabet.toList.Nodup) {value : Nat}
    (read : letters? table.alphabet.toList value = some letters) :
    table.namePart letters = value ∧ table.Spells letters := by
  fun_induction letters? table.alphabet.toList value generalizing letters with
  | case1 =>
      cases read
      exact ⟨rfl, fun _ absurd => (List.not_mem_nil absurd).elim⟩
  | case2 => cases read
  | case3 => cases read
  | case4 value positive any digit remainder letter higher rest found hypothesis =>
      cases read
      obtain ⟨part, spelled⟩ := hypothesis rest
      obtain ⟨inside, same⟩ := List.getElem?_eq_some_iff.1 found
      have index : table.alphabet.toList.idxOf letter = digit := same ▸ distinct.idxOf_getElem digit inside
      refine ⟨?_, spells_append.2 ⟨spelled, List.mem_of_getElem? found⟩⟩
      rw [namePart_append, part, index, ← Nat.succ_eq_add_one digit, ← remainder]
      exact Nat.div_add_mod' value _
  | case5 => cases read

/-- A value has no letters exactly if it has a digit zero. -/
theorem letters?_eq_none_iff {alphabet : List Char} (any : alphabet ≠ []) {value : Nat} :
    letters? alphabet value = none ↔ 0 ∈ Nat.digits (alphabet.length + 1) value := by
  have base : 1 < alphabet.length + 1 := Nat.succ_lt_succ (List.length_pos_iff.2 any)
  fun_induction letters? alphabet value with
  | case1 => rw [Nat.digits_zero]; simp
  | case2 _ _ none => exact (any none).elim
  | case3 value positive _ remainder =>
      rw [Nat.digits_def' base (Nat.pos_of_ne_zero positive), remainder]
      simp
  | case4 value positive _ digit remainder letter higher rest found hypothesis =>
      rw [Nat.digits_def' base (Nat.pos_of_ne_zero positive), remainder, List.mem_cons]
      refine iff_of_false (Option.some_ne_none _) ?_
      rintro (zero | gap)
      · exact Nat.succ_ne_zero digit zero.symm
      · exact Option.some_ne_none _ (rest.symm.trans (hypothesis.2 gap))
  | case5 value positive _ digit remainder missing hypothesis =>
      rw [Nat.digits_def' base (Nat.pos_of_ne_zero positive), remainder, List.mem_cons]
      have inside : digit < alphabet.length := by
        have below := Nat.mod_lt value (Nat.zero_lt_of_lt base)
        omega
      refine iff_of_true rfl (.inr (hypothesis.1 ?_))
      rw [Option.eq_none_iff_forall_ne_some]
      exact fun higher rest => missing _ higher (List.getElem?_eq_getElem inside) rest

end TrigAlgebra.NamingTable
