/-
This file proves that the name and the index of a variable are read back from its written form: the
index is the longest run of digits at the end, because no letter of a name is a digit.
-/

import Mathlib.Data.List.TakeWhile
import TrigAlgebra.Proofs.PackedNames

namespace TrigAlgebra

namespace NamingTable

open Text

variable {table : NamingTable} {var index : Int} {name : String}

/-- Letters that were read are in the alphabet. -/
theorem spells_of_letters? {letters : List Char} {value : Nat}
    (read : letters? table.alphabet.toList value = some letters) : table.Spells letters := by
  fun_induction letters? table.alphabet.toList value generalizing letters with
  | case1 =>
      cases read
      exact fun _ absurd => (List.not_mem_nil absurd).elim
  | case2 => cases read
  | case3 => cases read
  | case4 value positive any digit remainder letter higher rest found hypothesis =>
      cases read
      exact spells_append.2 ⟨hypothesis rest, List.mem_of_getElem? found⟩
  | case5 => cases read

theorem isName_of_decode (decoded : table.decode var = .ok (name, index)) : table.isName name = true := by
  obtain ⟨half, -, -, -, -, found, any⟩ := decode_eq_ok.1 decoded
  exact isName_iff.2 ⟨List.length_pos_iff.2 any, spells_of_letters? found⟩

theorem index_of_decode (decoded : table.decode var = .ok (name, index)) :
    1 ≤ index ∧ index ≤ table.maxIndex := by
  obtain ⟨half, -, -, rfl, small, -⟩ := decode_eq_ok.1 decoded
  exact ⟨Int.ofNat_le.2 (Nat.succ_pos _), small⟩

/-- No letter of a name is a digit, and no index is too long to be read. -/
structure Writable (table : NamingTable) : Prop where
  letters : ∀ letter ∈ table.alphabet.toList, letter.isDigit = false
  indices : (decimalDigits table.maxIndex.toNat).length ≤ numeralLimit

/-- The index of a variable is short enough to be written. -/
theorem Writable.fits (writable : table.Writable) (decoded : table.decode var = .ok (name, index)) :
    Fits index := by
  have inRange := index_of_decode decoded
  exact (length_decimalDigits_le (by omega)).trans writable.indices

theorem render_eq (writable : table.Writable) (decoded : table.decode var = .ok (name, index)) :
    table.render var = .ok (name ++ writeInteger index) := by
  rw [render, decoded]
  change (writeLimited index).map (name ++ ·) = _
  rw [writeLimited_of_fits (writable.fits decoded)]
  rfl

/-- A name ends where the run of digits at the end begins. -/
theorem split_append (letters : ∀ letter ∈ table.alphabet.toList, letter.isDigit = false)
    (named : table.isName name = true) {digits : List Char}
    (numeral : ∀ character ∈ digits, character.isDigit = true) :
    table.split (name ++ String.ofList digits) = if digits.isEmpty then .ok (name, 1)
      else (readNumeral digits).map fun index => (name, (index : Int)) := by
  have spelled := (isName_iff.1 named).2
  have notDigit (start : 0 < name.toList.reverse.length) : ¬ name.toList.reverse[0].isDigit = true := by
    rw [letters _ (spelled _ (List.mem_reverse.1 (List.getElem_mem start)))]
    exact Bool.false_ne_true
  have reversed : (name ++ String.ofList digits).toList.reverse =
      digits.reverse ++ name.toList.reverse := by
    rw [String.toList_append, String.toList_ofList, List.reverse_append]
  have isDigit : ∀ character ∈ digits.reverse, character.isDigit = true :=
    fun character member => numeral character (List.mem_reverse.1 member)
  unfold split
  dsimp only
  rw [reversed, List.dropWhile_append_of_pos isDigit, List.takeWhile_append_of_pos isDigit,
    List.dropWhile_eq_self_iff.2 notDigit, List.takeWhile_eq_nil_iff.2 notDigit, List.append_nil,
    List.reverse_reverse, List.reverse_reverse, String.ofList_toList, named, Bool.not_true,
    if_neg Bool.false_ne_true]

/-- What is read from the written form of a variable is what the variable stands for. -/
theorem split_render (writable : table.Writable) (decoded : table.decode var = .ok (name, index)) :
    table.split (name ++ writeInteger index) = .ok (name, index) := by
  obtain ⟨natural, small⟩ := index_of_decode decoded
  have short := (length_decimalDigits_le (by omega : index.toNat ≤ table.maxIndex.toNat)).trans
    writable.indices
  rw [writeInteger_of_nonneg (by omega), split_append writable.letters (isName_of_decode decoded)
    (isDigit_of_mem_decimalDigits _), if_neg (List.isEmpty_iff.not.2 (decimalDigits_ne_nil _)), readNumeral,
    if_neg (Nat.not_lt.2 short), numeralValue_decimalDigits]
  change Except.ok (name, (index.toNat : Int)) = _
  rw [Int.toNat_of_nonneg (by omega)]

/-- A variable with a name and an index. -/
def Names (table : NamingTable) (var : Int) : Prop :=
  ∃ name index, table.decode var = .ok (name, index)

/-- The written form of a variable, empty for an integer that is none. -/
def written (table : NamingTable) (var : Int) : String :=
  (table.render var).toOption.getD ""

theorem render_written (writable : table.Writable) (named : table.Names var) :
    table.render var = .ok (table.written var) := by
  obtain ⟨name, index, decoded⟩ := named
  rw [written, render_eq writable decoded]
  rfl

/-- A variable is found again from its written form. -/
theorem read_written (writable : table.Writable) (distinct : table.alphabet.toList.Nodup)
    (named : table.Names var) : ∃ name index, table.split (table.written var) = .ok (name, index) ∧
      table.encode name index = .ok var := by
  obtain ⟨name, index, decoded⟩ := named
  refine ⟨name, index, ?_, encode_decode distinct decoded⟩
  rw [written, render_eq writable decoded]
  exact split_render writable decoded

/-- Different variables have different written forms. -/
theorem written_injective (writable : table.Writable) (distinct : table.alphabet.toList.Nodup) {other : Int}
    (named : table.Names var) (named' : table.Names other) (same : table.written var = table.written other) :
    var = other := by
  obtain ⟨name, index, read, packed⟩ := read_written writable distinct named
  obtain ⟨name', index', read', packed'⟩ := read_written writable distinct named'
  rw [same, read'] at read
  cases read
  exact Except.ok.inj (packed.symm.trans packed')

theorem letters_of_all (none : table.alphabet.toList.all (fun letter => !letter.isDigit) = true) :
    ∀ letter ∈ table.alphabet.toList, letter.isDigit = false := by
  intro letter member
  simpa only [Bool.not_eq_true'] using List.all_eq_true.1 none letter member

/-- The variables of the standard table are read back from their written forms. -/
theorem writable_standard : ({} : NamingTable).Writable :=
  ⟨letters_of_all (by decide +kernel), by decide +kernel⟩

theorem nodup_standard : ({} : NamingTable).alphabet.toList.Nodup := by decide +kernel

/-- A text is a name of the allowed letters and length with an index in decimal digits, where leading
zeros do not count, or with none. -/
structure IsSpelling (table : NamingTable) (text name : String) (digits : List Char) : Prop where
  written : text = name ++ String.ofList digits
  length : 1 ≤ name.length ∧ name.length ≤ table.maxNameLength
  letters : table.Spells name.toList
  numeral : ∀ digit ∈ digits, digit.isDigit = true
  index : digits ≠ [] → 1 ≤ numeralValue digits ∧ (numeralValue digits : Int) ≤ table.maxIndex

variable {text : String} {digits : List Char}

theorem isSpelling_iff : IsSpelling table text name digits ↔
    (text = name ++ String.ofList digits ∧ name.length ≤ table.maxNameLength) ∧
      table.isName name = true ∧ digits.all Char.isDigit = true ∧
        (digits ≠ [] → 1 ≤ numeralValue digits ∧ (numeralValue digits : Int) ≤ table.maxIndex) := by
  rw [isName_iff, List.all_eq_true]
  constructor
  · rintro ⟨written, ⟨any, short⟩, letters, numeral, index⟩
    exact ⟨⟨written, short⟩, ⟨any, letters⟩, numeral, index⟩
  · rintro ⟨⟨written, short⟩, ⟨any, letters⟩, numeral, index⟩
    exact ⟨written, ⟨any, short⟩, letters, numeral, index⟩

instance (table : NamingTable) (text name : String) (digits : List Char) :
    Decidable (IsSpelling table text name digits) :=
  decidable_of_iff _ isSpelling_iff.symm

/-- The variable that a text spells, if it spells one. -/
def variableOf (table : NamingTable) (text : String) : Except Fault Int := do
  let (name, index) ← table.split text
  table.encode name index

theorem variableOf_eq_ok : table.variableOf text = .ok var ↔
    ∃ name index, table.split text = .ok (name, index) ∧ table.encode name index = .ok var :=
  bind_eq_ok.trans ⟨fun ⟨part, facts⟩ => ⟨part.1, part.2, facts⟩, fun ⟨name, index, facts⟩ =>
    ⟨(name, index), facts⟩⟩

/-- What is read from a text is read again from the written form of its variable, in which an index
has no leading zeros and is never absent. -/
theorem variableOf_render (writable : table.Writable) (long : 1 ≤ table.maxNameLength)
    (read : table.variableOf text = .ok var) : ∃ name index, table.split text = .ok (name, index) ∧
      table.render var = .ok (name ++ writeInteger index) ∧
        table.variableOf (name ++ writeInteger index) = .ok var := by
  obtain ⟨name, index, parts, packed⟩ := variableOf_eq_ok.1 read
  have decoded := decode_encode long packed
  exact ⟨name, index, parts, render_eq writable decoded,
    variableOf_eq_ok.2 ⟨name, index, split_render writable decoded, packed⟩⟩

/-- In a table without digits among its letters every variable is read back from its written form. Where
no letter occurs twice the written forms are different, and where names may have letters at all the
written form of what is read from any text is a spelling of the same variable. -/
theorem render_faithful (table : NamingTable) (writable : table.Writable) :
    (∀ var name index, table.decode var = .ok (name, index) →
      ∃ text, table.render var = .ok text ∧ table.split text = .ok (name, index)) ∧
    (table.alphabet.toList.Nodup → ∀ first second, table.Names first → table.Names second →
      table.render first = table.render second → first = second) ∧
    (1 ≤ table.maxNameLength → ∀ text var, table.variableOf text = .ok var →
      ∃ name index, table.split text = .ok (name, index) ∧
        table.render var = .ok (name ++ writeInteger index) ∧
          table.variableOf (name ++ writeInteger index) = .ok var) := by
  refine ⟨fun var name index decoded => ?_, fun distinct first second named named' same => ?_,
    fun long text var => variableOf_render writable long⟩
  · exact ⟨_, render_eq writable decoded, split_render writable decoded⟩
  · rw [render_written writable named, render_written writable named', Except.ok.injEq] at same
    exact written_injective writable distinct named named' same

/-- An index with leading zeros is written without them. -/
theorem render_faithful_leadingZeros :
    let table : NamingTable := ⟨"ab", 2, 300⟩
    (table.Writable ∧ table.alphabet.toList.Nodup ∧ 1 ≤ table.maxNameLength) ∧
      table.variableOf "ba007" = .ok 122 ∧
      (∃ text, table.render 122 = .ok text ∧ table.split text = .ok ("ba", 7)) ∧
      (∀ var, table.Names var → table.render var = table.render 122 → var = 122) ∧
      table.render 122 = .ok "ba7" ∧ table.variableOf "ba7" = .ok 122 := by
  intro table
  have writable : table.Writable := ⟨letters_of_all (by decide +kernel), by decide +kernel⟩
  have distinct : table.alphabet.toList.Nodup := by decide +kernel
  have long : 1 ≤ table.maxNameLength := by decide
  have parts : table.split "ba007" = .ok ("ba", 7) := by decide +kernel
  have decoded : table.decode 122 = .ok ("ba", 7) := by decide +kernel
  have read : table.variableOf "ba007" = .ok 122 :=
    variableOf_eq_ok.2 ⟨"ba", 7, parts, by decide +kernel⟩
  obtain ⟨back, injective, again⟩ := render_faithful table writable
  obtain ⟨name, index, parts', written, readAgain⟩ := again long "ba007" 122 read
  cases parts.symm.trans parts'
  have short : "ba" ++ writeInteger 7 = "ba7" := by decide +kernel
  rw [short] at written readAgain
  exact ⟨⟨writable, distinct, long⟩, read, back 122 "ba" 7 decoded,
    fun var named => injective distinct var 122 named ⟨"ba", 7, decoded⟩, written, readAgain⟩

/-- What is split from a spelling in the standard table. -/
theorem IsSpelling.split (spelling : IsSpelling {} text name digits) :
    NamingTable.split {} text = if digits.isEmpty then .ok (name, 1)
      else (readNumeral digits).map fun index => (name, (index : Int)) := by
  rw [spelling.written]
  exact split_append writable_standard.letters (isName_iff.2 ⟨spelling.length.1, spelling.letters⟩)
    spelling.numeral

theorem IsSpelling.encode (spelling : IsSpelling {} text name digits) (natural : 1 ≤ index)
    (small : index ≤ NamingTable.maxIndex {}) : ∃ var, NamingTable.encode {} name index = .ok var := by
  have long : 1 ≤ NamingTable.maxNameLength {} := by decide
  exact ⟨_, encode_eq_ok.2 ⟨⟨isName_iff.2 ⟨spelling.length.1, spelling.letters⟩,
    (namePart_le_iff long spelling.letters).2 spelling.length.2⟩, ⟨natural, small⟩, rfl⟩⟩

/-- A spelling with an index that is not too long is one of a variable. -/
theorem IsSpelling.variableOf (spelling : IsSpelling {} text name digits)
    (short : digits.length ≤ numeralLimit) : ∃ var, NamingTable.variableOf {} text = .ok var := by
  unfold NamingTable.variableOf
  rw [spelling.split]
  split
  · exact spelling.encode (le_refl 1) (by decide)
  · rename_i any
    obtain ⟨natural, small⟩ := spelling.index (List.isEmpty_iff.not.1 any)
    rw [readNumeral, if_neg (Nat.not_lt.2 short)]
    exact spelling.encode (by exact_mod_cast natural) small

/-- The digits of an index with a number of leading zeros. -/
def paddedOne (zeros : Nat) : List Char := List.replicate zeros '0' ++ ['1']

theorem numeralValue_paddedOne (zeros : Nat) : numeralValue (paddedOne zeros) = 1 := by
  have padding : numeralValue (List.replicate zeros '0') = 0 := by
    induction zeros with
    | zero => rfl
    | succ zeros hypothesis =>
        rw [List.replicate_succ', numeralValue_append, hypothesis]
        rfl
  rw [paddedOne, numeralValue_append, padding]
  rfl

theorem isSpelling_paddedOne (zeros : Nat) :
    IsSpelling {} ("x" ++ String.ofList (paddedOne zeros)) "x" (paddedOne zeros) where
  written := rfl
  length := by decide
  letters := (isName_iff.1 (by decide +kernel : NamingTable.isName {} "x" = true)).2
  numeral := List.forall_mem_append.2 ⟨fun digit member => (List.eq_of_mem_replicate member) ▸ rfl,
    List.forall_mem_singleton.2 rfl⟩
  index _ := by
    rw [numeralValue_paddedOne]
    decide

/-- A numeral of more than 4300 digits is not split off, even if only its last digit counts. -/
theorem split_paddedOne {zeros : Nat} (long : numeralLimit ≤ zeros) :
    NamingTable.split {} ("x" ++ String.ofList (paddedOne zeros)) = .error (.numeralTooLong (zeros + 1)) := by
  have length : (paddedOne zeros).length = zeros + 1 := by
    rw [paddedOne, List.length_append, List.length_replicate, List.length_singleton]
  have any : ¬ (paddedOne zeros).isEmpty = true := by
    rw [List.isEmpty_iff, paddedOne]
    exact List.append_ne_nil_of_right_ne_nil _ (List.cons_ne_nil _ _)
  rw [(isSpelling_paddedOne zeros).split, if_neg any, readNumeral, length, if_pos (Nat.lt_succ_of_le long)]
  rfl

end NamingTable

end TrigAlgebra
