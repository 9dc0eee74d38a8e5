/-
This file proves that packing a name with an index and reading both back are inverse to each other,
and says which names, indices and integers are refused.
-/

import TrigAlgebra.Proofs.Letters
import TrigAlgebra.Proofs.Numerals

namespace TrigAlgebra

/-- A name, an index or a variable is refused for what it is. -/
def Fault.IsInvalidName : Fault → Prop
  | .invalidName _ => True
  | .indexBelowOne _ => True
  | .invalidVariable _ => True
  | .namelessVariable _ => True
  | _ => False

/-- A name, an index or a variable is refused for its size. -/
def Fault.IsOverflow : Fault → Prop
  | .nameTooLong _ => True
  | .indexTooLarge _ _ => True
  | .variableTooLarge _ => True
  | _ => False

namespace NamingTable

open Text

variable {table : NamingTable} {name : String} {index var : Int}

/-- An integer that stands for no name: it is odd or not positive, its index is too large, its name
has no letters or a digit zero among them. -/
def Unused (table : NamingTable) (var : Int) : Prop :=
  let half := var.toNat / 2
  var ≤ noVariable ∨ var % 2 ≠ 0 ∨ table.maxIndex < half / table.maxNamePart + 1 ∨
    half % table.maxNamePart = 0 ∨ 0 ∈ Nat.digits table.radix (half % table.maxNamePart)

instance (table : NamingTable) (var : Int) : Decidable (table.Unused var) :=
  inferInstanceAs (Decidable (_ ∨ _))

theorem isName_iff : table.isName name = true ↔ 1 ≤ name.length ∧ table.Spells name.toList := by
  have length : name.length = name.toList.length := rfl
  unfold isName Spells
  rw [Bool.and_eq_true, List.all_eq_true, length, Nat.one_le_iff_ne_zero]
  simp

theorem maxNamePart_pos (table : NamingTable) : 0 < table.maxNamePart :=
  Nat.pow_pos (Nat.succ_pos _)

/-- With an empty alphabet there is only one positional value. -/
theorem maxNamePart_of_nil (empty : table.alphabet.toList = []) : table.maxNamePart = 1 := by
  have radix : table.radix = 1 := congrArg (List.length · + 1) empty
  change table.radix ^ table.maxNameLength = 1
  rw [radix, one_pow]

theorem encode_eq_ok : table.encode name index = .ok var ↔
    (table.isName name = true ∧ table.namePart name.toList ≤ table.maxNamePart) ∧
      (1 ≤ index ∧ index ≤ table.maxIndex) ∧
        2 * (table.namePart name.toList + table.maxNamePart * (index - 1)) = var := by
  unfold encode
  grind

/-- A name is taken that has letters of the alphabet only, at least one and not too many. -/
def Takes (table : NamingTable) (name : String) : Prop :=
  (1 ≤ name.length ∧ name.length ≤ table.maxNameLength) ∧
    ∀ letter ∈ name.toList, letter ∈ table.alphabet.toList

instance (table : NamingTable) (name : String) : Decidable (table.Takes name) :=
  -- only the letters of the name are tested, and not all characters that there are
  @instDecidableAnd _ _ inferInstance (List.decidableBAll _ _)

/-- The index is out of its range, and the refusal shows an integer that cannot be written: the index,
or the largest index where that is exceeded. -/
def Unshown (table : NamingTable) (index : Int) : Prop :=
  index < 1 ∧ ¬ Fits index ∨
    1 ≤ index ∧ table.maxIndex < index ∧ ¬ (Fits index ∧ Fits table.maxIndex)

instance (table : NamingTable) (index : Int) : Decidable (table.Unshown index) :=
  inferInstanceAs (Decidable (_ ∨ _))

/-- A name that is spelled right and fits is refused for its index only. -/
theorem encode_of_isName (named : table.isName name = true)
    (fits : table.namePart name.toList ≤ table.maxNamePart)
    (outside : ¬ (1 ≤ index ∧ index ≤ table.maxIndex)) :
    (table.Unshown index ∧ table.encode name index = .error .numeralUnwritten) ∨
      (¬ table.Unshown index ∧ ∃ fault, table.encode name index = .error fault ∧
        (fault.IsInvalidName ∨ fault.IsOverflow)) := by
  unfold encode
  dsimp only
  rw [named, Bool.not_true, if_neg Bool.false_ne_true, if_neg (Nat.not_lt.2 fits)]
  by_cases low : index < 1
  · rw [if_pos low, Fault.showing_singleton]
    by_cases short : Fits index
    · rw [if_pos short]
      refine .inr ⟨?_, _, rfl, .inl trivial⟩
      rintro (⟨-, long⟩ | ⟨natural, -⟩)
      · exact long short
      · exact Int.not_lt.2 natural low
    · rw [if_neg short]
      exact .inl ⟨.inl ⟨low, short⟩, rfl⟩
  · have large : table.maxIndex < index := by omega
    rw [if_neg low, if_pos large, Fault.showing_pair]
    by_cases both : Fits index ∧ Fits table.maxIndex
    · rw [if_pos both]
      refine .inr ⟨?_, _, rfl, .inr trivial⟩
      rintro (⟨below, -⟩ | ⟨-, -, long⟩)
      · exact low below
      · exact long both
    · rw [if_neg both]
      exact .inl ⟨.inr ⟨Int.not_lt.1 low, large, both⟩, rfl⟩

/-- Other names are refused whatever the index is. -/
theorem encode_of_not_isName
    (refused : ¬ (table.isName name = true ∧ table.namePart name.toList ≤ table.maxNamePart)) :
    ∃ fault, table.encode name index = .error fault ∧ (fault.IsInvalidName ∨ fault.IsOverflow) := by
  unfold encode
  by_cases named : table.isName name = true
  · have long : table.maxNamePart < table.namePart name.toList :=
      Nat.not_le.1 fun fits => refused ⟨named, fits⟩
    rw [named]
    exact ⟨_, if_pos long, .inr trivial⟩
  · rw [Bool.not_eq_true] at named
    rw [named]
    exact ⟨_, rfl, .inl trivial⟩

/-- Half of a variable is split into the letters and the steps of the index. -/
theorem decode_eq_ok : table.decode var = .ok (name, index) ↔ ∃ half : Nat, 0 < half ∧
    2 * half = var ∧ (half / table.maxNamePart + 1 : Nat) = index ∧ index ≤ table.maxIndex ∧
      letters? table.alphabet.toList (half % table.maxNamePart) = some name.toList ∧
        name.toList ≠ [] := by
  unfold decode
  split
  · rename_i outside
    refine iff_of_false (fun absurd => nomatch absurd) ?_
    rintro ⟨half, positive, rfl, -⟩
    unfold noVariable at outside
    omega
  · rename_i inside
    unfold noVariable at inside
    obtain ⟨half, rfl⟩ : ∃ half : Nat, var = 2 * half := ⟨var.toNat / 2, by omega⟩
    have same : (2 * (half : Int)).toNat / 2 = half := by omega
    dsimp only
    rw [same]
    constructor
    · intro returned
      split at returned
      · cases returned
      · rename_i small
        split at returned
        · cases returned
        · cases returned
        · rename_i letters any found
          cases returned
          refine ⟨half, by omega, rfl, rfl, by omega, ?_, ?_⟩
          · rw [String.toList_ofList]
            exact found
          · rw [String.toList_ofList]
            exact any
    · rintro ⟨other, -, double, rfl, small, found, any⟩
      obtain rfl : other = half := by omega
      rw [if_neg (by omega), found]
      split
      · cases ‹some name.toList = none›
      · exact (any (Option.some.inj ‹_›)).elim
      · cases ‹some name.toList = some _›
        rw [String.ofList_toList]

/-- A variable is refused for what it is or for its size, unless it cannot be shown. -/
theorem decode_eq_error {fault : Fault} (failed : table.decode var = .error fault) :
    if Fits var then fault.IsInvalidName ∨ fault.IsOverflow else fault = .numeralUnwritten := by
  have refused {reason : Fault} (shown : Except.error (reason.showing [var]) =
      (.error fault : Except Fault (String × Int))) (kind : reason.IsInvalidName ∨ reason.IsOverflow) :
      if Fits var then fault.IsInvalidName ∨ fault.IsOverflow else fault = .numeralUnwritten := by
    obtain rfl := Except.error.inj shown
    rw [Fault.showing_singleton]
    split
    · exact kind
    · rfl
  unfold decode at failed
  dsimp only at failed
  split at failed
  · exact refused failed (.inl trivial)
  · split at failed
    · exact refused failed (.inr trivial)
    · split at failed
      · exact refused failed (.inl trivial)
      · exact refused failed (.inl trivial)
      · cases failed

/-- A name that fits leaves room for the steps of the index. -/
theorem namePart_lt_maxNamePart (long : 1 ≤ table.maxNameLength) (spelled : table.Spells name.toList)
    (fits : table.namePart name.toList ≤ table.maxNamePart) :
    table.namePart name.toList < table.maxNamePart := by
  have short := (namePart_le_iff long spelled).1 fits
  exact (namePart_lt spelled).trans_le (Nat.pow_le_pow_right (Nat.succ_pos _) short)

theorem decode_encode (long : 1 ≤ table.maxNameLength) (encoded : table.encode name index = .ok var) :
    table.decode var = .ok (name, index) := by
  obtain ⟨⟨valid, fits⟩, ⟨natural, small⟩, rfl⟩ := encode_eq_ok.1 encoded
  obtain ⟨length, spelled⟩ := isName_iff.1 valid
  have any : name.toList ≠ [] := List.ne_nil_of_length_pos length
  have part := namePart_lt_maxNamePart long spelled fits
  obtain ⟨step, rfl⟩ : ∃ step : Nat, index = step + 1 := ⟨(index - 1).toNat, by omega⟩
  have quotient : (table.namePart name.toList + table.maxNamePart * step) / table.maxNamePart = step := by
    rw [Nat.add_mul_div_left _ _ table.maxNamePart_pos, Nat.div_eq_of_lt part, zero_add]
  have remainder : (table.namePart name.toList + table.maxNamePart * step) % table.maxNamePart =
      table.namePart name.toList := by
    rw [Nat.add_mul_mod_self_left, Nat.mod_eq_of_lt part]
  refine decode_eq_ok.2 ⟨table.namePart name.toList + table.maxNamePart * step,
    Nat.add_pos_left (namePart_pos any) _, ?_, ?_, small, ?_, any⟩
  · push_cast
    rw [Int.add_sub_cancel]
  · rw [quotient]
    rfl
  · rw [remainder]
    exact letters?_namePart spelled

theorem encode_decode (distinct : table.alphabet.toList.Nodup)
    (decoded : table.decode var = .ok (name, index)) : table.encode name index = .ok var := by
  obtain ⟨half, positive, rfl, rfl, small, found, any⟩ := decode_eq_ok.1 decoded
  obtain ⟨part, spelled⟩ := namePart_of_letters? distinct found
  have natural : (1 : Int) ≤ (half / table.maxNamePart + 1 : Nat) := Int.ofNat_le.2 (Nat.succ_pos _)
  refine encode_eq_ok.2 ⟨⟨isName_iff.2 ⟨List.length_pos_iff.2 any, spelled⟩, ?_⟩, ⟨natural, small⟩, ?_⟩
  · rw [part]
    exact (Nat.mod_lt half table.maxNamePart_pos).le
  · have split := Nat.mod_add_div half table.maxNamePart
    rw [part]
    push_cast
    rw [Int.add_sub_cancel]
    exact_mod_cast congrArg (2 * ·) split

theorem encode_le (long : 1 ≤ table.maxNameLength) (encoded : table.encode name index = .ok var) :
    var ≤ table.maxVariable := by
  obtain ⟨⟨valid, fits⟩, ⟨-, small⟩, rfl⟩ := encode_eq_ok.1 encoded
  have part := namePart_lt_maxNamePart long (isName_iff.1 valid).2 fits
  have positive := table.maxNamePart_pos
  have room : index * table.maxNamePart ≤ table.maxVariable / 2 :=
    (Int.le_ediv_iff_mul_le (by omega)).1 small
  rw [Int.mul_sub, Int.mul_comm]
  rw [Int.mul_comm] at room
  omega

/-- The names that are taken are those whose positional value is not too large. -/
theorem takes_iff (long : 1 ≤ table.maxNameLength) : table.Takes name ↔
    table.isName name = true ∧ table.namePart name.toList ≤ table.maxNamePart := by
  rw [isName_iff]
  constructor
  · rintro ⟨⟨some, short⟩, spelled⟩
    exact ⟨⟨some, spelled⟩, (namePart_le_iff long spelled).2 short⟩
  · rintro ⟨⟨some, spelled⟩, fits⟩
    exact ⟨⟨some, (namePart_le_iff long spelled).1 fits⟩, spelled⟩

/-- Exactly the names of at most the allowed length are packed, with an index in its range, and both
are read back from the integer. All others are refused for what they are or for their size, except that
a name with an index that cannot be shown ends with the integer that cannot be written. -/
theorem encode_faithful (table : NamingTable) (long : 1 ≤ table.maxNameLength) (name : String)
    (index : Int) :
    ((∃ var, table.encode name index = .ok var) ↔
      table.Takes name ∧ 1 ≤ index ∧ index ≤ table.maxIndex) ∧
    (∀ fault, table.encode name index = .error fault →
      if table.Takes name ∧ table.Unshown index then fault = .numeralUnwritten
      else fault.IsInvalidName ∨ fault.IsOverflow) ∧
    ∀ var, table.encode name index = .ok var →
      var % 2 = 0 ∧ 0 < var ∧ var ≤ table.maxVariable ∧ table.decode var = .ok (name, index) := by
  have returned : (∃ var, table.encode name index = .ok var) ↔
      table.Takes name ∧ 1 ≤ index ∧ index ≤ table.maxIndex := by
    rw [takes_iff long]
    constructor
    · rintro ⟨var, encoded⟩
      obtain ⟨taken, inRange, -⟩ := encode_eq_ok.1 encoded
      exact ⟨taken, inRange⟩
    · rintro ⟨taken, inRange⟩
      exact ⟨_, encode_eq_ok.2 ⟨taken, inRange, rfl⟩⟩
  refine ⟨returned, fun fault failed => ?_, fun var encoded => ?_⟩
  · by_cases taken : table.Takes name
    · have outside : ¬ (1 ≤ index ∧ index ≤ table.maxIndex) := by
        intro inRange
        obtain ⟨var, encoded⟩ := returned.2 ⟨taken, inRange⟩
        cases failed.symm.trans encoded
      obtain ⟨named, fits⟩ := (takes_iff long).1 taken
      rcases encode_of_isName named fits outside with ⟨unshown, failed'⟩ | ⟨shown, reason, failed', kind⟩
      · rw [if_pos ⟨taken, unshown⟩]
        exact Except.error.inj (failed.symm.trans failed')
      · rw [if_neg fun facts => shown facts.2, Except.error.inj (failed.symm.trans failed')]
        exact kind
    · obtain ⟨reason, failed', kind⟩ := encode_of_not_isName fun packed => taken ((takes_iff long).2 packed)
      rw [if_neg fun facts => taken facts.1, Except.error.inj (failed.symm.trans failed')]
      exact kind
  · have decoded := decode_encode long encoded
    obtain ⟨half, positive, double, -⟩ := decode_eq_ok.1 decoded
    exact ⟨by omega, by omega, encode_le long encoded, decoded⟩

/-- A letter may occur twice in the alphabet; three letters are too many for two places. -/
theorem encode_faithful_repeated :
    let table : NamingTable := ⟨"aba", 2, 300⟩
    1 ≤ table.maxNameLength ∧
      (∃ var, table.encode "ba" 9 = .ok var ∧ table.decode var = .ok ("ba", 9)) ∧
      (∀ fault, table.encode "ba" 10 = .error fault → fault.IsInvalidName ∨ fault.IsOverflow) ∧
      ¬ ∃ var, table.encode "aaa" 9 = .ok var := by
  intro table
  have long : 1 ≤ table.maxNameLength := by decide
  have spelled : ∀ letter ∈ "ba".toList, letter ∈ table.alphabet.toList :=
    List.forall_mem_cons.2 ⟨by decide, List.forall_mem_singleton.2 (by decide)⟩
  obtain ⟨packed, -, read⟩ := encode_faithful table long "ba" 9
  obtain ⟨var, encoded⟩ := packed.2 ⟨⟨by decide, spelled⟩, by decide +kernel⟩
  have shown : ¬ table.Unshown 10 := by decide +kernel
  have refused (fault : Fault) (failed : table.encode "ba" 10 = .error fault) :
      fault.IsInvalidName ∨ fault.IsOverflow := by
    have kind := (encode_faithful table long "ba" 10).2.1 fault failed
    rw [if_neg fun facts => shown facts.2] at kind
    exact kind
  have tooLong : ¬ ∃ var, table.encode "aaa" 9 = .ok var := by
    rw [(encode_faithful table long "aaa" 9).1]
    exact fun facts => absurd facts.1.1.2 (by decide)
  exact ⟨long, ⟨var, encoded, (read var encoded).2.2.2⟩, refused, tooLong⟩

/-- A one with that many zeros. -/
def powerOfTen (zeros : Nat) : Nat := Nat.pow 10 zeros

theorem not_fits_powerOfTen {zeros : Nat} (long : numeralLimit ≤ zeros) : ¬ Fits (powerOfTen zeros) := by
  intro fits
  have short := fits_iff.1 fits
  rw [Int.natAbs_natCast] at short
  generalize numeralLimit = limit at long short
  exact Nat.not_lt.2 (Nat.pow_le_pow_right (by decide) long) short

/-- An index of 4301 digits is too large for every name, but its refusal cannot be worded. -/
theorem encode_faithful_hugeIndex : ¬ ∀ (table : NamingTable), 1 ≤ table.maxNameLength →
    ∀ (name : String) (index : Int),
      ((∃ var, table.encode name index = .ok var) ↔
        table.Takes name ∧ 1 ≤ index ∧ index ≤ table.maxIndex) ∧
      (∀ fault, table.encode name index = .error fault → fault.IsInvalidName ∨ fault.IsOverflow) ∧
      ∀ var, table.encode name index = .ok var →
        var % 2 = 0 ∧ 0 < var ∧ var ≤ table.maxVariable ∧ table.decode var = .ok (name, index) := by
  intro claim
  let huge := powerOfTen numeralLimit
  have packed : NamingTable.isName {} "x" = true ∧
      NamingTable.namePart {} "x".toList ≤ NamingTable.maxNamePart {} := by decide +kernel
  have large : NamingTable.maxIndex {} < huge := by decide +kernel
  have natural : (1 : Int) ≤ huge := by decide +kernel
  have outside : ¬ ((1 : Int) ≤ huge ∧ (huge : Int) ≤ NamingTable.maxIndex {}) :=
    fun facts => Int.not_lt.2 facts.2 large
  have unshown : NamingTable.Unshown {} huge :=
    .inr ⟨natural, large, fun both => not_fits_powerOfTen (Nat.le_refl numeralLimit) both.1⟩
  rcases encode_of_isName packed.1 packed.2 outside with ⟨-, failed⟩ | ⟨shown, -⟩
  · exact ((claim {} (by decide) "x" huge).2.1 _ failed).elim id id
  · exact shown unshown

theorem alphabet_ne_nil {half : Nat} (some : half % table.maxNamePart ≠ 0) :
    table.alphabet.toList ≠ [] := by
  intro empty
  rw [maxNamePart_of_nil empty] at some
  exact some (Nat.mod_one half)

/-- The integers that stand for no name are those that are not read. -/
theorem unused_iff (distinct : table.alphabet.toList.Nodup) :
    table.Unused var ↔ ∀ name index, table.decode var ≠ .ok (name, index) := by
  constructor
  · intro unused name index decoded
    obtain ⟨half, positive, rfl, rfl, small, found, any⟩ := decode_eq_ok.1 decoded
    have same : (2 * (half : Int)).toNat / 2 = half := by omega
    have some : half % table.maxNamePart ≠ 0 := by
      intro zero
      rw [zero, letters?_zero] at found
      exact any (Option.some.inj found).symm
    unfold Unused noVariable at unused
    rw [same] at unused
    rcases unused with low | odd | large | empty | gap
    · omega
    · omega
    · exact absurd large (Int.not_lt.2 small)
    · exact some empty
    · rw [(letters?_eq_none_iff (alphabet_ne_nil some)).2 gap] at found
      cases found
  · intro refused
    by_contra used
    unfold Unused noVariable at used
    simp only [not_or, not_not, not_lt, not_le] at used
    obtain ⟨positive, even, small, some, whole⟩ := used
    cases found : letters? table.alphabet.toList (var.toNat / 2 % table.maxNamePart) with
    | none => exact whole ((letters?_eq_none_iff (alphabet_ne_nil some)).1 found)
    | some letters =>
        have part := (namePart_of_letters? distinct found).1
        have any : letters ≠ [] := by
          rintro rfl
          exact some part.symm
        rw [← String.toList_ofList (l := letters)] at found any
        have double : 2 * ((var.toNat / 2 : Nat) : Int) = var := by omega
        exact refused _ _ (decode_eq_ok.2
          ⟨var.toNat / 2, by omega, double, rfl, small, found, any⟩)

/-- Where no letter occurs twice, an integer is read as a name and an index exactly if these are
packed into it. All other integers are refused for what they are or for their size, except that one of
too many digits cannot be shown. -/
theorem decode_exact (table : NamingTable) (distinct : table.alphabet.toList.Nodup)
    (long : 1 ≤ table.maxNameLength) :
    (∀ var name index, table.decode var = .ok (name, index) ↔ table.encode name index = .ok var) ∧
    (∀ first second pair, table.decode first = .ok pair → table.decode second = .ok pair →
      first = second) ∧
    ∀ var, (table.Unused var ↔ ∀ name index, table.encode name index ≠ .ok var) ∧
      (table.Unused var ↔ ∃ fault, table.decode var = .error fault ∧
        if Fits var then fault.IsInvalidName ∨ fault.IsOverflow else fault = .numeralUnwritten) := by
  have inverse (var : Int) (name : String) (index : Int) :
      table.decode var = .ok (name, index) ↔ table.encode name index = .ok var :=
    ⟨encode_decode distinct, decode_encode long⟩
  refine ⟨inverse, ?_, fun var => ⟨?_, ?_⟩⟩
  · rintro first second ⟨name, index⟩ isFirst isSecond
    have packed := (inverse first name index).1 isFirst
    rw [(inverse second name index).1 isSecond] at packed
    exact (Except.ok.inj packed).symm
  · rw [unused_iff distinct]
    exact forall₂_congr fun name index => not_congr (inverse var name index)
  · rw [unused_iff distinct]
    constructor
    · intro refused
      cases result : table.decode var with
      | ok pair => exact (refused pair.1 pair.2 result).elim
      | error fault => exact ⟨fault, rfl, decode_eq_error result⟩
    · rintro ⟨fault, failed, -⟩ name index decoded
      cases failed.symm.trans decoded

/-- Two letters in two places: the digits of 3 have a gap, those of 4 have none. -/
theorem decode_exact_gap :
    let table : NamingTable := ⟨"ab", 2, 100⟩
    (table.alphabet.toList.Nodup ∧ 1 ≤ table.maxNameLength) ∧
      (∃ fault, table.decode 6 = .error fault ∧ (fault.IsInvalidName ∨ fault.IsOverflow)) ∧
      table.encode "aa" 1 = .ok 8 := by
  intro table
  have distinct : table.alphabet.toList.Nodup := by decide +kernel
  have long : 1 ≤ table.maxNameLength := by decide
  have short : Fits 6 := by decide +kernel
  obtain ⟨inverse, -, refused⟩ := decode_exact table distinct long
  obtain ⟨fault, failed, kind⟩ := (refused 6).2.1 (by decide +kernel)
  rw [if_pos short] at kind
  exact ⟨⟨distinct, long⟩, ⟨fault, failed, kind⟩, (inverse 8 "aa" 1).1 (by decide +kernel)⟩

/-- A variable of 4301 digits has too large an index, but its refusal cannot be worded. -/
theorem decode_exact_hugeVariable : ¬ ∀ (table : NamingTable), table.alphabet.toList.Nodup →
    1 ≤ table.maxNameLength →
      (∀ var name index, table.decode var = .ok (name, index) ↔ table.encode name index = .ok var) ∧
      (∀ first second pair, table.decode first = .ok pair → table.decode second = .ok pair →
        first = second) ∧
      ∀ var, (table.Unused var ↔ ∀ name index, table.encode name index ≠ .ok var) ∧
        (table.Unused var ↔ ∃ fault, table.decode var = .error fault ∧
          (fault.IsInvalidName ∨ fault.IsOverflow)) := by
  intro claim
  let huge := powerOfTen numeralLimit
  have large : NamingTable.maxIndex {} <
      ((huge : Int).toNat / 2 : Nat) / (NamingTable.maxNamePart {} : Nat) + 1 := by decide +kernel
  obtain ⟨fault, failed, kind⟩ := ((claim {} (by decide +kernel) (by decide)).2.2 huge).2.1
    (.inr (.inr (.inl large)))
  have unshown := decode_eq_error failed
  rw [if_neg (not_fits_powerOfTen (Nat.le_refl numeralLimit))] at unshown
  rw [unshown] at kind
  exact kind.elim id id

end NamingTable
end TrigAlgebra
