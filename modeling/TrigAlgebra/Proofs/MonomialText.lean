/-
This file proves that the text of a monomial tells its factors: it is cut at the signs of multiplication
and of powers, which stand in no name and in no numeral.
-/

import TrigAlgebra.Monomial
import TrigAlgebra.Proofs.CoefficientText
import TrigAlgebra.Proofs.Variables

namespace TrigAlgebra

open Text

section Separators

variable {separator : Char} {front front' back back' : List Char} {parts parts' : List (List Char)}

/-- A text that is empty or begins with the separator. -/
def Continues (separator : Char) (text : List Char) : Prop :=
  text = [] ∨ ∃ rest, text = separator :: rest

theorem takeWhile_front (free : separator ∉ front) (continues : Continues separator back) :
    (front ++ back).takeWhile (· != separator) = front := by
  have kept : ∀ character ∈ front, (character != separator) = true := by
    intro character member
    exact bne_iff_ne.2 fun same => free (same ▸ member)
  have stopped : back.takeWhile (· != separator) = [] := by
    rcases continues with rfl | ⟨rest, rfl⟩
    · rfl
    · rw [List.takeWhile_cons_of_neg (by simp)]
  rw [List.takeWhile_append_of_pos kept, stopped, List.append_nil]

/-- Texts are cut at the first separator. -/
theorem cut_eq (free : separator ∉ front) (free' : separator ∉ front') (continues : Continues separator back)
    (continues' : Continues separator back') (same : front ++ back = front' ++ back') :
    front = front' ∧ back = back' := by
  have fronts : front = front' := by
    rw [← takeWhile_front free continues, same, takeWhile_front free' continues']
  subst fronts
  exact ⟨rfl, List.append_cancel_left same⟩

/-- The parts with a separator before each. -/
def preceded (separator : Char) (parts : List (List Char)) : List Char :=
  parts.flatMap (separator :: ·)

theorem continues_preceded (parts : List (List Char)) : Continues separator (preceded separator parts) := by
  cases parts with
  | nil => exact .inl rfl
  | cons head rest => exact .inr ⟨head ++ preceded separator rest, rfl⟩

/-- Parts that do not hold the separator are read back from the text that joins them. -/
theorem preceded_injective (free : ∀ part ∈ parts, separator ∉ part)
    (free' : ∀ part ∈ parts', separator ∉ part)
    (same : preceded separator parts = preceded separator parts') : parts = parts' := by
  induction parts generalizing parts' with
  | nil =>
      cases parts' with
      | nil => rfl
      | cons head' rest' => cases same
  | cons head rest hypothesis =>
      cases parts' with
      | nil => cases same
      | cons head' rest' =>
          rw [List.forall_mem_cons] at free free'
          obtain ⟨heads, rests⟩ := cut_eq free.1 free'.1 (continues_preceded rest)
            (continues_preceded rest') (List.cons.inj same).2
          rw [heads, hypothesis free.2 free'.2 rests]

theorem intercalate_cons (head : List Char) (rest : List (List Char)) :
    [separator].intercalate (head :: rest) = head ++ preceded separator rest := by
  induction rest generalizing head with
  | nil => rw [List.intercalate_singleton, preceded, List.flatMap_nil, List.append_nil]
  | cons second others hypothesis =>
      rw [List.intercalate_cons_cons, hypothesis, List.append_assoc]
      rfl

/-- Joined parts are told apart again; no part at all would look like an empty one. -/
theorem intercalate_injective (any : parts ≠ []) (any' : parts' ≠ []) (free : ∀ part ∈ parts, separator ∉ part)
    (free' : ∀ part ∈ parts', separator ∉ part)
    (same : [separator].intercalate parts = [separator].intercalate parts') : parts = parts' := by
  obtain ⟨head, rest, rfl⟩ := List.exists_cons_of_ne_nil any
  obtain ⟨head', rest', rfl⟩ := List.exists_cons_of_ne_nil any'
  rw [intercalate_cons, intercalate_cons] at same
  exact preceded_injective free free' (congrArg (separator :: ·) same)

end Separators

namespace NamingTable

variable {var : Int}

/-- A name is written as letters and then digits. -/
theorem letters_written (named : Names {} var) : ∃ letters digits, (written {} var).toList = letters ++ digits ∧
    letters ≠ [] ∧ Spells {} letters ∧ ∀ digit ∈ digits, digit.isDigit = true := by
  obtain ⟨name, index, decoded⟩ := named
  obtain ⟨length, spelled⟩ := isName_iff.1 (isName_of_decode decoded)
  have natural := (index_of_decode decoded).1
  refine ⟨name.toList, decimalDigits index.toNat, ?_, List.ne_nil_of_length_pos length, spelled,
    isDigit_of_mem_decimalDigits _⟩
  rw [written, render_eq writable_standard decoded, writeInteger_of_nonneg (by omega)]
  exact String.toList_append.trans (congrArg _ String.toList_ofList)

/-- No mark that separates parts is written in a name. -/
theorem not_mem_written (named : Names {} var) {mark : Char}
    (strange : mark ∉ (alphabet {}).toList) (notDigit : mark.isDigit = false) :
    mark ∉ (written {} var).toList := by
  obtain ⟨letters, digits, shape, -, spelled, numeral⟩ := letters_written named
  rw [shape, List.mem_append]
  rintro (letter | digit)
  · exact strange (spelled mark letter)
  · exact Bool.false_ne_true (notDigit.symm.trans (numeral mark digit))

/-- A name does not begin as a number does. -/
theorem not_opens_written (named : Names {} var) (more : List Char) :
    ¬ Decimal.Opens ((written {} var).toList ++ more) := by
  have strange : '-' ∉ (alphabet {}).toList ∧ '(' ∉ (alphabet {}).toList := by decide +kernel
  obtain ⟨letters, digits, shape, any, spelled, -⟩ := letters_written named
  obtain ⟨letter, others, rfl⟩ := List.exists_cons_of_ne_nil any
  rw [shape]
  rintro ⟨first, rest, same, mark⟩
  obtain rfl : letter = first := (List.cons.inj same).1
  have inside := spelled letter List.mem_cons_self
  rcases mark with digit | rfl | rfl
  · exact Bool.false_ne_true ((writable_standard.letters letter inside).symm.trans digit)
  · exact strange.1 inside
  · exact strange.2 inside

end NamingTable

namespace Factor

/-- The variable has a name, and the power has few enough digits to be written. -/
structure Legible (factor : Factor) : Prop where
  named : NamingTable.Names {} factor.var
  short : factor.power < 10 ^ numeralLimit

/-- The power after the name. -/
def exponentText (factor : Factor) : List Char :=
  if factor.power = 1 then [] else '^' :: decimalDigits factor.power

/-- The text of a factor that can be written. -/
def written (factor : Factor) : List Char :=
  (NamingTable.written {} factor.var).toList ++ factor.exponentText

variable {factor other : Factor}

/-- A factor that can be written has its name and its exponent as a text. -/
theorem text_eq (legible : factor.Legible) : factor.text = .ok (String.ofList factor.written) := by
  unfold text written exponentText
  rw [NamingTable.render_written NamingTable.writable_standard legible.named]
  change (if _ then _ else _) = _
  split
  · rw [List.append_nil, String.ofList_toList]
    rfl
  · rw [writeLimited_of_lt legible.short]
    rw [← List.singleton_append, String.ofList_append, String.ofList_append, String.ofList_toList,
      ← String.append_assoc]
    rfl

/-- A power of too many digits cannot be written. -/
theorem text_eq_error (named : NamingTable.Names {} factor.var) (long : 10 ^ numeralLimit ≤ factor.power) :
    factor.text = .error .numeralUnwritten := by
  have power : factor.power ≠ 1 := by
    rintro same
    rw [same] at long
    exact absurd long (Nat.not_le.2 (Nat.one_lt_pow (by decide) (by decide)))
  unfold text
  rw [NamingTable.render_written NamingTable.writable_standard named, writeLimited_of_le long]
  exact if_neg power

theorem continues_exponentText (factor : Factor) : Continues '^' factor.exponentText := by
  unfold exponentText
  split
  · exact .inl rfl
  · exact .inr ⟨_, rfl⟩

/-- Powers are read back from their text. -/
theorem exponentText_injective (same : factor.exponentText = other.exponentText) :
    factor.power = other.power := by
  unfold exponentText at same
  split at same <;> split at same
  · rw [‹factor.power = 1›, ‹other.power = 1›]
  · cases same
  · cases same
  · have digits := congrArg numeralValue (List.cons.inj same).2
    rwa [numeralValue_decimalDigits, numeralValue_decimalDigits] at digits

/-- A factor is read back from its text. -/
theorem written_injective (named : NamingTable.Names {} factor.var) (named' : NamingTable.Names {} other.var)
    (same : factor.written = other.written) : factor = other := by
  have unmarked {var : Int} (named : NamingTable.Names {} var) : '^' ∉ (NamingTable.written {} var).toList :=
    NamingTable.not_mem_written named (by decide +kernel) rfl
  obtain ⟨names, exponents⟩ := cut_eq (unmarked named) (unmarked named') (continues_exponentText factor)
    (continues_exponentText other) same
  have vars := NamingTable.written_injective NamingTable.writable_standard NamingTable.nodup_standard
    named named' (String.toList_inj.1 names)
  have powers := exponentText_injective exponents
  obtain ⟨var, power, positive⟩ := factor
  cases vars
  cases powers
  rfl

/-- Two lists of texts that are the same were written for the same factors. -/
theorem map_written_injective {factors others : List Factor}
    (named : ∀ factor ∈ factors, NamingTable.Names {} factor.var)
    (named' : ∀ factor ∈ others, NamingTable.Names {} factor.var)
    (same : factors.map written = others.map written) : factors = others := by
  induction factors generalizing others with
  | nil => exact (List.map_eq_nil_iff.1 same.symm).symm
  | cons head rest hypothesis =>
      cases others with
      | nil => cases same
      | cons head' rest' =>
          rw [List.forall_mem_cons] at named named'
          obtain ⟨heads, rests⟩ := List.cons.inj same
          rw [written_injective named.1 named'.1 heads, hypothesis named.2 named'.2 rests]

/-- No sign of a product is written in a factor. -/
theorem not_mem_written (named : NamingTable.Names {} factor.var) : '*' ∉ factor.written := by
  rw [written, List.mem_append]
  rintro (name | exponent)
  · exact NamingTable.not_mem_written named (by decide +kernel) rfl name
  · unfold exponentText at exponent
    split at exponent
    · exact List.not_mem_nil exponent
    · rcases List.mem_cons.1 exponent with mark | digit
      · exact absurd mark (by decide)
      · exact Bool.false_ne_true (isDigit_of_mem_decimalDigits _ _ digit)

end Factor

namespace PowerProduct

variable {product first second : PowerProduct}

/-- The factors joined by the sign of multiplication. -/
def written (product : PowerProduct) : List Char :=
  ['*'].intercalate (product.factors.map Factor.written)

/-- A product that can be written has its factors as a text. -/
theorem text_eq (legible : ∀ factor ∈ product.factors, factor.Legible) :
    product.text = .ok (String.ofList product.written) := by
  have factors : product.factors.mapM Factor.text =
      .ok (product.factors.map fun factor => String.ofList factor.written) := by
    rw [mapM_eq_ok, List.forall₂_map_right_iff, List.forall₂_same]
    exact fun factor member => Factor.text_eq (legible factor member)
  rw [text, factors]
  refine congrArg Except.ok (String.toList_inj.1 ?_)
  have parts : (product.factors.map fun factor => String.ofList factor.written).map String.toList =
      product.factors.map Factor.written := by
    rw [List.map_map]
    exact List.map_congr_left fun factor _ => String.toList_ofList
  rw [String.toList_intercalate, parts]
  exact String.toList_ofList.symm

/-- The first power of too many digits ends the text. -/
theorem text_eq_error (named : ∀ factor ∈ product.factors, NamingTable.Names {} factor.var)
    (long : ∃ factor ∈ product.factors, 10 ^ numeralLimit ≤ factor.power) :
    product.text = .error .numeralUnwritten := by
  suffices failed : product.factors.mapM Factor.text = .error .numeralUnwritten by
    rw [text, failed]
    rfl
  generalize product.factors = factors at named long ⊢
  induction factors with
  | nil => exact (List.not_mem_nil long.choose_spec.1).elim
  | cons head rest hypothesis =>
      rw [List.forall_mem_cons] at named
      rw [mapM_cons_eq_error]
      rcases Nat.lt_or_ge head.power (10 ^ numeralLimit) with short | tooLong
      · refine .inr ⟨⟨_, Factor.text_eq ⟨named.1, short⟩⟩, hypothesis named.2 ?_⟩
        obtain ⟨factor, member, large⟩ := long
        rcases List.mem_cons.1 member with rfl | later
        · exact (Nat.not_le.2 short large).elim
        · exact ⟨factor, later, large⟩
      · exact .inl (Factor.text_eq_error named.1 tooLong)

/-- Only one has no factors. -/
theorem factors_ne_nil (any : product ≠ one) : product.factors ≠ [] := by
  obtain ⟨factors, increasing⟩ := product
  rintro rfl
  exact any rfl

/-- A product other than one is read back from its text. -/
theorem written_injective (any : first ≠ one) (any' : second ≠ one)
    (named : ∀ factor ∈ first.factors, NamingTable.Names {} factor.var)
    (named' : ∀ factor ∈ second.factors, NamingTable.Names {} factor.var)
    (same : first.written = second.written) : first = second := by
  have free {product : PowerProduct} (named : ∀ factor ∈ product.factors, NamingTable.Names {} factor.var) :
      ∀ part ∈ product.factors.map Factor.written, '*' ∉ part :=
    List.forall_mem_map.2 fun factor member => Factor.not_mem_written (named factor member)
  have parts := intercalate_injective (List.map_eq_nil_iff.not.2 (factors_ne_nil any))
    (List.map_eq_nil_iff.not.2 (factors_ne_nil any')) (free named)
    (free named') same
  have factors := Factor.map_written_injective named named' parts
  obtain ⟨_, _⟩ := first
  cases factors
  rfl

/-- A product does not begin as a number does. -/
theorem not_opens_written (any : product ≠ one)
    (named : ∀ factor ∈ product.factors, NamingTable.Names {} factor.var) :
    ¬ Decimal.Opens product.written := by
  obtain ⟨head, rest, factors⟩ := List.exists_cons_of_ne_nil (factors_ne_nil any)
  rw [written, factors, List.map_cons, intercalate_cons, Factor.written, List.append_assoc]
  exact NamingTable.not_opens_written (named head (factors ▸ List.mem_cons_self)) _

end PowerProduct

namespace Monomial

variable {coefficient : Number} {shown : String} {product first second : PowerProduct}

/-- The text of a product with a coefficient that has a text of its own. -/
def joined (coefficient : Number) (shown : String) (factors : String) : String :=
  if Coefficient.isOne coefficient then factors else shown ++ "*" ++ factors

/-- A coefficient and its factors are read back from the text that joins them. -/
theorem joined_injective {factors factors' : String}
    (same : joined coefficient shown factors = joined coefficient shown factors') : factors = factors' := by
  unfold joined at same
  split at same
  · exact same
  · exact String.append_right_inj _ |>.1 same

/-- A coefficient of one is not written before a product. -/
theorem text_eq (written : Coefficient.text coefficient = .ok shown) (any : product ≠ .one)
    (legible : ∀ factor ∈ product.factors, factor.Legible) : Monomial.text ⟨coefficient, product⟩ =
      .ok (joined coefficient shown (String.ofList product.written)) := by
  have factors : (⟨coefficient, product⟩ : Monomial Number).isConstant = false :=
    Bool.eq_false_iff.2 (PowerProduct.isOne_iff.not.2 any)
  unfold text joined
  rw [factors, if_neg Bool.false_ne_true]
  dsimp only
  rw [PowerProduct.text_eq legible, written]
  split <;> rfl

/-- A product of variables never has the text of its coefficient alone. -/
theorem joined_ne (written : Coefficient.text coefficient = .ok shown) (any : product ≠ .one)
    (named : ∀ factor ∈ product.factors, NamingTable.Names {} factor.var) :
    joined coefficient shown (String.ofList product.written) ≠ shown := by
  unfold joined
  split
  · rename_i one
    rintro rfl
    have opens := Number.opens_coefficientText one written
    rw [String.toList_ofList] at opens
    exact PowerProduct.not_opens_written any named opens
  · intro same
    have lengths := congrArg String.length same
    simp only [String.length_append] at lengths
    have mark : "*".length = 1 := rfl
    omega

/-- Nor has the monomial a text then. -/
theorem text_eq_error (coefficient : Number)
    (named : ∀ factor ∈ product.factors, NamingTable.Names {} factor.var)
    (long : ∃ factor ∈ product.factors, 10 ^ numeralLimit ≤ factor.power) :
    Monomial.text ⟨coefficient, product⟩ = .error .numeralUnwritten := by
  have any : (⟨coefficient, product⟩ : Monomial Number).isConstant = false :=
    List.isEmpty_eq_false_iff.2 (List.ne_nil_of_mem long.choose_spec.1)
  unfold text
  rw [any, if_neg Bool.false_ne_true]
  dsimp only
  rw [PowerProduct.text_eq_error named long]
  rfl

/-- Monomials with one coefficient have different texts when they have different factors: also a constant
is told from a product of variables whose coefficient is not written. Only a power of too many digits
leaves a monomial without a text. -/
theorem text_unambiguous (coefficient : Number) (shown : String)
    (written : Coefficient.text coefficient = .ok shown) (first second : PowerProduct)
    (named : ∀ factor ∈ first.factors, NamingTable.Names {} factor.var)
    (named' : ∀ factor ∈ second.factors, NamingTable.Names {} factor.var) :
    ((∀ factor ∈ first.factors ++ second.factors, factor.power < 10 ^ numeralLimit) →
      ∃ left right, Monomial.text ⟨coefficient, first⟩ = .ok left ∧
        Monomial.text ⟨coefficient, second⟩ = .ok right ∧ (left = right ↔ first = second)) ∧
    ((∃ factor ∈ first.factors, 10 ^ numeralLimit ≤ factor.power) →
      Monomial.text ⟨coefficient, first⟩ = .error .numeralUnwritten) := by
  constructor
  · intro short
    rw [List.forall_mem_append] at short
    have legible : ∀ factor ∈ first.factors, factor.Legible :=
      fun factor member => ⟨named factor member, short.1 factor member⟩
    have legible' : ∀ factor ∈ second.factors, factor.Legible :=
      fun factor member => ⟨named' factor member, short.2 factor member⟩
    -- A constant is told from a product by the text of the coefficient: the product is longer, or it
    -- begins with a letter, which no text of a coefficient does that is left out.
    by_cases any : first = .one <;> by_cases any' : second = .one
    · subst any any'
      exact ⟨shown, shown, written, written, iff_of_true rfl rfl⟩
    · subst any
      exact ⟨shown, _, written, text_eq written any' legible',
        iff_of_false (joined_ne written any' named').symm (Ne.symm any')⟩
    · subst any'
      exact ⟨_, shown, text_eq written any legible, written,
        iff_of_false (joined_ne written any named) any⟩
    · refine ⟨_, _, text_eq written any legible, text_eq written any' legible', fun same => ?_, ?_⟩
      · exact PowerProduct.written_injective any any' named named'
          (String.ofList_injective (joined_injective same))
      · rintro rfl
        rfl
  · exact text_eq_error coefficient named

/-- The index of one variable is not taken for the index and the power of another one. -/
theorem text_unambiguous_indexAndPower :
    let twelfth := PowerProduct.ofFactor (.linear 20317518)
    let square := PowerProduct.ofFactor ⟨56, 2, by decide⟩
    NamingTable.render {} 20317518 = .ok "x12" ∧ NamingTable.render {} 56 = .ok "x1" ∧
      Coefficient.text (Number.integer 1) = .ok "1" ∧
      ∃ left right, Monomial.text ⟨Number.integer 1, twelfth⟩ = .ok left ∧
        Monomial.text ⟨Number.integer 1, square⟩ = .ok right ∧ (left = right ↔ twelfth = square) := by
  intro twelfth square
  have written : Coefficient.text (Number.integer 1) = .ok "1" := by decide +kernel
  have named : ∀ factor ∈ twelfth.factors, NamingTable.Names {} factor.var :=
    List.forall_mem_singleton.2 ⟨"x", 12, by decide +kernel⟩
  have named' : ∀ factor ∈ square.factors, NamingTable.Names {} factor.var :=
    List.forall_mem_singleton.2 ⟨"x", 1, by decide +kernel⟩
  have short : ∀ factor ∈ twelfth.factors ++ square.factors, factor.power < 10 ^ numeralLimit := by
    have two : 2 < 10 ^ numeralLimit := Nat.lt_of_lt_of_le (by decide : 2 < 10) (Nat.le_self_pow (by decide) 10)
    rw [List.forall_mem_append]
    exact ⟨List.forall_mem_singleton.2 (Nat.lt_of_succ_lt two), List.forall_mem_singleton.2 two⟩
  exact ⟨by decide +kernel, by decide +kernel, written,
    (text_unambiguous (.integer 1) "1" written twelfth square named named').1 short⟩

/-- A power of one digit more than an integer is written with. -/
theorem text_unambiguous_longPower : ¬ ∀ (coefficient : Number) (first second : PowerProduct),
    (∃ shown, Coefficient.text coefficient = .ok shown) →
    (∀ factor ∈ first.factors, NamingTable.Names {} factor.var) →
    (∀ factor ∈ second.factors, NamingTable.Names {} factor.var) →
      ∃ left right, Monomial.text ⟨coefficient, first⟩ = .ok left ∧
        Monomial.text ⟨coefficient, second⟩ = .ok right ∧ (left = right ↔ first = second) := by
  intro claimed
  let long : PowerProduct := .ofFactor ⟨56, 10 ^ numeralLimit, Nat.pow_pos (by decide)⟩
  have named : ∀ factor ∈ long.factors, NamingTable.Names {} factor.var :=
    List.forall_mem_singleton.2 ⟨"x", 1, by decide +kernel⟩
  obtain ⟨left, -, returned, -⟩ := claimed (.integer 1) long long ⟨"1", by decide +kernel⟩ named named
  have refused := text_eq_error (.integer 1) named ⟨_, List.mem_singleton_self _, le_refl _⟩
  cases returned.symm.trans refused

end Monomial

end TrigAlgebra
