/-
This file proves that bringing a symbolic sum to its normal form and adding a new term to it keep its
terms, up to their order, the order of their factors and the kinds of their coefficients.
-/

import Mathlib
import TrigAlgebra.Proofs.ScalarValues

namespace TrigAlgebra.Symbolic

namespace Powers

/-- No atom occurs twice and no exponent is zero. -/
structure Reduced (powers : Powers) : Prop where
  distinct : (powers.map Prod.fst).Nodup
  nonzero : ∀ power ∈ powers, power.2 ≠ 0

variable {powers done : Powers} {atom : Atom} {exponent : Rat}

/-- Being reduced does not depend on the order. -/
theorem Reduced.perm {others : Powers} (reduced : powers.Reduced) (order : powers.Perm others) :
    others.Reduced where
  distinct := (order.map Prod.fst).nodup_iff.1 reduced.distinct
  nonzero power member := reduced.nonzero power (order.mem_iff.2 member)

theorem Reduced.new {power : Atom × Rat} (reduced : Powers.Reduced (power :: done ++ powers)) :
    power.1 ∉ done.map Prod.fst := by
  have distinct := reduced.distinct
  rw [List.cons_append, List.map_cons, List.nodup_cons, List.map_append, List.mem_append, not_or]
    at distinct
  exact distinct.1.1

/-- A new power is inserted somewhere. -/
theorem perm_insert (new : atom ∉ powers.map Prod.fst) (nonzero : exponent ≠ 0) :
    (insert atom exponent powers).Perm ((atom, exponent) :: powers) := by
  induction powers with
  | nil =>
      rw [insert, if_neg nonzero]
  | cons head rest hypothesis =>
      rw [List.map_cons, List.mem_cons, not_or] at new
      rw [insert, if_neg (Ne.symm new.1), if_neg nonzero]
      split
      · exact .refl _
      · exact ((hypothesis new.2).cons head).trans (.swap _ _ _)

/-- The next power is put among those in their places, and what is left stays reduced. -/
theorem Reduced.insert_next {power : Atom × Rat} (reduced : (done ++ power :: powers).Reduced) :
    (insert power.1 power.2 done).Perm (power :: done) ∧
      (insert power.1 power.2 done ++ powers).Reduced := by
  have moved : Powers.Reduced (power :: done ++ powers) := reduced.perm List.perm_middle
  have inserted : (insert power.1 power.2 done).Perm (power :: done) :=
    perm_insert moved.new (moved.nonzero power List.mem_cons_self)
  exact ⟨inserted, moved.perm (inserted.symm.append_right powers)⟩

/-- Putting the powers in their places one after the other only reorders them. -/
theorem perm_foldl_insert (reduced : (done ++ powers).Reduced) :
    (powers.foldl (fun product power => insert power.1 power.2 product) done).Perm (done ++ powers) := by
  induction powers generalizing done with
  | nil => rw [List.append_nil, List.foldl_nil]
  | cons power rest hypothesis =>
      obtain ⟨inserted, next⟩ := reduced.insert_next
      exact (hypothesis next).trans ((inserted.append_right rest).trans List.perm_middle.symm)

end Powers

namespace Sum

theorem atom?_ofAtom (atom : Atom) : Product.atom? (ofAtom atom 1) = some atom := rfl

/-- A power of a symbol is not expanded any further. -/
theorem expandPower_ofAtom (atom : Atom) (exponent : Rat) :
    Product.expandPower (ofAtom atom 1) exponent = ofAtom atom exponent := rfl

/-- A product of atoms with the coefficient one. -/
def ofPowers (powers : Powers) : Sum := ⟨.zero, [(powers, .one)]⟩

theorem ofAtom_eq {atom : Atom} {exponent : Rat} (nonzero : exponent ≠ 0) :
    ofAtom atom exponent = ofPowers [(atom, exponent)] :=
  if_neg nonzero

theorem one_mul_ofPowers (powers : Powers) : (ofScalar .one).mul (ofPowers powers) = ofPowers powers := by
  change Sum.mk (Scalar.one.mul .zero) [(powers, Scalar.one.mul .one)] = _
  rw [Scalar.denotes_one.mul_zero, Scalar.one_mul_one]
  rfl

/-- Adding to zero leaves the product. -/
theorem addProduct_zero {powers : Powers} (any : powers ≠ []) :
    (ofScalar .zero).addProduct powers .one = ofPowers powers := by
  cases powers with
  | nil => exact (any rfl).elim
  | cons power rest => rfl

/-- Products of powers are multiplied symbol by symbol. -/
theorem ofPowers_mul_ofPowers {first second : Powers} (any : Powers.mul first second ≠ []) :
    (ofPowers first).mul (ofPowers second) = ofPowers (Powers.mul first second) := by
  have product : (ofScalar .zero).addProduct (Powers.mul first second) (Scalar.one.mul .one) =
      ofPowers (Powers.mul first second) := by
    rw [Scalar.one_mul_one, addProduct_zero any]
  change (let sum := (ofScalar .zero).addProduct (Powers.mul first second) (Scalar.one.mul .one)
    if sum.terms.isEmpty then sum else { sum with constant := cleared sum.constant }) = _
  rw [product]
  rfl

/-- Multiplying powers of atoms out one after the other puts all of them into one term. -/
theorem foldl_expandPower {powers : Powers} (done : Powers) (reduced : (done ++ powers).Reduced)
    (any : done ≠ []) :
    (powers.map fun power => (ofAtom power.1 1, power.2)).foldl
        (fun sum power => sum.mul (Product.expandPower power.1 power.2)) (ofPowers done) =
      ofPowers (powers.foldl (fun product power => Powers.insert power.1 power.2 product) done) := by
  induction powers generalizing done with
  | nil => rfl
  | cons power rest hypothesis =>
      obtain ⟨inserted, next⟩ := reduced.insert_next
      have nonzero := reduced.nonzero power (List.mem_append_right done List.mem_cons_self)
      have some : Powers.insert power.1 power.2 done ≠ [] :=
        fun none => List.cons_ne_nil _ _ (none ▸ inserted).nil_eq.symm
      have factor : (ofPowers done).mul (ofPowers [(power.1, power.2)]) =
          ofPowers (Powers.insert power.1 power.2 done) := ofPowers_mul_ofPowers some
      rw [List.map_cons, List.foldl_cons, expandPower_ofAtom, ofAtom_eq nonzero, factor]
      exact hypothesis _ next some

/-- Some powers of distinct atoms with a coefficient other than zero. -/
def SoundTerm (term : Powers × Scalar) : Prop :=
  (term.1 ≠ [] ∧ term.1.Reduced) ∧ ∃ value, value ≠ 0 ∧ term.2.Denotes value

/-- No coefficient is zero, and a constant that is zero is an exact one. -/
structure Proper (sum : Sum) : Prop where
  constant : ∃ value, sum.constant.Denotes value ∧ (value = 0 → sum.constant = .zero)
  terms : ∀ term ∈ sum.terms, SoundTerm term

/-- What a term says, whatever the order of its powers and the kind of its coefficient. -/
def termContent (term : Powers × Scalar) : Multiset (Atom × Rat) × Option Rat × Option Rat :=
  (term.1, term.2.parts)

/-- What the terms say, whatever their order. -/
def content (sum : Sum) : Multiset (Multiset (Atom × Rat) × Option Rat × Option Rat) :=
  (sum.allTerms.map termContent : List _)

variable {sum : Sum} {scalar : Scalar} {value : Rat × Rat} {terms : List (Powers × Scalar)}

theorem allTerms_zero : (Sum.mk .zero terms).allTerms = terms := rfl

theorem allTerms_of_ne (known : scalar.Denotes value) (nonzero : value ≠ 0) :
    (Sum.mk scalar terms).allTerms = ([], scalar) :: terms := by
  have notZero : scalar ≠ .zero := by
    rintro rfl
    exact nonzero (known.unique Scalar.denotes_zero)
  exact if_neg (beq_iff_eq.not.2 notZero)

/-- What holds of the constant and of all terms holds of all terms together. -/
theorem Proper.forall_allTerms (proper : sum.Proper) : ∀ term ∈ sum.allTerms,
    term.1.Reduced ∧ ∃ value, value ≠ 0 ∧ term.2.Denotes value := by
  obtain ⟨⟨value, known, zero⟩, terms⟩ := proper
  have ofTerms : ∀ term ∈ sum.terms, term.1.Reduced ∧ ∃ value, value ≠ 0 ∧ term.2.Denotes value :=
    fun term member => ⟨(terms term member).1.2, (terms term member).2⟩
  unfold allTerms
  split
  · exact ofTerms
  · rename_i notZero
    refine List.forall_mem_cons.2 ⟨⟨⟨List.nodup_nil, nofun⟩, value, fun none => notZero ?_, known⟩, ofTerms⟩
    exact beq_iff_eq.2 (zero none)

/-- The empty sum is proper. -/
theorem proper_zero : (ofScalar .zero).Proper where
  constant := ⟨0, Scalar.denotes_zero, fun _ => rfl⟩
  terms := by simp [ofScalar]

/-- A scalar is a proper sum. -/
theorem proper_ofScalar (known : scalar.Denotes value) (nonzero : value ≠ 0) : (ofScalar scalar).Proper where
  constant := ⟨value, known, fun zero => (nonzero zero).elim⟩
  terms := by simp [ofScalar]

/-- A product of powers is a proper sum. -/
theorem proper_singleton {powers : Powers} (any : powers ≠ []) (reduced : powers.Reduced)
    (known : scalar.Denotes value) (nonzero : value ≠ 0) : (Sum.mk .zero [(powers, scalar)]).Proper where
  constant := ⟨0, Scalar.denotes_zero, fun _ => rfl⟩
  terms := by
    rw [List.forall_mem_singleton]
    exact ⟨⟨any, reduced⟩, value, nonzero, known⟩

/-- A product of atoms with a coefficient other than zero becomes a sum of one term. -/
theorem expand_atoms {powers : Powers} (reduced : powers.Reduced) (known : scalar.Denotes value)
    (nonzero : value ≠ 0) :
    (Product.mk scalar (powers.map fun power => (ofAtom power.1 1, power.2))).expand.Proper ∧
      (Product.mk scalar (powers.map fun power => (ofAtom power.1 1, power.2))).expand.content =
        {((powers : Multiset (Atom × Rat)), scalar.parts)} := by
  have notZero : ¬ scalar.isZero = true := mt known.isZero_iff.1 nonzero
  have kept := known.mul_one
  unfold Product.expand
  rw [if_neg notZero]
  cases powers with
  | nil =>
      have scaled : (ofScalar .one).scale scalar = ofScalar (scalar.mul .one) := if_neg notZero
      rw [List.map_nil, List.foldl_nil, scaled]
      refine ⟨proper_ofScalar kept nonzero, ?_⟩
      rw [content, ofScalar, allTerms_of_ne kept nonzero, List.map_singleton, termContent, kept.parts_eq,
        known.parts_eq]
      rfl
  | cons power rest =>
      have order : (rest.foldl (fun product power => Powers.insert power.1 power.2 product)
          [power]).Perm (power :: rest) := Powers.perm_foldl_insert reduced
      have any : (rest.foldl (fun product power => Powers.insert power.1 power.2 product) [power]) ≠ [] :=
        fun none => List.cons_ne_nil _ _ (none ▸ order).nil_eq.symm
      have multiplied := foldl_expandPower [power] reduced (List.cons_ne_nil _ _)
      have scaled (powers : Powers) : (ofPowers powers).scale scalar =
          ⟨.zero, [(powers, scalar.mul .one)]⟩ := by
        rw [← known.mul_zero]
        exact if_neg notZero
      rw [List.map_cons, List.foldl_cons, expandPower_ofAtom,
        ofAtom_eq (reduced.nonzero power List.mem_cons_self), one_mul_ofPowers, multiplied, scaled]
      refine ⟨proper_singleton any (reduced.perm order.symm) kept nonzero, ?_⟩
      rw [content, allTerms_zero, List.map_singleton, termContent, kept.parts_eq, known.parts_eq,
        Multiset.coe_eq_coe.2 order]
      rfl

/-- A factor of an exact one keeps what a sum says. -/
theorem scale_one (proper : sum.Proper) :
    (sum.scale .one).Proper ∧ (sum.scale .one).content = sum.content := by
  obtain ⟨constant, terms⟩ := sum
  obtain ⟨⟨value, known, zero⟩, sound⟩ := proper
  change (Sum.mk (Scalar.one.mul constant) (terms.map fun term => (term.1, Scalar.one.mul term.2))).Proper ∧
    (Sum.mk (Scalar.one.mul constant) (terms.map fun term => (term.1, Scalar.one.mul term.2))).content = _
  have kept : (terms.map fun term => (term.1, Scalar.one.mul term.2)).map termContent =
      terms.map termContent := by
    rw [List.map_map]
    refine List.map_congr_left fun term member => ?_
    obtain ⟨-, number, -, knownTerm⟩ := sound term member
    rw [Function.comp_apply, termContent, knownTerm.one_mul.parts_eq, ← knownTerm.parts_eq]
    rfl
  have soundTerms : ∀ term ∈ terms.map fun term => (term.1, Scalar.one.mul term.2), SoundTerm term := by
    rw [List.forall_mem_map]
    intro term member
    obtain ⟨shape, number, nonzero, knownTerm⟩ := sound term member
    exact ⟨shape, number, nonzero, knownTerm.one_mul⟩
  by_cases none : value = 0
  · obtain rfl : constant = .zero := zero none
    have one_mul_zero : Scalar.one.mul .zero = .zero := Scalar.denotes_one.mul_zero
    refine ⟨⟨⟨0, ?_, fun _ => one_mul_zero⟩, soundTerms⟩, ?_⟩
    · exact Scalar.denotes_zero.one_mul
    · rw [content, content, one_mul_zero, allTerms_zero, allTerms_zero, kept]
  · refine ⟨⟨⟨value, known.one_mul, fun zero => (none zero).elim⟩, soundTerms⟩, ?_⟩
    rw [content, content, allTerms_of_ne known.one_mul none, allTerms_of_ne known none, List.map_cons,
      List.map_cons, kept, termContent, termContent, known.one_mul.parts_eq, known.parts_eq]

/-- A sum of several terms is not taken apart. -/
theorem expandPower_of_several {first second : Powers × Scalar} {rest : List (Powers × Scalar)}
    (several : sum.allTerms = first :: second :: rest) : Product.expandPower sum 1 = sum := by
  unfold allTerms at several
  have none : Product.atom? sum = none := by
    unfold Product.atom?
    split
    · rename_i atom exponent coefficient terms
      split at several
      · rw [terms] at several
        cases several
      · rename_i notZero
        rw [eq_false_of_ne_true notZero]
        rfl
    · rfl
  have any : ¬ sum.terms.isEmpty = true := by
    rw [List.isEmpty_iff]
    intro empty
    rw [empty] at several
    split at several <;> cases several
  have power : sum.pow 1 = sum := if_neg any
  unfold Product.expandPower
  rw [none]
  exact power

/-- What a sum says is kept when it becomes a factor or a summand. -/
theorem expand_ofSum (proper : sum.Proper) :
    (Product.ofSum sum).expand.Proper ∧ (Product.ofSum sum).expand.content = sum.content := by
  have sound := proper.forall_allTerms
  unfold Product.ofSum
  -- A sum of one term is taken apart into its powers, a longer one becomes a factor as it is.
  match terms : sum.allTerms with
  | [] =>
      refine ⟨proper_zero, ?_⟩
      rw [content, content, terms]
      rfl
  | [(powers, scalar)] =>
      rw [terms, List.forall_mem_singleton] at sound
      obtain ⟨reduced, value, nonzero, known⟩ := sound
      have said : sum.content = {termContent (powers, scalar)} := by
        rw [content, terms]
        rfl
      rw [said]
      exact expand_atoms reduced known nonzero
  | first :: second :: rest =>
      have expanded : (Product.mk .one [(sum, 1)]).expand = (sum.scale .one).scale .one := by
        change ((ofScalar .one).mul (Product.expandPower sum 1)).scale .one = _
        rw [expandPower_of_several terms]
        rfl
      obtain ⟨once, same⟩ := scale_one proper
      obtain ⟨twice, same'⟩ := scale_one once
      change (Product.mk .one [(sum, 1)]).expand.Proper ∧ (Product.mk .one [(sum, 1)]).expand.content = _
      rw [expanded]
      exact ⟨twice, same'.trans same⟩

/-- A new term is inserted somewhere. -/
theorem perm_insertTerm {powers : Powers} (new : ∀ term ∈ terms, term.1 ≠ powers)
    (notZero : ¬ scalar.isZero = true) :
    (insertTerm powers scalar terms).Perm ((powers, scalar) :: terms) := by
  induction terms with
  | nil => rw [insertTerm, if_neg notZero]
  | cons head rest hypothesis =>
      rw [List.forall_mem_cons] at new
      rw [insertTerm, if_neg new.1, if_neg notZero]
      split
      · exact .refl _
      · exact ((hypothesis new.2).cons head).trans (.swap _ _ _)

/-- Clearing a zero changes no value. -/
theorem denotes_cleared (known : scalar.Denotes value) : (cleared scalar).Denotes value := by
  unfold cleared
  split
  · rename_i isZero
    obtain rfl := known.isZero_iff.1 isZero
    exact Scalar.denotes_zero
  · exact known

theorem proper_cleared (known : scalar.Denotes value) (sound : ∀ term ∈ terms, SoundTerm term) :
    (Sum.mk (cleared scalar) terms).Proper :=
  ⟨⟨value, denotes_cleared known, fun zero => if_pos (known.isZero_iff.2 zero)⟩, sound⟩

/-- What a constant of a known value says. -/
def constantContent (value : Rat × Rat) : Multiset (Multiset (Atom × Rat) × Option Rat × Option Rat) :=
  if value = 0 then 0 else {(0, some value.1, some value.2)}

/-- The content of a proper sum is that of its constant and its terms. -/
theorem Proper.content_eq (proper : sum.Proper) (known : sum.constant.Denotes value) :
    sum.content = constantContent value + (sum.terms.map termContent : List _) := by
  obtain ⟨constant, terms⟩ := sum
  obtain ⟨value', known', zero⟩ := proper.constant
  obtain rfl := known.unique known'
  unfold constantContent
  split
  · rename_i none
    obtain rfl : constant = .zero := zero none
    rw [content, allTerms_zero, Multiset.zero_add]
  · rename_i nonzero
    rw [content, allTerms_of_ne known nonzero, List.map_cons, termContent, known.parts_eq]
    rfl

/-- Adding a number that is zero says nothing new. -/
theorem add_zero (proper : sum.Proper) (zero : scalar.Denotes 0) :
    (sum.add (ofScalar scalar)).Proper ∧ (sum.add (ofScalar scalar)).content = sum.content := by
  obtain ⟨value, known, -⟩ := proper.constant
  have total := known.add_zero zero
  have added : (sum.add (ofScalar scalar)).Proper := proper_cleared total proper.terms
  refine ⟨added, ?_⟩
  rw [added.content_eq (denotes_cleared total), proper.content_eq known]
  rfl

/-- Adding a number to a sum without a constant. -/
theorem add_constant (proper : sum.Proper) (none : sum.constant = .zero) (known : scalar.Denotes value)
    (nonzero : value ≠ 0) : (sum.add (ofScalar scalar)).Proper ∧
      (sum.add (ofScalar scalar)).content = termContent ([], scalar) ::ₘ sum.content := by
  have zero : sum.constant.Denotes 0 := none ▸ Scalar.denotes_zero
  have total := zero.zero_add known
  have added : (sum.add (ofScalar scalar)).Proper := proper_cleared total proper.terms
  refine ⟨added, ?_⟩
  rw [added.content_eq (denotes_cleared total), proper.content_eq zero, constantContent, if_neg nonzero,
    constantContent, if_pos rfl, Multiset.zero_add, termContent, known.parts_eq]
  rfl

/-- Adding powers that no term has. -/
theorem add_term {powers : Powers} (proper : sum.Proper) (sound : SoundTerm (powers, scalar))
    (new : ∀ term ∈ sum.terms, term.1 ≠ powers) :
    (sum.add ⟨.zero, [(powers, scalar)]⟩).Proper ∧
      (sum.add ⟨.zero, [(powers, scalar)]⟩).content = termContent (powers, scalar) ::ₘ sum.content := by
  obtain ⟨value, known, -⟩ := proper.constant
  obtain ⟨number, nonzero, knownTerm⟩ := sound.2
  have total := known.add_zero Scalar.denotes_zero
  have order := perm_insertTerm new (mt knownTerm.isZero_iff.1 nonzero)
  have added : (sum.add ⟨.zero, [(powers, scalar)]⟩).Proper := by
    refine proper_cleared total fun term member => ?_
    rcases List.mem_cons.1 (order.mem_iff.1 member) with rfl | old
    · exact sound
    · exact proper.terms term old
  refine ⟨added, ?_⟩
  have terms : (((sum.add ⟨.zero, [(powers, scalar)]⟩).terms.map termContent : List _) : Multiset _) =
      termContent (powers, scalar) ::ₘ (sum.terms.map termContent : List _) :=
    Multiset.coe_eq_coe.2 (order.map termContent)
  rw [added.content_eq (denotes_cleared total), proper.content_eq known, terms, Multiset.add_cons]

/-- Adding one term whose powers no other term has. -/
theorem add_single {single : Sum} {powers : Multiset (Atom × Rat)} {number : Option Rat × Option Rat}
    (proper : sum.Proper) (properSingle : single.Proper) (said : single.content = {(powers, number)})
    (new : ∀ term ∈ sum.content, term.1 ≠ powers) :
    (sum.add single).Proper ∧ (sum.add single).content = (powers, number) ::ₘ sum.content := by
  obtain ⟨value, known, zero⟩ := proper.constant
  obtain ⟨constant, terms⟩ := single
  obtain ⟨number', known', zero'⟩ := properSingle.constant
  rw [properSingle.content_eq known', constantContent] at said
  rw [proper.content_eq known] at new
  split at said
  · rename_i none
    obtain rfl : constant = .zero := zero' none
    rw [Multiset.zero_add, Multiset.coe_eq_singleton, List.map_eq_singleton_iff] at said
    obtain ⟨⟨factors, scalar⟩, rfl, same⟩ := said
    rw [← same]
    refine add_term proper (properSingle.terms _ (List.mem_singleton_self _)) ?_
    rintro term member rfl
    exact new (termContent term)
      (Multiset.mem_add.2 (.inr (Multiset.mem_coe.2 (List.mem_map_of_mem member))))
      (congrArg Prod.fst same)
  · rename_i nonzero
    rw [Multiset.singleton_add, Multiset.cons_coe, Multiset.coe_eq_singleton, List.cons_eq_cons,
      List.map_eq_nil_iff] at said
    obtain ⟨same, rfl⟩ := said
    have noConstant : value = 0 := by
      by_contra nonzero'
      refine new (0, some value.1, some value.2) (Multiset.mem_add.2 (.inl ?_)) (congrArg Prod.fst same)
      rw [constantContent, if_neg nonzero']
      exact Multiset.mem_singleton_self _
    have added := add_constant proper (zero noConstant) known' nonzero
    rwa [termContent, known'.parts_eq, Multiset.coe_nil, same] at added

end Sum

end TrigAlgebra.Symbolic
