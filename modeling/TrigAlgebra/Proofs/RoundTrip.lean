/-
This file proves that a polynomial is found again from its symbolic expression, up to monomials of
coefficient zero, the order of the others and the kinds of their coefficients.
-/

import TrigAlgebra.Proofs.Coefficients
import TrigAlgebra.Proofs.SymbolicMonomials

namespace TrigAlgebra

open Symbolic

namespace Polynomial

section Zeros

variable {K : Type} [Coefficient K]

/-- The monomials with a coefficient other than zero. -/
def nonzeros (monomials : List (Monomial K)) : List (Monomial K) :=
  monomials.filter fun item => !Coefficient.isZero item.coefficient

/-- The polynomial without its monomials of coefficient zero. -/
def withoutZeros (polynomial : Polynomial K) : Polynomial K :=
  ⟨nonzeros polynomial.monomials, isUnivariate (nonzeros polynomial.monomials)⟩

end Zeros

/-- What the monomials with a coefficient other than zero say. -/
def contentOf (monomials : List (Monomial Number)) :
    Multiset (Multiset (Atom × Rat) × Option Rat × Option Rat) :=
  ((nonzeros monomials).map Monomial.content : List _)

theorem contentOf_cons (head : Monomial Number) (rest : List (Monomial Number)) :
    contentOf (head :: rest) =
      (if Coefficient.isZero head.coefficient then 0 else {head.content}) + contentOf rest := by
  unfold contentOf nonzeros
  rw [List.filter_cons]
  cases Coefficient.isZero head.coefficient
  · rfl
  · exact (Multiset.zero_add _).symm

/-- Adding the monomials one after the other to an expression that has none of their powers. -/
theorem expand_foldlM {rest : List (Monomial Number)} {expression : Expression}
    (proper : expression.expand.Proper) (named : ∀ item ∈ rest, item.powers.Named)
    (plain : ∀ item ∈ rest, item.coefficient.Plain) (distinct : (powersOf rest).Nodup)
    (new : ∀ item ∈ rest, ∀ term ∈ expression.expand.content, term.1 ≠ item.powers.atoms) :
    ∃ result, rest.foldlM
        (fun expression monomial => return .add expression (← monomial.toExpression)) expression =
          (.ok result : Except Fault Expression) ∧
      result.expand.Proper ∧ result.expand.content = contentOf rest + expression.expand.content := by
  induction rest generalizing expression with
  | nil => exact ⟨expression, rfl, proper, (Multiset.zero_add _).symm⟩
  | cons head rest hypothesis =>
      rw [List.forall_mem_cons] at named plain new
      obtain ⟨others, distinct⟩ := List.nodup_cons.1 distinct
      obtain ⟨summand, written, expanded⟩ := Monomial.expand_toExpression named.1 plain.1
      rw [List.foldlM_cons, written]
      change ∃ result, rest.foldlM _ (Expression.add expression summand) = _ ∧ _
      have added : (Expression.add expression summand).expand =
          (Product.ofSum (expression.expand.add summand.expand)).expand := rfl
      -- A zero adds nothing to the content, any other monomial a term that is not there yet.
      split at expanded
      · rename_i isZero
        obtain ⟨scalar, number, zero⟩ := expanded
        obtain ⟨properSum, sum⟩ := Sum.add_zero proper zero
        obtain ⟨properNext, next⟩ := Sum.expand_ofSum properSum
        rw [← number, ← added] at properNext next
        have said := next.trans (number ▸ sum)
        obtain ⟨result, returned, properResult, content⟩ := hypothesis properNext named.2 plain.2 distinct
          fun item member term inSum => new.2 item member term (said ▸ inSum)
        refine ⟨result, returned, properResult, ?_⟩
        rw [content, said, contentOf_cons, if_pos isZero, Multiset.zero_add]
      · rename_i notZero
        obtain ⟨properSum, sum⟩ := Sum.add_single proper expanded.1 expanded.2 new.1
        obtain ⟨properNext, next⟩ := Sum.expand_ofSum properSum
        rw [← added] at properNext next
        have said := next.trans sum
        have fresh : ∀ item ∈ rest, ∀ term ∈ (expression.add summand).expand.content,
            term.1 ≠ item.powers.atoms := by
          intro item member term inSum
          rw [said, Multiset.mem_cons] at inSum
          rcases inSum with rfl | old
          · intro same
            have powers := PowerProduct.atoms_injective named.1 (named.2 item member)
              (Multiset.coe_eq_coe.1 same)
            exact others (powers ▸ List.mem_map_of_mem member)
          · exact new.2 item member term old
        obtain ⟨result, returned, properResult, content⟩ :=
          hypothesis properNext named.2 plain.2 distinct fresh
        refine ⟨result, returned, properResult, ?_⟩
        rw [content, said, contentOf_cons, if_neg notZero, Multiset.add_cons, Multiset.singleton_add,
          Multiset.cons_add]
        rfl

/-- A sum with the content of some monomials is read as monomials with this content. -/
theorem read_sum {sum : Sum} {monomials : List (Monomial Number)} (proper : sum.Proper)
    (named : ∀ item ∈ monomials, item.powers.Named) (said : sum.content = contentOf monomials) :
    ∃ list, sum.allTerms.mapM monomialOfTerm = .ok list ∧
      (list.map Monomial.content).Perm ((nonzeros monomials).map Monomial.content) ∧
      ∀ item ∈ list, item.coefficient.Plain ∧ item.powers.Named := by
  have each : ∀ term ∈ sum.allTerms, ∃ item, monomialOfTerm term = .ok item ∧
      (item.coefficient.Plain ∧ item.powers.Named) ∧ item.content = Sum.termContent term := by
    intro term member
    obtain ⟨-, value, -, known⟩ := proper.forall_allTerms term member
    have inSum : Sum.termContent term ∈ contentOf monomials :=
      said ▸ Multiset.mem_coe.2 (List.mem_map_of_mem member)
    obtain ⟨item, isItem, same⟩ := List.mem_map.1 (Multiset.mem_coe.1 inSum)
    have isNamed := named item (List.mem_of_mem_filter isItem)
    obtain ⟨result, read, plain, powers, content⟩ := Monomial.read_term isNamed known same.symm
    exact ⟨result, read, ⟨plain, powers ▸ isNamed⟩, content⟩
  obtain ⟨list, returned, related⟩ := exists_mapM_eq_ok each
  refine ⟨list, returned, ?_, fun item member => ?_⟩
  · have contents : list.map Monomial.content = sum.allTerms.map Sum.termContent := by
      rw [← List.forall₂_eq_eq_eq, List.forall₂_map_left_iff, List.forall₂_map_right_iff]
      exact (related.imp fun _ _ both => both.2.symm).flip.imp fun _ _ same => same.symm
    rw [contents]
    exact Multiset.coe_eq_coe.1 said
  · obtain ⟨term, inSum, read⟩ := exists_of_mem_mapM returned member
    obtain ⟨other, read', sound, -⟩ := each term inSum
    rw [read] at read'
    cases read'
    exact sound

section Content

variable {item other : Monomial Number}

theorem powers_of_content (named : item.powers.Named) (named' : other.powers.Named)
    (equal : item.content = other.content) : item.powers = other.powers :=
  PowerProduct.atoms_injective named named' (Multiset.coe_eq_coe.1 (congrArg Prod.fst equal))

/-- Coefficients of monomials that say the same have one value. -/
theorem value_of_content (plain : item.coefficient.Plain) (plain' : other.coefficient.Plain)
    (equal : item.content = other.content) : ∃ value,
      item.coefficient.toScalar.Denotes value ∧ other.coefficient.toScalar.Denotes value := by
  obtain ⟨value, known⟩ := Scalar.denotes_toScalar plain
  obtain ⟨value', known'⟩ := Scalar.denotes_toScalar plain'
  have parts : item.coefficient.toScalar.parts = other.coefficient.toScalar.parts :=
    congrArg Prod.snd equal
  obtain rfl := Scalar.parts_injective known known' parts
  exact ⟨value, known, known'⟩

end Content

/-- Polynomials whose monomials say the same are equal. -/
theorem same_of_content {first second : Polynomial Number} (distinct : first.Distinct)
    (distinct' : second.Distinct)
    (sound : ∀ item ∈ first.monomials, item.coefficient.Plain ∧ item.powers.Named)
    (sound' : ∀ item ∈ second.monomials, item.coefficient.Plain ∧ item.powers.Named)
    (order : (first.monomials.map Monomial.content).Perm (second.monomials.map Monomial.content)) :
    first.same second = true := by
  refine same_of_counterparts distinct distinct' (fun item member => ?_) fun other member => ?_
  · obtain ⟨other, isOther, equal⟩ := List.mem_map.1 (order.mem_iff.1 (List.mem_map_of_mem member))
    obtain ⟨plain, named⟩ := sound item member
    obtain ⟨plain', named'⟩ := sound' other isOther
    obtain ⟨value, known', known⟩ := value_of_content plain' plain equal
    exact ⟨other, isOther, powers_of_content named' named equal,
      Number.same_of_value plain plain' known known'⟩
  · obtain ⟨item, isItem, equal⟩ := List.mem_map.1 (order.mem_iff.2 (List.mem_map_of_mem member))
    exact List.mem_map.2 ⟨item, isItem,
      powers_of_content (sound item isItem).2 (sound' other member).2 equal⟩

/-- Monomials that say what some nonzero monomials with distinct powers say are such monomials. -/
theorem distinct_of_content {list monomials : List (Monomial Number)}
    (distinct : (powersOf monomials).Nodup)
    (sound : ∀ item ∈ monomials, item.coefficient.Plain ∧ item.powers.Named)
    (sound' : ∀ item ∈ list, item.coefficient.Plain ∧ item.powers.Named)
    (order : (list.map Monomial.content).Perm ((nonzeros monomials).map Monomial.content)) :
    (powersOf list).Nodup ∧ nonzeros list = list := by
  constructor
  · have kept : (powersOf (nonzeros monomials)).Nodup :=
      distinct.sublist (List.filter_sublist.map Monomial.powers)
    have atoms : ((nonzeros monomials).map fun item => (item.powers.atoms : Multiset (Atom × Rat))).Nodup := by
      refine kept.of_map.map_on fun item member other member' same => ?_
      have named := fun (item : Monomial Number) (member : item ∈ nonzeros monomials) =>
        (sound item (List.mem_of_mem_filter member)).2
      exact eq_of_powers_eq kept member member' (PowerProduct.atoms_injective (named item member)
        (named other member') (Multiset.coe_eq_coe.1 same))
    have keys := order.map Prod.fst
    rw [List.map_map, List.map_map] at keys
    have all : (list.map fun item => (item.powers.atoms : Multiset (Atom × Rat))).Nodup :=
      keys.nodup_iff.2 atoms
    refine List.Nodup.of_map (fun powers => (powers.atoms : Multiset (Atom × Rat))) ?_
    rwa [powersOf, List.map_map]
  · refine List.filter_eq_self.2 fun item member => ?_
    obtain ⟨other, isOther, equal⟩ := List.mem_map.1 (order.mem_iff.1 (List.mem_map_of_mem member))
    obtain ⟨inMonomials, nonzero⟩ := List.mem_filter.1 isOther
    obtain ⟨value, known', known⟩ :=
      value_of_content (sound other inMonomials).1 (sound' item member).1 equal
    rw [Bool.not_eq_true', ← Bool.not_eq_true] at nonzero ⊢
    rwa [Number.isZero_iff_value (sound' item member).1 known,
      ← Number.isZero_iff_value (sound other inMonomials).1 known']

/-- A polynomial with named variables and coefficients that rounded numbers can hold is found again
from its symbolic expression; its monomials of coefficient zero are lost. -/
theorem toExpression_toPolynomial (polynomial : Polynomial Number) (distinct : polynomial.Distinct)
    (named : ∀ var ∈ polynomial.vars, NamingTable.Names {} var)
    (plain : ∀ item ∈ polynomial.monomials, item.coefficient.Plain) :
    ∃ result, (do (← polynomial.toExpression).toPolynomial) = .ok result ∧
      result.withoutZeros.same polynomial.withoutZeros = true := by
  have namedPowers : ∀ item ∈ polynomial.monomials, item.powers.Named := by
    intro item member factor isFactor
    exact named factor.var (mem_vars.2 ⟨item.powers, List.mem_map_of_mem member, factor, isFactor, rfl⟩)
  have sound : ∀ item ∈ polynomial.monomials, item.coefficient.Plain ∧ item.powers.Named :=
    fun item member => ⟨plain item member, namedPowers item member⟩
  have started : (Expression.number .zero).expand.Proper := Sum.proper_zero
  have empty : (Expression.number .zero).expand.content = 0 := rfl
  obtain ⟨expression, written, proper, content⟩ := expand_foldlM started namedPowers plain distinct
    fun item member term inSum => (Multiset.notMem_zero term (empty ▸ inSum)).elim
  rw [empty, Multiset.add_zero] at content
  obtain ⟨list, read, order, sound'⟩ := read_sum proper namedPowers content
  obtain ⟨distinct', kept⟩ := distinct_of_content distinct sound sound' order
  refine ⟨⟨list, isUnivariate list⟩, ?_, ?_⟩
  · rw [toExpression, written]
    change (do ofMonomials (← expression.expand.allTerms.mapM monomialOfTerm)) = _
    rw [read]
    exact ofMonomials_of_nodup distinct'
  · have whole : (⟨list, isUnivariate list⟩ : Polynomial Number).withoutZeros = ⟨list, isUnivariate list⟩ := by
      rw [withoutZeros, kept]
    rw [whole]
    exact same_of_content distinct' (distinct.sublist (List.filter_sublist.map Monomial.powers)) sound'
      (fun item member => sound item (List.mem_of_mem_filter member)) order

/-- An integer, a real and a complex coefficient, and one that is zero. -/
def mixedKinds : Polynomial Number :=
  ⟨[⟨.integer 3, .ofFactors [⟨56, 2, by decide⟩, .linear 58]⟩, ⟨.real 0.5, .ofFactor (.linear 58)⟩,
    ⟨.integer 0, .ofFactor (.linear 56)⟩, ⟨.complex 0.0 (-1.5), .one⟩], false⟩

theorem toExpression_toPolynomial_mixedKinds : mixedKinds.Distinct ∧
    (∀ var ∈ mixedKinds.vars, NamingTable.Names {} var) ∧
    (∀ item ∈ mixedKinds.monomials, item.coefficient.Plain) ∧
    ∃ result, (do (← mixedKinds.toExpression).toPolynomial) = .ok result ∧
      result.withoutZeros.same mixedKinds.withoutZeros = true := by
  have distinct : mixedKinds.Distinct := by
    unfold Distinct
    decide +kernel
  have vars : mixedKinds.vars = [56, 58] := by decide +kernel
  have named : ∀ var ∈ mixedKinds.vars, NamingTable.Names {} var := by
    rw [vars, List.forall_mem_cons, List.forall_mem_singleton]
    exact ⟨⟨"x", 1, by decide +kernel⟩, ⟨"y", 1, by decide +kernel⟩⟩
  have plain : ∀ item ∈ mixedKinds.monomials, item.coefficient.Plain := by
    have small : (3 : Int).natAbs ≤ 2 ^ 53 := by decide
    have zero : (0 : Int).natAbs ≤ 2 ^ 53 := by decide
    have half : (0.5 : Float).isFinite = true := by decide +kernel
    have none : (0.0 : Float).isFinite = true := by decide +kernel
    have turned : (-1.5 : Float).isFinite = true := by decide +kernel
    simp only [mixedKinds, List.forall_mem_cons]
    exact ⟨small, half, zero, ⟨none, turned⟩, List.forall_mem_nil _⟩
  exact ⟨distinct, named, plain, toExpression_toPolynomial mixedKinds distinct named plain⟩

end Polynomial

end TrigAlgebra
