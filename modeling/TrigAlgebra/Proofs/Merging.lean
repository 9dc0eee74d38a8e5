/-
This file says which products of powers a list of monomials has after merging, and in what order;
merging can fail only where two monomials have the same powers.
-/

import Mathlib.Data.List.Nodup
import TrigAlgebra.Polynomial.Arithmetic
import TrigAlgebra.Proofs.Results

namespace TrigAlgebra.Polynomial

variable {K : Type}

/-- The products that a list of monomials has, in order. -/
def powersOf (monomials : List (Monomial K)) : List PowerProduct :=
  monomials.map Monomial.powers

/-- No two monomials of the polynomial have the same powers. -/
def Distinct (polynomial : Polynomial K) : Prop :=
  (powersOf polynomial.monomials).Nodup

/-- A product that is there keeps its place, and a new one comes last. -/
def appendNew (seen : List PowerProduct) (powers : PowerProduct) : List PowerProduct :=
  if powers ∈ seen then seen else seen ++ [powers]

theorem appendNew_cons_self (seen : List PowerProduct) (powers : PowerProduct) :
    appendNew (powers :: seen) powers = powers :: seen :=
  if_pos List.mem_cons_self

theorem appendNew_cons_of_ne {seen : List PowerProduct} {head powers : PowerProduct}
    (different : powers ≠ head) : appendNew (head :: seen) powers = head :: appendNew seen powers := by
  unfold appendNew
  by_cases old : powers ∈ seen
  · rw [if_pos old, if_pos (List.mem_cons_of_mem _ old)]
  · rw [if_neg old, if_neg (List.not_mem_cons_of_ne_of_not_mem different old)]
    rfl

/-- A product is kept at most once. -/
theorem mem_appendNew {seen : List PowerProduct} {powers other : PowerProduct} :
    other ∈ appendNew seen powers ↔ other ∈ seen ∨ other = powers := by
  unfold appendNew
  split
  · rename_i old
    exact ⟨Or.inl, fun either => either.elim id fun same => same ▸ old⟩
  · rw [List.mem_append, List.mem_singleton]

/-- Distinct products stay distinct. -/
theorem nodup_appendNew {seen : List PowerProduct} (powers : PowerProduct) (distinct : seen.Nodup) :
    (appendNew seen powers).Nodup := by
  unfold appendNew
  split
  · exact distinct
  · rename_i new
    rw [List.nodup_append]
    refine ⟨distinct, List.nodup_singleton _, ?_⟩
    intro old isOld other isNew same
    exact new (List.mem_singleton.1 isNew ▸ same ▸ isOld)

/-- All products of the list are kept. -/
theorem mem_foldl_appendNew {list seen : List PowerProduct} {powers : PowerProduct} :
    powers ∈ list.foldl appendNew seen ↔ powers ∈ seen ∨ powers ∈ list := by
  induction list generalizing seen with
  | nil => rw [List.foldl_nil, or_iff_left List.not_mem_nil]
  | cons head rest hypothesis =>
      rw [List.foldl_cons, hypothesis, mem_appendNew, List.mem_cons, or_assoc]

/-- However many products follow, they stay distinct. -/
theorem nodup_foldl_appendNew {list seen : List PowerProduct} (distinct : seen.Nodup) :
    (list.foldl appendNew seen).Nodup := by
  induction list generalizing seen with
  | nil => exact distinct
  | cons head rest hypothesis => exact hypothesis (nodup_appendNew head distinct)

variable [Coefficient K]

/-- Absorbing a monomial appends its product unless it is there. -/
theorem powersOf_absorb {sum merged : List (Monomial K)} {monomial : Monomial K}
    (absorbed : absorb sum monomial = .ok merged) :
    powersOf merged = appendNew (powersOf sum) monomial.powers := by
  induction sum generalizing merged with
  | nil =>
      cases absorbed
      rfl
  | cons head rest hypothesis =>
      simp only [absorb] at absorbed
      split at absorbed
      · rename_i same
        obtain ⟨coefficient, -, rfl⟩ := map_eq_ok.1 absorbed
        change head.powers :: powersOf rest = appendNew (head.powers :: powersOf rest) monomial.powers
        rw [← same, appendNew_cons_self]
      · rename_i different
        obtain ⟨tail, tailCase, rfl⟩ := map_eq_ok.1 absorbed
        change head.powers :: powersOf tail = appendNew (head.powers :: powersOf rest) monomial.powers
        rw [appendNew_cons_of_ne (Ne.symm different), hypothesis tailCase]

/-- Products stand in the order of their first occurrence. -/
theorem powersOf_foldlM_absorb {monomials sum merged : List (Monomial K)}
    (absorbed : monomials.foldlM absorb sum = .ok merged) :
    powersOf merged = (powersOf monomials).foldl appendNew (powersOf sum) := by
  induction monomials generalizing sum with
  | nil =>
      cases absorbed
      rfl
  | cons head rest hypothesis =>
      rw [List.foldlM_cons, bind_eq_ok] at absorbed
      obtain ⟨next, headCase, restCase⟩ := absorbed
      rw [hypothesis restCase, powersOf_absorb headCase]
      rfl

/-- After merging each product of powers occurs once, in the order of first occurrence. -/
theorem powersOf_merge {monomials merged : List (Monomial K)}
    (returned : merge monomials = .ok merged) :
    powersOf merged = (powersOf monomials).foldl appendNew [] :=
  powersOf_foldlM_absorb returned

/-- No product occurs twice after merging. -/
theorem nodup_merge {monomials merged : List (Monomial K)}
    (returned : merge monomials = .ok merged) :
    (powersOf merged).Nodup :=
  powersOf_merge returned ▸ nodup_foldl_appendNew .nil

/-- Merging neither brings products in nor drops any. -/
theorem mem_powersOf_merge {monomials merged : List (Monomial K)} {powers : PowerProduct}
    (returned : merge monomials = .ok merged) :
    powers ∈ powersOf merged ↔ powers ∈ powersOf monomials := by
  rw [powersOf_merge returned, mem_foldl_appendNew, or_iff_right List.not_mem_nil]

/-- A monomial with new powers is absorbed without any addition. -/
theorem absorb_of_new {sum : List (Monomial K)} {monomial : Monomial K}
    (new : monomial.powers ∉ powersOf sum) : absorb sum monomial = .ok (sum ++ [monomial]) := by
  induction sum with
  | nil => rfl
  | cons head rest hypothesis =>
      simp only [powersOf, List.map_cons, List.mem_cons, not_or] at new
      rw [absorb, if_neg (Ne.symm new.1), hypothesis new.2]
      rfl

/-- Distinct monomials are absorbed as they are. -/
theorem foldlM_absorb_of_nodup {monomials sum : List (Monomial K)}
    (distinct : (powersOf (sum ++ monomials)).Nodup) :
    monomials.foldlM absorb sum = .ok (sum ++ monomials) := by
  induction monomials generalizing sum with
  | nil =>
      rw [List.append_nil]
      rfl
  | cons head rest hypothesis =>
      have new : head.powers ∉ powersOf sum := by
        rw [powersOf, List.map_append, List.nodup_append] at distinct
        exact fun old => distinct.2.2 _ old _ List.mem_cons_self rfl
      have shifted : sum ++ head :: rest = (sum ++ [head]) ++ rest := by simp
      rw [shifted] at distinct ⊢
      rw [List.foldlM_cons, absorb_of_new new]
      exact hypothesis distinct

/-- Merging leaves monomials with distinct powers as they are. -/
theorem merge_of_nodup {monomials : List (Monomial K)} (distinct : (powersOf monomials).Nodup) :
    merge monomials = .ok monomials := by
  unfold merge
  exact foldlM_absorb_of_nodup distinct

theorem merge_singleton (monomial : Monomial K) : merge [monomial] = .ok [monomial] :=
  merge_of_nodup (List.nodup_singleton _)

/-- Negation changes no product. -/
theorem powersOf_negated (monomials : List (Monomial K)) :
    powersOf (negated monomials) = powersOf monomials := by
  unfold powersOf negated
  rw [List.map_map]
  rfl

omit [Coefficient K] in
/-- Where every step fixes the powers of its result, so does a sequence of steps. -/
theorem powersOf_mapM {A : Type} {step : A → Except Fault (Monomial K)} {powers : A → PowerProduct}
    (fixed : ∀ part item, step part = .ok item → item.powers = powers part) {list : List A}
    {monomials : List (Monomial K)} (returned : list.mapM step = .ok monomials) :
    powersOf monomials = list.map powers := by
  have related := mapM_eq_ok.1 returned
  induction related with
  | nil => rfl
  | cons head _ hypothesis =>
      rw [List.map_cons, ← fixed _ _ head]
      exact congrArg _ (hypothesis (mapM_eq_ok.2 ‹_›))

/-- The products of both monomials are multiplied. -/
theorem powers_mul {first second product : Monomial K} (returned : first.mul second = .ok product) :
    product.powers = first.powers.mul second.powers := by
  obtain ⟨coefficient, -, rfl⟩ := map_eq_ok.1 returned
  rfl

/-- The powers of a product of two polynomials, pair by pair. -/
theorem powersOf_products {first second monomials : List (Monomial K)}
    (returned : products first second = .ok monomials) :
    powersOf monomials = (powersOf first).flatMap fun left => (powersOf second).map left.mul := by
  rw [powersOf_mapM (fun pair item => powers_mul) returned, List.map_flatMap]
  simp only [powersOf, List.map_map, List.flatMap_map]
  rfl

/-- Every product of two monomials is among the products. -/
theorem mem_powersOf_products {first second monomials : List (Monomial K)} {powers : PowerProduct}
    (returned : products first second = .ok monomials) :
    powers ∈ powersOf monomials ↔
      ∃ left ∈ powersOf first, ∃ right ∈ powersOf second, left.mul right = powers := by
  simp only [powersOf_products returned, List.mem_flatMap, List.mem_map]

/-- A successful operation in place has written monomials and merged them. -/
theorem mergeFrom_eq_ok {polynomial merged : Polynomial K} {monomials : List (Monomial K)} :
    (polynomial.mergeFrom monomials).result = .ok merged ↔
      merge monomials = .ok merged.monomials ∧ merged.univariate = isUnivariate merged.monomials := by
  unfold mergeFrom
  split
  · rename_i list returned
    rw [returned]
    constructor
    · intro same
      cases same
      exact ⟨rfl, rfl⟩
    · rintro ⟨same, flag⟩
      obtain ⟨monomials, univariate⟩ := merged
      cases same
      change univariate = isUnivariate monomials at flag
      rw [flag]
      rfl
  · rename_i fault failed
    rw [failed]
    exact ⟨fun absurd => (nomatch absurd), fun absurd => (nomatch absurd.1)⟩

/-- A product is returned if all pairs are multiplied and their list is merged. -/
theorem mul_eq_ok {first second product : Polynomial K} :
    first.mul second = .ok product ↔ ∃ monomials,
      products first.monomials second.monomials = .ok monomials ∧
        merge monomials = .ok product.monomials ∧
        product.univariate = isUnivariate product.monomials := by
  unfold Polynomial.mul multiplyBy
  split
  · rename_i list returned
    rw [mergeFrom_eq_ok, returned]
    exact ⟨fun facts => ⟨list, rfl, facts⟩, fun ⟨_, same, facts⟩ => Except.ok.inj same ▸ facts⟩
  · rename_i fault failed
    rw [failed]
    exact ⟨fun absurd => (nomatch absurd), fun ⟨_, absurd, _⟩ => (nomatch absurd)⟩

/-- What is merged from does not matter for the result. -/
theorem result_mergeFrom (polynomial : Polynomial K) (monomials : List (Monomial K)) :
    (polynomial.mergeFrom monomials).result = ofMonomials monomials := by
  unfold mergeFrom ofMonomials
  split
  · rename_i merged returned
    rw [returned]
    rfl
  · rename_i fault failed
    rw [failed]
    rfl

/-- Distinct monomials make a polynomial as they are. -/
theorem ofMonomials_of_nodup {monomials : List (Monomial K)} (distinct : (powersOf monomials).Nodup) :
    ofMonomials monomials = .ok ⟨monomials, isUnivariate monomials⟩ := by
  rw [ofMonomials, merge_of_nodup distinct]
  rfl

/-- A product is made of the products of all pairs. -/
theorem mul_eq_bind (first second : Polynomial K) :
    first.mul second = products first.monomials second.monomials >>= ofMonomials := by
  unfold mul multiplyBy
  split
  · rename_i monomials returned
    rw [returned, result_mergeFrom]
    rfl
  · rename_i fault failed
    rw [failed]
    rfl

end TrigAlgebra.Polynomial
