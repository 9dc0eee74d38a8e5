/-
This file proves that the walk over the monomials finds out whether at most one variable occurs in
them.
-/

import TrigAlgebra.Proofs.Variables

namespace TrigAlgebra.Polynomial

variable {K : Type}

/-- At most one variable occurs in the products. -/
def Univariate (products : List PowerProduct) : Prop :=
  ∀ first second, Occurs first products → Occurs second products → first = second

theorem univariate_iff {products : List PowerProduct} :
    Univariate products ↔ ∃ single, ∀ var, Occurs var products → var = single := by
  constructor
  · intro univariate
    by_cases any : ∃ var, Occurs var products
    · obtain ⟨single, occurs⟩ := any
      exact ⟨single, fun var other => univariate var single other occurs⟩
    · exact ⟨noVariable, fun var occurs => (any ⟨var, occurs⟩).elim⟩
  · rintro ⟨single, only⟩ first second isFirst isSecond
    rw [only first isFirst, only second isSecond]

/-- The walk succeeds when one variable can be both the one seen before and all that are still to
come. -/
theorem singleVariable_iff {monomials : List (Monomial K)} {seen : Int}
    (named : ¬ Occurs noVariable (powersOf monomials)) :
    singleVariable seen monomials = true ↔ ∃ single, (seen = noVariable ∨ seen = single) ∧
      ∀ var, Occurs var (powersOf monomials) → var = single := by
  induction monomials generalizing seen with
  | nil =>
      refine iff_of_true rfl ⟨seen, .inr rfl, ?_⟩
      exact fun var occurs => (not_occurs_nil occurs).elim
  | cons head rest hypothesis =>
      change ¬ Occurs noVariable (head.powers :: powersOf rest) at named
      change _ ↔ ∃ single, _ ∧ ∀ var, Occurs var (head.powers :: powersOf rest) → _
      rw [occurs_cons, not_or] at named
      simp only [occurs_cons]
      unfold singleVariable
      split
      · rename_i factors
        simp only [PowerProduct.not_has_of_factors_nil factors, false_or]
        exact hypothesis named.2
      · rename_i factor factors
        have only := PowerProduct.has_of_factors_singleton factors
        have nonzero : factor.var ≠ noVariable := fun absurd => named.1 ((only _).2 absurd.symm)
        simp only [only]
        split
        · rename_i fresh
          rw [hypothesis named.2]
          constructor
          · rintro ⟨single, same, others⟩
            have here := same.resolve_left nonzero
            exact ⟨single, .inl fresh, fun var occurs => occurs.elim (fun is => is.trans here) (others var)⟩
          · rintro ⟨single, -, others⟩
            exact ⟨single, .inr (others _ (.inl rfl)), fun var occurs => others var (.inr occurs)⟩
        · rename_i used
          split
          · rename_i same
            rw [hypothesis named.2]
            constructor
            · rintro ⟨single, before, others⟩
              have here := before.resolve_left used
              exact ⟨single, .inr here,
                fun var occurs => occurs.elim (fun is => (is.trans same).trans here) (others var)⟩
            · rintro ⟨single, before, others⟩
              exact ⟨single, before, fun var occurs => others var (.inr occurs)⟩
          · rename_i different
            refine iff_of_false Bool.false_ne_true ?_
            rintro ⟨single, before, others⟩
            exact different ((others _ (.inl rfl)).trans (before.resolve_left used).symm)
      · rename_i first second others factors
        obtain ⟨hasFirst, hasSecond, different⟩ := PowerProduct.has_of_factors_cons_cons factors
        refine iff_of_false Bool.false_ne_true ?_
        rintro ⟨single, -, all⟩
        have one := all first.var (.inl hasFirst)
        have two := all second.var (.inl hasSecond)
        exact different (one.trans two.symm)

/-- The walk from the first monomial on decides whether at most one variable occurs. -/
theorem isUnivariate_iff {monomials : List (Monomial K)}
    (named : ¬ Occurs noVariable (powersOf monomials)) :
    isUnivariate monomials = true ↔ Univariate (powersOf monomials) := by
  unfold isUnivariate
  rw [singleVariable_iff named, univariate_iff]
  simp only [true_or, true_and]

end TrigAlgebra.Polynomial
