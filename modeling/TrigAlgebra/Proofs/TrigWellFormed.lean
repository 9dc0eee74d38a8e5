/-
This file proves that the operations on trigonometric polynomials, and the expansion of sines and
cosines, leave well-formed polynomials.
-/

import TrigAlgebra.Proofs.Expansion
import TrigAlgebra.Proofs.WellFormed

namespace TrigAlgebra

namespace AngleMap

/-- The placeholders of all angles are variables. -/
def Named (angles : AngleMap) : Prop :=
  ∀ entry ∈ angles.entries, ∀ function, entry.2.of function ≠ noVariable

/-- A map without entries has no placeholders at all. -/
theorem named_empty : empty.Named :=
  fun _ member => (List.not_mem_nil member).elim

/-- A new entry replaces one or comes last; the others stay. -/
theorem mem_setEntry {angle : Int} {placeholders : Placeholders}
    {entries : List (Int × Placeholders)}
    {entry : Int × Placeholders} (member : entry ∈ setEntry angle placeholders entries) :
    entry.2 = placeholders ∨ entry ∈ entries := by
  induction entries with
  | nil => exact .inl (congrArg Prod.snd (List.mem_singleton.1 member))
  | cons head rest hypothesis =>
      simp only [setEntry] at member
      split at member
      · rcases List.mem_cons.1 member with rfl | inRest
        · exact .inl rfl
        · exact .inr (List.mem_cons_of_mem _ inRest)
      · rcases List.mem_cons.1 member with rfl | inRest
        · exact .inr List.mem_cons_self
        · exact (hypothesis inRest).imp_right (List.mem_cons_of_mem _)

/-- A new entry with proper placeholders keeps the map proper. -/
theorem named_set {angles : AngleMap} {placeholders : Placeholders} (angle : Int)
    (named : angles.Named)
    (new : ∀ function, placeholders.of function ≠ noVariable) :
    (angles.set angle placeholders).Named := by
  intro entry member
  rcases mem_setEntry member with same | old
  · rw [same]
    exact new
  · exact named entry old

/-- By induction on the entries that are set one after the other. -/
theorem named_foldl_set {entries : List (Int × Placeholders)} {angles : AngleMap}
    (named : angles.Named)
    (new : ∀ entry ∈ entries, ∀ function, entry.2.of function ≠ noVariable) :
    (entries.foldl (fun angles entry => angles.set entry.1 entry.2) angles).Named := by
  induction entries generalizing angles with
  | nil => exact named
  | cons head rest hypothesis =>
      rw [List.forall_mem_cons] at new
      exact hypothesis (named_set head.1 named new.1) new.2

/-- A map of proper entries is proper, whatever entries hide others. -/
theorem named_ofList {entries : List (Int × Placeholders)}
    (new : ∀ entry ∈ entries, ∀ function, entry.2.of function ≠ noVariable) :
    (ofList entries).Named :=
  named_foldl_set named_empty new

/-- Two proper maps make a proper one. -/
theorem named_update {angles other : AngleMap} (named : angles.Named) (otherNamed : other.Named) :
    (angles.update other).Named :=
  named_foldl_set named otherNamed

/-- The entry that is found is the only one for its angle. -/
theorem find?_eq_some {angles : AngleMap} {angle : Int} {found : Placeholders} :
    angles.find? angle = some found ↔ (angle, found) ∈ angles.entries := by
  constructor
  · intro known
    obtain ⟨entry, isEntry, rfl⟩ := Option.map_eq_some_iff.1 known
    have same : entry.1 = angle := by simpa using List.find?_some isEntry
    rw [← same]
    exact List.mem_of_find?_eq_some isEntry
  · intro member
    unfold find?
    cases first : angles.entries.find? fun entry => entry.1 == angle with
    | none => exact (List.find?_eq_none.1 first _ member (beq_self_eq_true angle)).elim
    | some entry =>
        have same : entry.1 = angle := by simpa using List.find?_some first
        have equal : entry = (angle, found) :=
          List.inj_on_of_nodup_map angles.distinct (List.mem_of_find?_eq_some first) member same
        rw [equal]
        rfl

/-- The placeholders that are found are proper variables. -/
theorem named_of_find? {angles : AngleMap} {angle : Int} {found : Placeholders}
    (named : angles.Named)
    (known : angles.find? angle = some found) (function : Circular) :
    found.of function ≠ noVariable := by
  exact named _ (find?_eq_some.1 known) function

end AngleMap

namespace TrigPolynomial

variable {K : Type}

/-- The polynomial is well formed, and no placeholder is the variable that does not exist. -/
structure WellFormed (trig : TrigPolynomial K) : Prop where
  polynomial : trig.polynomial.WellFormed
  angles : trig.angles.Named

/-- A constant has no variables, whatever the angles are. -/
theorem wellFormed_constant (value : K) {angles : AngleMap} (named : angles.Named) :
    (constant value angles).WellFormed :=
  ⟨Polynomial.wellFormed_constant value, named⟩

variable [Coefficient K] {trig other new : TrigPolynomial K}

omit [Coefficient K] in
/-- A result with the angles of both operands has only named angles. -/
theorem WellFormed.of_update (wellFormed : trig.WellFormed) (otherWellFormed : other.WellFormed)
    (polynomial : new.polynomial.WellFormed)
    (angles : new.angles = trig.angles.update other.angles) : new.WellFormed := by
  refine ⟨polynomial, ?_⟩
  rw [angles]
  exact AngleMap.named_update wellFormed.angles otherWellFormed.angles

/-- A sum takes its polynomial from both operands, and its angles too. -/
theorem wellFormed_add (wellFormed : trig.WellFormed) (otherWellFormed : other.WellFormed)
    (returned : trig.add other = .ok new) : new.WellFormed := by
  obtain ⟨sum, angles⟩ := add_eq_ok.1 returned
  have ofSum := Polynomial.wellFormed_add wellFormed.polynomial otherWellFormed.polynomial sum
  exact wellFormed.of_update otherWellFormed ofSum angles

/-- A difference takes its polynomial from both operands, and its angles too. -/
theorem wellFormed_sub (wellFormed : trig.WellFormed) (otherWellFormed : other.WellFormed)
    (returned : trig.sub other = .ok new) : new.WellFormed := by
  obtain ⟨difference, angles⟩ := sub_eq_ok.1 returned
  have ofDifference :=
    Polynomial.wellFormed_sub wellFormed.polynomial otherWellFormed.polynomial difference
  exact wellFormed.of_update otherWellFormed ofDifference angles

/-- A product takes its polynomial from both operands, and its angles too. -/
theorem wellFormed_mul (wellFormed : trig.WellFormed) (otherWellFormed : other.WellFormed)
    (returned : trig.mul other = .ok new) : new.WellFormed := by
  obtain ⟨product, angles⟩ := mul_eq_ok.1 returned
  have ofProduct := Polynomial.wellFormed_mul wellFormed.polynomial otherWellFormed.polynomial product
  exact wellFormed.of_update otherWellFormed ofProduct angles

/-- The sign changes no powers and no angles. -/
theorem wellFormed_neg (wellFormed : trig.WellFormed) : trig.neg.WellFormed :=
  ⟨Polynomial.wellFormed_neg wellFormed.polynomial, wellFormed.angles⟩

/-- One more addition of the angle keeps sine and cosine well formed. -/
theorem wellFormed_addAngle {sine cosine : TrigPolynomial K}
    {multiple next : TrigPolynomial K × TrigPolynomial K}
    (ofSine : sine.WellFormed) (ofCosine : cosine.WellFormed)
    (before : multiple.1.WellFormed ∧ multiple.2.WellFormed)
    (returned : addAngle sine cosine multiple = .ok next) :
    next.1.WellFormed ∧ next.2.WellFormed := by
  simp only [addAngle, bind_eq_ok, pure_eq_ok] at returned
  obtain ⟨sineCosine, one, cosineSine, two, nextSine, sum, cosineCosine, three, sineSine, four,
    nextCosine, difference, rfl⟩ := returned
  exact ⟨wellFormed_add (wellFormed_mul before.1 ofCosine one) (wellFormed_mul before.2 ofSine two) sum,
    wellFormed_sub (wellFormed_mul before.2 ofCosine three) (wellFormed_mul before.1 ofSine four) difference⟩

/-- By induction on the additions. -/
theorem wellFormed_addAngles {sine cosine : TrigPolynomial K} {additions : Nat}
    {pair : TrigPolynomial K × TrigPolynomial K} (ofSine : sine.WellFormed)
    (ofCosine : cosine.WellFormed)
    (returned : addAngles sine cosine additions = .ok pair) :
    pair.1.WellFormed ∧ pair.2.WellFormed := by
  induction additions generalizing pair with
  | zero =>
      cases returned
      exact ⟨ofSine, ofCosine⟩
  | succ additions hypothesis =>
      obtain ⟨before, beforeCase, returned⟩ := bind_eq_ok.1 returned
      exact wellFormed_addAngle ofSine ofCosine (hypothesis beforeCase) returned

/-- The sign of a multiple only concerns the coefficients. -/
theorem wellFormed_signed (function : Circular) (multiple : Int)
    {pair : TrigPolynomial K × TrigPolynomial K}
    (wellFormed : pair.1.WellFormed ∧ pair.2.WellFormed) :
    (signed function multiple pair).WellFormed := by
  cases function with
  | sine =>
      by_cases negative : multiple < 0
      · simp only [signed, if_pos negative]
        exact wellFormed_neg wellFormed.1
      · simp only [signed, if_neg negative]
        exact wellFormed.1
  | cosine => exact wellFormed.2

/-- The expansion of a multiple starts from the placeholders as variables. -/
theorem wellFormed_multipleAngle {function : Circular} {angles : AngleMap} {item : Monomial K}
    {found : Placeholders} {multiple : Int} (named : angles.Named)
    (places : ∀ function, found.of function ≠ noVariable)
    (returned : (multipleAngle function angles item found multiple).outcome = .ok new) :
    new.WellFormed := by
  obtain ⟨sine, cosine, pair, sineCase, cosineCase, pairCase, rfl⟩ := multipleAngle_eq_ok returned
  have ofSine : (⟨sine, angles⟩ : TrigPolynomial K).WellFormed :=
    ⟨Polynomial.wellFormed_ofVariable (places .sine) sineCase, named⟩
  have ofCosine : (⟨cosine, angles⟩ : TrigPolynomial K).WellFormed :=
    ⟨Polynomial.wellFormed_ofVariable (places .cosine) cosineCase, named⟩
  exact wellFormed_signed function multiple (wellFormed_addAngles ofSine ofCosine pairCase)

/-- The angle is renamed to a proper variable. -/
theorem wellFormed_singleAngle {function : Circular} {var multiple : Int} {found : Placeholders}
    (wellFormed : trig.WellFormed) (places : ∀ function, found.of function ≠ noVariable)
    (returned : singleAngle function trig var found multiple = .ok new) : new.WellFormed := by
  obtain ⟨angles, renamed, renamedCase, scaled⟩ := singleAngle_eq_ok returned
  have ofRenamed := Polynomial.wellFormed_rename (places function) wellFormed.polynomial renamedCase
  have named : new.angles.Named := angles ▸ wellFormed.angles
  split at scaled
  · exact ⟨Polynomial.wellFormed_scale ofRenamed scaled, named⟩
  · exact ⟨scaled ▸ ofRenamed, named⟩

/-- Some of the monomials of a sum are well formed as a polynomial of their own. -/
theorem wellFormed_part {monomials list : List (Monomial K)} {part : Polynomial K}
    (wellFormed : trig.WellFormed) (shape : trig.polynomial.monomials = monomials)
    (sublist : list.Sublist monomials) (built : Polynomial.ofMonomials list = .ok part) :
    (⟨part, trig.angles⟩ : TrigPolynomial K).WellFormed := by
  refine ⟨Polynomial.wellFormed_ofMonomials ?_ built, wellFormed.angles⟩
  intro occurs
  obtain ⟨item, member, has⟩ := Polynomial.occurs_powersOf.1 occurs
  exact wellFormed.polynomial.named
    (Polynomial.occurs_powersOf.2 ⟨item, shape ▸ sublist.subset member, has⟩)

/-- Whatever way the expansion takes, it leaves a well-formed polynomial. -/
theorem wellFormed_expands {function : Circular} (expands : Expands function trig new)
    (wellFormed : trig.WellFormed) : new.WellFormed := by
  induction expands with
  | nothing => exact wellFormed_constant _ wellFormed.angles
  | constant => exact wellFormed_constant _ wellFormed.angles
  | zero => exact wellFormed_constant _ wellFormed.angles
  | single shape powers known integer unit returned =>
      exact wellFormed_singleAngle wellFormed (AngleMap.named_of_find? wellFormed.angles known) returned
  | multiple shape powers nonzero known integer returned =>
      exact wellFormed_multipleAngle wellFormed.angles
        (AngleMap.named_of_find? wellFormed.angles known) returned
  | sineOfSum shape firstCase restCase _ _ _ _ left right sum sineFirst cosineFirst sineRest cosineRest =>
      have first := wellFormed_part wellFormed shape (List.Sublist.cons_cons _ (List.nil_sublist _)) firstCase
      have rest := wellFormed_part wellFormed shape (List.sublist_cons_self _ _) restCase
      exact wellFormed_add (wellFormed_mul (sineFirst first) (cosineRest rest) left)
        (wellFormed_mul (cosineFirst first) (sineRest rest) right) sum
  | cosineOfSum shape firstCase restCase _ _ _ _ left right difference sineFirst cosineFirst sineRest
      cosineRest =>
      have first := wellFormed_part wellFormed shape (List.Sublist.cons_cons _ (List.nil_sublist _)) firstCase
      have rest := wellFormed_part wellFormed shape (List.sublist_cons_self _ _) restCase
      exact wellFormed_sub (wellFormed_mul (cosineFirst first) (cosineRest rest) left)
        (wellFormed_mul (sineFirst first) (sineRest rest) right) difference

/-- The sine and cosine of well formed arguments are well formed. -/
theorem wellFormed_expand {function : Circular} (wellFormed : trig.WellFormed)
    (returned : (expand function trig).outcome = .ok new) : new.WellFormed :=
  wellFormed_expands (expands_of_expand returned) wellFormed

end TrigPolynomial

end TrigAlgebra
