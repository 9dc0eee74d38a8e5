/-
This file says what the sine and cosine of a single monomial come to when its coefficient is an
integer or a rounded number: a multiple of a variable with placeholders always has an expansion, and
any other monomial that is neither constant nor zero is refused.
-/

import TrigAlgebra.Proofs.ExpansionShape
import TrigAlgebra.Proofs.IntegerGrowth
import TrigAlgebra.Proofs.MonomialText

namespace TrigAlgebra

open TrigAlgebra.Polynomial TrigPolynomial

namespace Number

/-- An integer that can be rounded, or a rounded number, be it finite or not. -/
def Convertible : Number → Prop
  | .integer whole => ∃ rounded, floatOfInt whole = .ok rounded
  | .real _ => True
  | _ => False

variable {number : Number}

theorem Convertible.elementary (convertible : number.Convertible) : number.Elementary := by
  cases number with
  | integer value => trivial
  | real value => trivial
  | _ => exact convertible.elim

theorem exists_coefficientText (convertible : number.Convertible) :
    ∃ shown, Coefficient.text number = .ok shown := by
  cases number with
  | integer value =>
      obtain ⟨rounded, returned⟩ := convertible
      exact ⟨_, map_eq_ok.2 ⟨rounded, returned, rfl⟩⟩
  | real value => exact ⟨_, rfl⟩
  | _ => exact convertible.elim

end Number

namespace PowerProduct

/-- A degree of at most one leaves no power above the first. -/
theorem power_eq_one {product : PowerProduct} (degree : product.degree ≤ 1) {factor : Factor}
    (member : factor ∈ product.factors) : factor.power = 1 := by
  have any : ¬ product.isOne = true := List.isEmpty_iff.not.2 (List.ne_nil_of_mem member)
  rw [PowerProduct.degree, if_neg any, ← List.prod_eq_foldl] at degree
  have noZero : 0 ∉ product.factors.map Factor.power := by
    rintro zero
    obtain ⟨other, -, same⟩ := List.mem_map.1 zero
    exact other.positive.ne' same
  have divides : factor.power ∣ (product.factors.map Factor.power).prod :=
    List.dvd_prod (List.mem_map_of_mem member)
  have bound := Nat.le_of_dvd (Nat.pos_of_ne_zero (List.prod_ne_zero noZero)) divides
  exact Nat.le_antisymm (bound.trans degree) factor.positive

end PowerProduct

namespace Monomial

/-- The coefficient is an integer or a rounded number, finite unless it multiplies a variable, and
every variable has a name. -/
structure Admissible (item : Monomial Number) : Prop where
  convertible : item.coefficient.Convertible
  finite : item.powers = .one → ∀ value, item.coefficient = .real value → value.isFinite = true
  named : ∀ var, item.powers.Has var → NamingTable.Names {} var

/-- The variable has no placeholders. -/
def Unmapped (angles : AngleMap) (item : Monomial Number) : Prop :=
  ∃ var, item.powers.Has var ∧ angles.find? var = none

/-- A monomial other than zero is refused when its variable has no placeholders or when it is no
integer multiple. -/
def Refused (angles : AngleMap) (item : Monomial Number) : Prop :=
  item.powers ≠ .one ∧ Coefficient.isZero item.coefficient = false ∧
    (item.Unmapped angles ∨ ¬ item.coefficient.IsWhole)

/-- The fault names the variable without placeholders or else shows the monomial. -/
def Tells (angles : AngleMap) (item : Monomial Number) (fault : Fault) : Prop :=
  ∃ function, (item.Unmapped angles ∧ ∃ var name, item.powers.Has var ∧
      NamingTable.render {} var = .ok name ∧ fault = .unmappedVariable function name) ∨
    (¬ item.Unmapped angles ∧ ∃ shown, item.text = .ok shown ∧ fault = .multipleNotInteger function shown)

variable {item : Monomial Number} {angles : AngleMap} {var : Int}

/-- Without a power above the first the factors can be written. -/
theorem Admissible.exists_text (admissible : item.Admissible) (degree : item.powers.degree ≤ 1) :
    ∃ shown, item.text = .ok shown := by
  obtain ⟨shown, coefficient⟩ := Number.exists_coefficientText admissible.convertible
  have legible : ∀ factor ∈ item.powers.factors, factor.Legible := by
    intro factor member
    refine ⟨admissible.named _ ⟨factor, member, rfl⟩, ?_⟩
    rw [PowerProduct.power_eq_one degree member]
    exact Nat.one_lt_pow (by decide) (by decide)
  have powers := PowerProduct.text_eq legible
  unfold Monomial.text
  split
  · exact ⟨shown, coefficient⟩
  · rw [powers, coefficient]
    split
    · exact ⟨_, rfl⟩
    · exact ⟨_, rfl⟩

theorem ne_one_of_linear (powers : item.powers = .ofFactor (.linear var)) : item.powers ≠ .one := by
  rw [powers]
  exact fun same => (nomatch congrArg PowerProduct.factors same)

/-- A multiple of a named variable is admissible, also one that is not finite. -/
theorem admissible_linear {coefficient : Number} (convertible : coefficient.Convertible)
    (named : NamingTable.Names {} var) : Admissible ⟨coefficient, .ofFactor (.linear var)⟩ :=
  ⟨convertible, fun same => (ne_one_of_linear rfl same).elim,
    fun _ has => PowerProduct.has_ofFactor.1 has ▸ named⟩

end Monomial

namespace TrigPolynomial

open Number

variable {function : Circular} {trig : TrigPolynomial Number} {item : Monomial Number} {var : Int}
  {found : Placeholders} {multiple : Int}

/-- Adding angles to placeholders never meets an integer. -/
theorem within_addAngles {sine cosine : TrigPolynomial Number} (sized : Sized 0 sine.polynomial.monomials)
    (sized' : Sized 0 cosine.polynomial.monomials) (additions : Nat) :
    Within 0 (fun pair => Sized 0 pair.1.polynomial.monomials ∧ Sized 0 pair.2.polynomial.monomials)
      (addAngles sine cosine additions) := by
  induction additions with
  | zero => exact .ok ⟨sized, sized'⟩
  | succ additions hypothesis =>
      have zero : 0 * 0 ≤ 0 := Nat.le_refl 0
      have order := Nat.le_refl 0
      refine hypothesis.bind fun pair facts => ?_
      refine (within_mul facts.1 sized' order order zero).bind fun sineCosine one => ?_
      refine (within_mul facts.2 sized order order zero).bind fun cosineSine two => ?_
      refine (within_add one two order).bind fun nextSine sum => ?_
      refine (within_mul facts.2 sized' order order zero).bind fun cosineCosine three => ?_
      refine (within_mul facts.1 sized order order zero).bind fun sineSine four => ?_
      refine (within_sub three four order).bind fun nextCosine difference => ?_
      exact .ok ⟨sum, difference⟩

theorem exists_ofVariable (var : Int) : ∃ polynomial : Polynomial Number,
    ofVariable var Coefficient.one = .ok polynomial ∧ Sized 0 polynomial.monomials :=
  ⟨_, ofMonomials_singleton _, ⟨List.forall_mem_singleton.2 trivial, Nat.le_refl 0⟩⟩

theorem exists_multipleAngle (function : Circular) (angles : AngleMap) (found : Placeholders)
    (multiple : Int) (admissible : item.Admissible) (degree : item.powers.degree ≤ 1) :
    ∃ result, (multipleAngle function angles item found multiple).outcome = .ok result ∧
      Sized 0 result.polynomial.monomials := by
  obtain ⟨sine, sineCase, sizedSine⟩ := exists_ofVariable found.sine
  obtain ⟨cosine, cosineCase, sizedCosine⟩ := exists_ofVariable found.cosine
  obtain ⟨shown, text⟩ := admissible.exists_text degree
  have added := @within_addAngles ⟨sine, angles⟩ ⟨cosine, angles⟩ sizedSine sizedCosine
    (multiple.natAbs - 1)
  obtain ⟨pair, pairCase, sizedFirst, sizedSecond⟩ := added.exists_ok (Nat.zero_le 1)
  refine ⟨signed function multiple pair,
    multipleAngle_of_addAngles function text sineCase cosineCase pairCase, ?_⟩
  unfold signed
  cases function with
  | sine =>
      dsimp only
      split
      · exact sizedFirst.negated
      · exact sizedFirst
  | cosine => exact sizedSecond

end TrigPolynomial

end TrigAlgebra
