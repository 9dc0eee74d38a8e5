/-
This file follows the signs of the rounded coefficients of an expanded multiple: monomials that are
merged have the same sign, so that no coefficient ever becomes zero.
-/

import TrigAlgebra.Proofs.FloatSigns
import TrigAlgebra.Proofs.Footprints

namespace TrigAlgebra

open TrigAlgebra.Polynomial TrigPolynomial
open Float.Model.UnpackedFloat (Sign)

namespace Monomial

/-- The coefficient is a rounded number with the sign that belongs to the powers. -/
def HasSign (sign : PowerProduct → Sign) (item : Monomial Number) : Prop :=
  ∃ value, item.coefficient = .real value ∧ Binary64.HasSign (sign item.powers) value

variable {sign sign' : PowerProduct → Sign} {item first second product : Monomial Number}

/-- A monomial with a sign does not vanish. -/
theorem HasSign.isZero_eq_false (signed : item.HasSign sign) :
    Coefficient.isZero item.coefficient = false := by
  obtain ⟨value, shape, directed⟩ := signed
  rw [shape, Number.isZero_eq]
  change ((BigFloat.ofFloat value).isZero && true) = false
  rw [directed.isZero_eq_false]
  rfl

/-- The negative has the opposite sign. -/
theorem HasSign.neg (signed : item.HasSign sign) : item.neg.HasSign fun powers => -sign powers := by
  obtain ⟨value, shape, directed⟩ := signed
  refine ⟨-value, ?_, directed.neg⟩
  rw [Monomial.neg, shape]
  rfl

/-- Equal powers belong to equal signs, and the sum keeps the sign. -/
theorem HasSign.add (signed : first.HasSign sign) (signed' : second.HasSign sign)
    (same : first.powers = second.powers) {coefficient : Number}
    (sum : Coefficient.add first.coefficient second.coefficient = .ok coefficient) :
    HasSign sign ⟨coefficient, first.powers⟩ := by
  obtain ⟨value, shape, directed⟩ := signed
  obtain ⟨value', shape', directed'⟩ := signed'
  rw [← same] at directed'
  rw [shape, shape'] at sum
  exact ⟨value + value', (Except.ok.inj sum).symm, directed.add directed'⟩

/-- A factor of one keeps the number, and the sign may be called that of the longer product. -/
theorem HasSign.mul_linear {var : Int} (signed : first.HasSign sign)
    (turned : sign' (first.powers.mul (.ofFactor (.linear var))) = sign first.powers)
    (returned : first.mul ⟨.real 1.0, .ofFactor (.linear var)⟩ = .ok product) : product.HasSign sign' := by
  obtain ⟨value, shape, directed⟩ := signed
  unfold Monomial.mul at returned
  rw [shape] at returned
  cases returned
  refine ⟨value, congrArg Number.real (Binary64.mul_one_eq value), ?_⟩
  rw [turned]
  exact directed

end Monomial

namespace Polynomial

variable {sign : PowerProduct → Sign} {item : Monomial Number} {sum merged monomials : List (Monomial Number)}

/-- Monomials of one sign never cancel. -/
theorem hasSign_absorb (sumSigned : ∀ item ∈ sum, item.HasSign sign) (signed : item.HasSign sign)
    (absorbed : absorb sum item = .ok merged) : ∀ item ∈ merged, item.HasSign sign := by
  induction sum generalizing merged with
  | nil =>
      cases absorbed
      exact List.forall_mem_singleton.2 signed
  | cons head rest hypothesis =>
      rw [List.forall_mem_cons] at sumSigned
      simp only [absorb] at absorbed
      split at absorbed
      · rename_i same
        obtain ⟨coefficient, added, rfl⟩ := map_eq_ok.1 absorbed
        exact List.forall_mem_cons.2 ⟨sumSigned.1.add signed same added, sumSigned.2⟩
      · obtain ⟨tail, tailCase, rfl⟩ := map_eq_ok.1 absorbed
        exact List.forall_mem_cons.2 ⟨sumSigned.1, hypothesis sumSigned.2 tailCase⟩

/-- However many are absorbed, monomials of one sign never cancel. -/
theorem hasSign_foldlM_absorb (sumSigned : ∀ item ∈ sum, item.HasSign sign)
    (signed : ∀ item ∈ monomials, item.HasSign sign)
    (absorbed : monomials.foldlM absorb sum = .ok merged) : ∀ item ∈ merged, item.HasSign sign := by
  induction monomials generalizing sum with
  | nil =>
      cases absorbed
      exact sumSigned
  | cons head rest hypothesis =>
      rw [List.forall_mem_cons] at signed
      rw [List.foldlM_cons, bind_eq_ok] at absorbed
      obtain ⟨next, headCase, restCase⟩ := absorbed
      exact hypothesis (hasSign_absorb sumSigned signed.1 headCase) signed.2 restCase

/-- Merging monomials of one sign keeps their signs. -/
theorem hasSign_merge (signed : ∀ item ∈ monomials, item.HasSign sign)
    (returned : merge monomials = .ok merged) : ∀ item ∈ merged, item.HasSign sign :=
  hasSign_foldlM_absorb (List.forall_mem_nil _) signed returned

end Polynomial

namespace TrigPolynomial

/-- All coefficients have the sign that belongs to their powers. -/
def Signed (sign : PowerProduct → Sign) (trig : TrigPolynomial Number) : Prop :=
  ∀ item ∈ trig.polynomial.monomials, item.HasSign sign

namespace Signed

variable {sign sign' : PowerProduct → Sign} {first second result : TrigPolynomial Number}

/-- The negative has all signs changed. -/
theorem neg (signed : Signed sign first) : Signed (fun powers => -sign powers) first.neg :=
  List.forall_mem_map.2 fun item member => (signed item member).neg

/-- Two polynomials with the same signs have a sum with these signs. -/
theorem add (signed : Signed sign first) (signed' : Signed sign second)
    (returned : first.add second = .ok result) : Signed sign result :=
  hasSign_merge (List.forall_mem_append.2 ⟨signed, signed'⟩)
    (mergeFrom_eq_ok.1 (add_eq_ok.1 returned).1).1

/-- What is subtracted has the other sign. -/
theorem sub (signed : Signed sign first) (opposed : Signed sign second.neg)
    (returned : first.sub second = .ok result) : Signed sign result :=
  hasSign_merge (List.forall_mem_append.2 ⟨signed, opposed⟩)
    (mergeFrom_eq_ok.1 (sub_eq_ok.1 returned).1).1

/-- Multiplying by a variable keeps the signs. -/
theorem mul_linear {var : Int} (signed : Signed sign first)
    (shape : second.polynomial.monomials = [⟨.real 1.0, .ofFactor (.linear var)⟩])
    (turned : ∀ powers ∈ powersOf first.polynomial.monomials,
      sign' (powers.mul (.ofFactor (.linear var))) = sign powers)
    (returned : first.mul second = .ok result) : Signed sign' result := by
  obtain ⟨monomials, pairs, merged, -⟩ := Polynomial.mul_eq_ok.1 (mul_eq_ok.1 returned).1
  refine hasSign_merge (fun item member => ?_) merged
  obtain ⟨⟨left, right⟩, pair, product⟩ := exists_of_mem_mapM pairs member
  obtain ⟨old, isOld, inRow⟩ := List.mem_flatMap.1 pair
  rw [shape, List.map_singleton, List.mem_singleton] at inRow
  cases inRow
  exact (signed left isOld).mul_linear (turned _ (List.mem_map_of_mem isOld)) product

end Signed

/-- The sign changes with every second sine. -/
def turnSign (sine : Int) (product : PowerProduct) : Sign :=
  if product.degreeOf sine % 4 < 2 then .positive else .negative

variable {found : Placeholders} {powers : PowerProduct}

/-- One more cosine keeps the sign. -/
theorem turnSign_mul_cosine (different : found.sine ≠ found.cosine) :
    turnSign found.sine (powers.mul (.ofFactor (.linear found.cosine))) = turnSign found.sine powers := by
  rw [turnSign, PowerProduct.degreeOf_mul, PowerProduct.degreeOf_linear, if_neg different.symm]
  rfl

/-- A sine after an even number of them keeps the sign. -/
theorem turnSign_mul_sine_of_even {sine : Int} (even : powers.degreeOf sine % 2 = 0) :
    turnSign sine (powers.mul (.ofFactor (.linear sine))) = turnSign sine powers := by
  rw [turnSign, turnSign, PowerProduct.degreeOf_mul, PowerProduct.degreeOf_linear, if_pos rfl]
  congr 1
  rw [eq_iff_iff]
  omega

/-- A sine after an odd number of them changes the sign. -/
theorem turnSign_mul_sine_of_odd {sine : Int} (odd : powers.degreeOf sine % 2 = 1) :
    -turnSign sine (powers.mul (.ofFactor (.linear sine))) = turnSign sine powers := by
  rw [turnSign, turnSign, PowerProduct.degreeOf_mul, PowerProduct.degreeOf_linear, if_pos rfl]
  by_cases below : powers.degreeOf sine % 4 < 2
  · rw [if_pos below, if_neg (by omega)]
    rfl
  · rw [if_neg below, if_pos (by omega)]
    rfl

variable {angles : AngleMap} {function : Circular} {sine cosine : Polynomial Number}

/-- The powers of the sine in a multiple of an angle are all odd or all even. -/
theorem parity_of_supported {size : Nat} {trig : TrigPolynomial Number}
    (different : found.sine ≠ found.cosine)
    (supported : Supported ((Footprint.ofPlaceholders found ^ size).part function) angles trig) :
    ∀ powers ∈ powersOf trig.polynomial.monomials, powers.degreeOf found.sine % 2 = function.parity := by
  intro powers member
  obtain ⟨sines, -, parity, rfl⟩ := (Footprint.mem_part_pow found size function powers).1
    ((supported.mem_iff powers).1 member)
  rw [PowerProduct.degreeOf_ofSines different, parity]

theorem signed_ofVariable {var : Int} {polynomial : Polynomial Number} (sine : Int)
    (built : ofVariable var Coefficient.one = .ok polynomial) :
    Signed (turnSign sine) ⟨polynomial, angles⟩ := by
  have first : turnSign sine (.ofFactor (.linear var)) = .positive := by
    rw [turnSign, PowerProduct.degreeOf_linear]
    split <;> rfl
  rw [Signed, monomials_ofVariable built, List.forall_mem_singleton]
  exact ⟨1.0, rfl, first ▸ Binary64.hasSign_one⟩

/-- The sines with odd powers take the sign of the cosines before them, which the subtraction turns. -/
theorem signed_addAngles {additions : Nat} {pair : TrigPolynomial Number × TrigPolynomial Number}
    (different : found.sine ≠ found.cosine)
    (sineCase : ofVariable found.sine Coefficient.one = .ok sine)
    (cosineCase : ofVariable found.cosine Coefficient.one = .ok cosine)
    (returned : addAngles ⟨sine, angles⟩ ⟨cosine, angles⟩ additions = .ok pair) :
    Signed (turnSign found.sine) pair.1 ∧ Signed (turnSign found.sine) pair.2 := by
  have sineShape := monomials_ofVariable sineCase
  have cosineShape := monomials_ofVariable cosineCase
  induction additions generalizing pair with
  | zero =>
      cases returned
      exact ⟨signed_ofVariable found.sine sineCase, signed_ofVariable found.sine cosineCase⟩
  | succ additions hypothesis =>
      obtain ⟨before, beforeCase, returned⟩ := bind_eq_ok.1 returned
      obtain ⟨sineSigned, cosineSigned⟩ := hypothesis beforeCase
      obtain ⟨sineTraces, cosineTraces⟩ := traces_addAngles (traces_ofVariable sineCase cosineCase) beforeCase
      have odd := parity_of_supported different sineTraces
      have even := parity_of_supported different cosineTraces
      simp only [addAngle, bind_eq_ok, pure_eq_ok] at returned
      obtain ⟨sineCosine, one, cosineSine, two, nextSine, sum, cosineCosine, three, sineSine, four,
        nextCosine, difference, rfl⟩ := returned
      constructor
      · refine Signed.add ?_ ?_ sum
        · exact sineSigned.mul_linear cosineShape (fun _ _ => turnSign_mul_cosine different) one
        · exact cosineSigned.mul_linear sineShape
            (fun powers member => turnSign_mul_sine_of_even (even powers member)) two
      · refine Signed.sub ?_ ?_ difference
        · exact cosineSigned.mul_linear cosineShape (fun _ _ => turnSign_mul_cosine different) three
        · have opposed : Signed (fun powers => -turnSign found.sine powers) sineSine :=
            sineSigned.mul_linear sineShape
              (fun powers member => turnSign_mul_sine_of_odd (odd powers member)) four
          have twice (sign : Sign) : - -sign = sign := by cases sign <;> rfl
          have turned := opposed.neg
          simp only [twice] at turned
          exact turned

/-- However large a multiple is, no coefficient of its sine and cosine is rounded to zero. -/
theorem nonzero_multipleAngle {item : Monomial Number} {multiple : Int} {result : TrigPolynomial Number}
    (different : found.sine ≠ found.cosine)
    (returned : (multipleAngle function angles item found multiple).outcome = .ok result) :
    ∀ item ∈ result.polynomial.monomials, Coefficient.isZero item.coefficient = false := by
  obtain ⟨sine, cosine, pair, sineCase, cosineCase, pairCase, rfl⟩ := multipleAngle_eq_ok returned
  obtain ⟨ofSine, ofCosine⟩ := signed_addAngles different sineCase cosineCase pairCase
  cases function with
  | sine =>
      unfold signed
      dsimp only
      split
      · exact fun item member => (ofSine.neg item member).isZero_eq_false
      · exact fun item member => (ofSine item member).isZero_eq_false
  | cosine => exact fun item member => (ofCosine item member).isZero_eq_false

end TrigPolynomial

end TrigAlgebra
