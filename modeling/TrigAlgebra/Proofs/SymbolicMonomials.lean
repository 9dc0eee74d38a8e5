/-
This file follows one monomial into a symbolic expression and back: its variables are written as
symbols, its powers become one term, and the term is read as the same powers.
-/

import TrigAlgebra.Proofs.NamesInText
import TrigAlgebra.Proofs.SymbolicSums
import TrigAlgebra.Proofs.Variables

namespace TrigAlgebra

open Symbolic

theorem natCast_natural {exponent : Nat} (positive : 0 < exponent) :
    (exponent : Rat).den = 1 ∧ 0 < (exponent : Rat).num :=
  ⟨Rat.den_natCast _, by rw [Rat.num_natCast]; exact_mod_cast positive⟩

namespace Factor

/-- The power of a symbol as which a factor is written. -/
def atom (factor : Factor) : Atom × Rat :=
  (.variable (NamingTable.written {} factor.var), factor.power)

theorem factorOfPower_atom {factor : Factor} (named : NamingTable.Names {} factor.var) :
    factorOfPower factor.atom = .ok factor := by
  obtain ⟨name, index, read, packed⟩ :=
    NamingTable.read_written NamingTable.writable_standard NamingTable.nodup_standard named
  unfold factorOfPower atom
  dsimp only
  rw [dif_pos (natCast_natural factor.positive), read]
  change (do let var ← NamingTable.encode {} name index; _) = _
  rw [packed]
  refine congrArg Except.ok ?_
  cases factor
  congr 1

/-- The expression as which a factor is written. -/
def expression (factor : Factor) : Expression :=
  .pow (.symbol (NamingTable.written {} factor.var)) (.number (.ofInt factor.power))

theorem toExpression_eq {factor : Factor} (named : NamingTable.Names {} factor.var) :
    factor.toExpression = .ok factor.expression := by
  rw [toExpression, NamingTable.render_written NamingTable.writable_standard named]
  rfl

end Factor

namespace PowerProduct

/-- All variables have names. -/
def Named (product : PowerProduct) : Prop :=
  ∀ factor ∈ product.factors, NamingTable.Names {} factor.var

/-- The powers of symbols as which a product is written. -/
def atoms (product : PowerProduct) : Powers := product.factors.map Factor.atom

theorem ofFactors_of_perm {product : PowerProduct} {factors : List Factor}
    (order : factors.Perm product.factors) : ofFactors factors = product := by
  apply exponents_injective
  rw [exponents_ofFactors]
  exact (order.map fun factor => Finsupp.single factor.var factor.power).sum_eq

variable {product other : PowerProduct}

theorem mapM_factorOfPower {factors : List Factor} (named : ∀ factor ∈ factors, NamingTable.Names {} factor.var) :
    (factors.map Factor.atom).mapM factorOfPower = .ok factors := by
  rw [mapM_eq_ok, List.forall₂_map_left_iff, List.forall₂_same]
  exact fun factor member => Factor.factorOfPower_atom (named factor member)

/-- Powers of symbols are read back in any order. -/
theorem read_atoms (named : product.Named) {powers : Powers} (order : powers.Perm product.atoms) :
    ∃ factors, powers.mapM factorOfPower = .ok factors ∧ ofFactors factors = product := by
  obtain ⟨factors, read, order'⟩ :=
    List.perm_comp_forall₂ order (mapM_eq_ok.1 (mapM_factorOfPower named))
  exact ⟨factors, mapM_eq_ok.2 read, ofFactors_of_perm order'⟩

/-- Products with the same powers of symbols are equal: both are read from these powers. -/
theorem atoms_injective (named : product.Named) (named' : other.Named)
    (same : product.atoms.Perm other.atoms) : product = other := by
  obtain ⟨factors, read, built⟩ := read_atoms named' same
  rw [atoms, mapM_factorOfPower named] at read
  cases read
  rw [← built, ofFactors_of_perm (.refl _)]

theorem reduced_atoms (named : product.Named) : product.atoms.Reduced where
  distinct := by
    rw [atoms, List.map_map]
    refine List.pairwise_map.2 (product.increasing.imp_of_mem fun first second less same => ?_)
    exact less.ne (NamingTable.written_injective NamingTable.writable_standard NamingTable.nodup_standard
      (named _ first) (named _ second) (Atom.variable.inj same))
  nonzero power member := by
    obtain ⟨factor, -, rfl⟩ := List.mem_map.1 member
    exact Nat.cast_ne_zero.2 factor.positive.ne'

end PowerProduct

namespace Symbolic

theorem powNat_ofInt (value : Int) (exponent : Nat) :
    Scalar.powNat (.ofInt value) exponent = .ofInt (value ^ exponent) := by
  induction exponent using Nat.strongRecOn with
  | ind exponent hypothesis =>
      unfold Scalar.powNat
      split
      · rename_i zero
        rw [zero, pow_zero]
        rfl
      · rename_i positive
        have halves : value ^ (exponent / 2) * value ^ (exponent / 2) * value ^ (exponent % 2) =
            value ^ exponent := by
          rw [← pow_add, ← pow_add, ← two_mul, Nat.div_add_mod]
        rw [hypothesis (exponent / 2) (by omega)]
        dsimp only
        rw [Scalar.ofInt_mul]
        split
        · rename_i odd
          rw [odd, pow_one] at halves
          rw [Scalar.ofInt_mul, halves]
        · rename_i even
          have none : exponent % 2 = 0 := by omega
          rw [none, pow_zero, Int.mul_one] at halves
          rw [halves]

theorem powNat_one (exponent : Nat) : Scalar.powNat .one exponent = .one := by
  rw [Scalar.one, powNat_ofInt, one_pow]

theorem expand_ofInt {whole : Int} (nonzero : whole ≠ 0) :
    (Expression.number (.ofInt whole)).expand = Sum.ofScalar (.ofInt whole) := by
  have notZero := mt Scalar.isZero_ofInt.1 nonzero
  have kept : (Scalar.ofInt whole).mul .one = .ofInt whole := by
    rw [Scalar.one, Scalar.ofInt_mul, Int.mul_one]
  change (if (Scalar.ofInt whole).isZero then _ else (Sum.ofScalar .one).scale (.ofInt whole)) = _
  rw [if_neg notZero]
  change (if (Scalar.ofInt whole).isZero then _ else Sum.ofScalar ((Scalar.ofInt whole).mul .one)) = _
  rw [if_neg notZero, kept]

theorem pow_ofInt (product : Product) (whole : Int) :
    product.pow (Sum.ofScalar (.ofInt whole)) = product.powInt whole := by
  have unfolded : product.pow (Sum.ofScalar (.ofInt whole)) =
      if (0 : Rat) = 0 then
        if (whole : Rat).den = 1 then product.powInt (whole : Rat).num else product.powRational whole
      else product.powCompound (Sum.ofScalar (.ofInt whole)) := rfl
  rw [unfolded, if_pos rfl, if_pos (Rat.den_intCast whole), Rat.num_intCast]

/-- A positive power of a symbol. -/
theorem toProduct_power (name : String) {power : Nat} (positive : 0 < power) :
    (Expression.pow (.symbol name) (.number (.ofInt power))).toProduct =
      ⟨.one, [(Sum.ofAtom (.variable name) 1, (power : Rat))]⟩ := by
  have exponent := expand_ofInt (Int.natCast_ne_zero.2 positive.ne')
  have raised : Scalar.one.powInt power = .one := by
    have cyclic : (!Scalar.isCyclic ((1 : Int) : Rat) 0 &&
        decide (Scalar.exponentBound ≤ (power : Int).natAbs)) = false := rfl
    unfold Scalar.one Scalar.ofInt Scalar.powInt
    dsimp only
    rw [cyclic, if_neg Bool.false_ne_true, if_pos (Int.natCast_nonneg power)]
    exact powNat_one power
  change (Product.ofAtom (.variable name)).pow (Expression.number (.ofInt power)).expand = _
  rw [exponent]
  rw [pow_ofInt, Product.powInt, if_neg (Int.natCast_ne_zero.2 positive.ne')]
  change Product.mk (Scalar.one.powInt power) [(_, 1 * ((power : Int) : Rat))] = _
  rw [raised, one_mul, Int.cast_natCast]

/-- The base of which a power of an atom is taken. -/
def base (power : Atom × Rat) : Sum × Rat := (Sum.ofAtom power.1 1, power.2)

theorem ofAtom_injective {atom other : Atom} (same : Sum.ofAtom atom 1 = Sum.ofAtom other 1) : atom = other :=
  Option.some.inj ((Sum.atom?_ofAtom atom).symm.trans (same ▸ Sum.atom?_ofAtom other))

theorem insertPower_new {power : Atom × Rat} {powers : Powers} (new : power.1 ∉ powers.map Prod.fst) :
    Product.insertPower (Sum.ofAtom power.1 1) power.2 (powers.map base) = (powers ++ [power]).map base := by
  induction powers with
  | nil => rfl
  | cons head rest hypothesis =>
      rw [List.map_cons, List.mem_cons, not_or] at new
      have other : (base head).1 ≠ Sum.ofAtom power.1 1 := fun same => new.1 (ofAtom_injective same).symm
      rw [List.map_cons, Product.insertPower, if_neg other, hypothesis new.2]
      rfl

/-- Multiplying by positive powers of new symbols collects them behind those that are there. -/
theorem toProduct_foldl {factors : List Factor} {expression : Expression} {scalar : Scalar}
    {value : Rat × Rat} {powers : Powers} (known : scalar.Denotes value)
    (started : expression.toProduct = ⟨scalar, powers.map base⟩)
    (reduced : (powers ++ factors.map Factor.atom).Reduced) :
    ∃ scalar', scalar'.Denotes value ∧
      ((factors.map Factor.expression).foldl .mul expression).toProduct =
        ⟨scalar', (powers ++ factors.map Factor.atom).map base⟩ := by
  -- The scalar is multiplied by one again for every factor, so only its value is kept.
  induction factors generalizing expression scalar powers with
  | nil =>
      refine ⟨scalar, known, ?_⟩
      simp only [List.map_nil, List.append_nil]
      exact started
  | cons factor rest hypothesis =>
      have order : (powers ++ factor.atom :: rest.map Factor.atom).Perm
          (factor.atom :: powers ++ rest.map Factor.atom) := List.perm_middle
      have new := (reduced.perm order).new
      have joined : powers ++ (factor :: rest).map Factor.atom =
          (powers ++ [factor.atom]) ++ rest.map Factor.atom := by
        rw [List.map_cons, List.append_assoc, List.singleton_append]
      rw [joined] at reduced ⊢
      refine hypothesis known.mul_one ?_ reduced
      change expression.toProduct.mul factor.expression.toProduct = _
      rw [started, Factor.expression, toProduct_power _ factor.positive, ← insertPower_new new]
      rfl

end Symbolic

/-- A term is read as its rounded coefficient and its factors. -/
theorem monomialOfTerm_eq {term : Powers × Scalar} {number coefficient : Number}
    (isNumber : term.2.toNumber? = some number)
    (rounded : (if term.2.isOne then pure (.real 1.0) else Number.mul (.real 1.0) number) =
      (.ok coefficient : Except Fault Number)) :
    monomialOfTerm term =
      (term.1.mapM factorOfPower).map fun factors => ⟨coefficient, .ofFactors factors⟩ := by
  unfold monomialOfTerm
  rw [isNumber]
  dsimp only
  split at rounded
  · rename_i one
    rw [if_pos one, rounded]
    rfl
  · rename_i notOne
    rw [if_neg notOne, rounded]
    rfl

namespace Monomial

variable {item : Monomial Number}

/-- What a monomial says, as a term of a symbolic sum does. -/
def content (item : Monomial Number) : Multiset (Atom × Rat) × Option Rat × Option Rat :=
  (item.powers.atoms, item.coefficient.toScalar.parts)

theorem toExpression_eq (named : item.powers.Named) : item.toExpression =
    .ok ((item.powers.factors.map Factor.expression).foldl .mul (.number item.coefficient.toScalar)) := by
  have factors : item.powers.factors.mapM Factor.toExpression =
      .ok (item.powers.factors.map Factor.expression) := by
    rw [mapM_eq_ok, List.forall₂_map_right_iff, List.forall₂_same]
    exact fun factor member => Factor.toExpression_eq (named factor member)
  rw [toExpression, factors]
  rfl

/-- A monomial becomes one term with its content, or a number if its coefficient is zero. -/
theorem expand_toExpression (named : item.powers.Named) (plain : item.coefficient.Plain) :
    ∃ expression, item.toExpression = .ok expression ∧
      if Coefficient.isZero item.coefficient then
        ∃ scalar, expression.expand = Sum.ofScalar scalar ∧ scalar.Denotes 0
      else expression.expand.Proper ∧ expression.expand.content = {item.content} := by
  obtain ⟨value, known⟩ := Scalar.denotes_toScalar plain
  have started : (Expression.number item.coefficient.toScalar).toProduct =
      ⟨item.coefficient.toScalar, List.map base []⟩ := rfl
  obtain ⟨scalar, known', product⟩ :=
    toProduct_foldl known started (PowerProduct.reduced_atoms named)
  refine ⟨_, toExpression_eq named, ?_⟩
  rw [Expression.expand, product, List.nil_append]
  split
  · rename_i isZero
    obtain rfl := (Number.isZero_iff_value plain known).1 isZero
    exact ⟨scalar, if_pos (known'.isZero_iff.2 rfl), known'⟩
  · rename_i notZero
    have nonzero := mt (Number.isZero_iff_value plain known).2 notZero
    rw [content, known.parts_eq, ← known'.parts_eq]
    exact Sum.expand_atoms (PowerProduct.reduced_atoms named) known' nonzero

/-- A term that says what a monomial says is read as this monomial, the kind of the coefficient apart. -/
theorem read_term (named : item.powers.Named) {term : Powers × Scalar} {value : Rat × Rat}
    (known : term.2.Denotes value) (same : Sum.termContent term = item.content) :
    ∃ result, monomialOfTerm term = .ok result ∧ result.coefficient.Plain ∧
      result.powers = item.powers ∧ result.content = Sum.termContent term := by
  have order : term.1.Perm item.powers.atoms := Multiset.coe_eq_coe.1 (congrArg Prod.fst same)
  obtain ⟨factors, read, built⟩ := PowerProduct.read_atoms named order
  obtain ⟨number, coefficient, isNumber, rounded, plain, known'⟩ := Number.read_scalar known
  refine ⟨⟨coefficient, item.powers⟩, ?_, plain, rfl, ?_⟩
  · rw [monomialOfTerm_eq isNumber rounded, read, ← built]
    rfl
  · rw [same]
    exact Prod.ext rfl (known'.parts_eq.trans (known.parts_eq.symm.trans (congrArg Prod.snd same)))

end Monomial

end TrigAlgebra
