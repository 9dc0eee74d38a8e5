/-
This file proves that an expression of integers and symbols is read as the polynomial that the
operations on polynomials compute from it, whatever the spellings of its variables.
-/

import TrigAlgebra.Proofs.SymbolicExpansion
import TrigAlgebra.Proofs.WellFormed
import TrigAlgebra.Proofs.WholePolynomials

namespace TrigAlgebra

open MvPolynomial

namespace Symbolic

/-- A power of a spelled variable is read as a factor. -/
theorem read_factor {power : Atom × Rat} (spelling : power.1.IsSpelling) (isExponent : IsExponent power.2) :
    ∃ factor, factorOfPower power = .ok factor ∧ factor.var = power.1.var ∧
      factor.power = natural power.2 := by
  obtain ⟨atom, _⟩ := power
  obtain ⟨exponent, positive, rfl⟩ := isExponent
  cases atom with
  | compound form => exact spelling.elim
  | «variable» name =>
      obtain ⟨var, known⟩ := spelling
      obtain ⟨stem, index, isSplit, encoded⟩ := NamingTable.variableOf_eq_ok.1 known
      refine ⟨⟨var, natural exponent, by rw [natural_natCast]; exact positive⟩, ?_, (Atom.var_eq known).symm,
        rfl⟩
      unfold factorOfPower
      dsimp only
      rw [dif_pos (natCast_natural positive), isSplit]
      change (NamingTable.encode {} stem index >>= _) = _
      rw [encoded]
      rfl

theorem Powers.Natural.read {powers : Powers} (isNatural : powers.Natural) :
    ∃ factors, powers.mapM factorOfPower = .ok factors ∧ exponentsOf factors = powers.exponents := by
  induction powers with
  | nil => exact ⟨[], rfl, rfl⟩
  | cons head rest hypothesis =>
      obtain ⟨⟨spelling, isExponent⟩, restNatural⟩ := List.forall_mem_cons.1 isNatural
      obtain ⟨factor, returned, var, power⟩ := read_factor spelling isExponent
      obtain ⟨factors, restReturned, exponents⟩ := hypothesis restNatural
      refine ⟨factor :: factors, ?_, ?_⟩
      · rw [List.mapM_cons, returned, restReturned]
        rfl
      · rw [exponentsOf_cons, Powers.exponents_cons, var, power, exponents]

theorem read_term {powers : Powers} (isNatural : powers.Natural) {value : Int}
    (small : value.natAbs ≤ 2 ^ 53) : ∃ item, monomialOfTerm (powers, .ofInt value) = .ok item ∧
      (item.coefficient.IsWhole ∧ item.coefficient.whole = value) ∧
        item.powers.exponents = powers.exponents := by
  obtain ⟨factors, read, exponents⟩ := isNatural.read
  obtain ⟨number, rounded, isNumber, isRounded, known⟩ := Number.read_ofInt small
  refine ⟨⟨.real rounded, .ofFactors factors⟩, ?_, Number.isWhole_real known, ?_⟩
  · rw [monomialOfTerm_eq isNumber isRounded, read]
    rfl
  · rw [PowerProduct.exponents_ofFactors, exponents]

open TrigAlgebra.Polynomial in
/-- Terms are read as monomials that stand for the same formal polynomial. -/
theorem Totals.read {terms : List (Powers × Scalar)} {form : MvPolynomial Int Int} {bound : Nat}
    (totals : Totals terms form bound) (small : bound ≤ 2 ^ 53) :
    ∃ monomials, terms.mapM monomialOfTerm = .ok monomials ∧ Polynomial.Counts monomials form bound := by
  induction terms generalizing form bound with
  | nil =>
      obtain rfl : 0 = form := totals.formal
      exact ⟨[], rfl, counts_nil.mono (Nat.zero_le _)⟩
  | cons head rest hypothesis =>
      obtain ⟨powers, value, restForm, restBound, rfl, isNatural, -, restTotals, rfl, total⟩ := totals.of_cons
      obtain ⟨item, returned, ⟨isWhole, isValue⟩, exponents⟩ :=
        read_term isNatural (by omega : value.natAbs ≤ 2 ^ 53)
      obtain ⟨monomials, restReturned, counts⟩ := hypothesis restTotals (by omega)
      have term : Reading.wholes.term item = monomial powers.exponents value := by
        rw [← isValue, ← exponents]
        rfl
      refine ⟨item :: monomials, ?_, ?_⟩
      · rw [List.mapM_cons, returned, restReturned]
        rfl
      · rw [add_comm, ← term]
        exact (counts_cons isWhole counts).mono (by omega)

/-- A sum with small integer coefficients is read as a polynomial with distinct powers that stands for
the same formal polynomial. -/
theorem Sum.Counts.read {sum : Sum} {form : MvPolynomial Int Int} {bound : Nat}
    (counts : sum.Counts form bound) (small : bound ≤ 2 ^ 53) :
    ∃ polynomial, sum.toPolynomial = .ok polynomial ∧ polynomial.Distinct ∧
      Polynomial.Counts polynomial.monomials form bound := by
  obtain ⟨monomials, returned, counts⟩ := counts.allTerms.read small
  obtain ⟨merged, isMerged, counts⟩ := counts.merge small
  refine ⟨⟨merged, Polynomial.isUnivariate merged⟩, ?_, Polynomial.nodup_merge isMerged, counts⟩
  rw [Sum.toPolynomial, returned]
  exact map_eq_ok.2 ⟨merged, isMerged, rfl⟩

theorem expand_symbol (name : String) :
    (Expression.symbol name).expand = Sum.ofAtom (.variable name) 1 := by
  change (Sum.mul (.ofScalar .one) (Product.expandPower (Sum.ofAtom (.variable name) 1) 1)).scale .one = _
  rw [Sum.expandPower_ofAtom, Sum.ofAtom_eq one_ne_zero, Sum.one_mul_ofPowers]
  change Sum.mk (Scalar.one.mul .zero) [(_, Scalar.one.mul .one)] = _
  rw [Scalar.denotes_one.mul_zero, Scalar.one_mul_one]
  rfl

/-- A symbol that is not split into a name and an index is not read. -/
theorem read_symbol_refused {name : String} {fault : Fault}
    (refused : NamingTable.split {} name = .error fault) :
    (Expression.symbol name).toPolynomial = .error fault := by
  have factor : factorOfPower (.variable name, 1) = .error fault := by
    unfold factorOfPower
    dsimp only
    rw [dif_pos (by decide), refused]
    rfl
  have item : monomialOfTerm ([(.variable name, 1)], .one) = .error fault := by
    have small : (1 : Int).natAbs ≤ 2 ^ 53 := by decide
    obtain ⟨number, rounded, isNumber, isRounded, -⟩ := Number.read_ofInt small
    rw [Scalar.one, monomialOfTerm_eq isNumber isRounded, List.mapM_cons, factor]
    rfl
  rw [Expression.toPolynomial, expand_symbol, Sum.ofAtom_eq one_ne_zero, Sum.toPolynomial]
  change (do
    Polynomial.ofMonomials (← [([(Atom.variable name, (1 : Rat))], Scalar.one)].mapM monomialOfTerm)) = _
  rw [List.mapM_cons, item]
  rfl

/-- An expression of integers and symbols, built by sums, products and natural powers. -/
inductive Formula where
  | literal (value : Int)
  | symbol (name : String)
  | add (first second : Formula)
  | mul (first second : Formula)
  | pow (base : Formula) (exponent : Nat)

namespace Formula

def toExpression : Formula → Expression
  | literal value => .number (.ofInt value)
  | symbol name => .symbol name
  | add first second => .add first.toExpression second.toExpression
  | mul first second => .mul first.toExpression second.toExpression
  | pow base exponent => .pow base.toExpression (.number (.ofInt exponent))

/-- The polynomial that the operations on polynomials compute, when a symbol is read as its variable. -/
def toPolynomial : Formula → Except Fault (Polynomial Number)
  | literal value => .ok (.constant (.integer value))
  | symbol name => do
      let (stem, index) ← NamingTable.split {} name
      Polynomial.named stem index
  | add first second => do (← first.toPolynomial).add (← second.toPolynomial)
  | mul first second => do (← first.toPolynomial).mul (← second.toPolynomial)
  | pow base exponent => do (← base.toPolynomial).pow exponent

/-- The value when every literal is replaced by its absolute value and every symbol by one. -/
def size : Formula → Nat
  | literal value => value.natAbs
  | symbol _ => 1
  | add first second => first.size + second.size
  | mul first second => first.size * second.size
  | pow base exponent => base.size ^ exponent

/-- The formula itself and all formulas inside it. -/
def parts : Formula → List Formula
  | literal value => [literal value]
  | symbol name => [symbol name]
  | add first second => add first second :: (first.parts ++ second.parts)
  | mul first second => mul first second :: (first.parts ++ second.parts)
  | pow base exponent => pow base exponent :: base.parts

def symbols : Formula → List String
  | literal _ => []
  | symbol name => [name]
  | add first second => first.symbols ++ second.symbols
  | mul first second => first.symbols ++ second.symbols
  | pow base _ => base.symbols

/-- The formula and its parts are so small that all integers up to their sizes are rounded numbers. -/
def Moderate (formula : Formula) : Prop := ∀ part ∈ formula.parts, part.size ≤ 2 ^ 53

/-- The formal polynomial that a formula stands for. -/
noncomputable def formal : Formula → MvPolynomial Int Int
  | literal value => C value
  | symbol name => X (Atom.variable name).var
  | add first second => first.formal + second.formal
  | mul first second => first.formal * second.formal
  | pow base exponent => base.formal ^ exponent

variable {formula first second base : Formula} {exponent : Nat}

theorem Moderate.size_le (moderate : formula.Moderate) : formula.size ≤ 2 ^ 53 := by
  apply moderate
  cases formula <;> exact List.mem_cons_self

theorem Moderate.of_add (moderate : (add first second).Moderate) : first.Moderate ∧ second.Moderate :=
  List.forall_mem_append.1 (List.forall_mem_cons.1 moderate).2

theorem Moderate.of_mul (moderate : (mul first second).Moderate) : first.Moderate ∧ second.Moderate :=
  List.forall_mem_append.1 (List.forall_mem_cons.1 moderate).2

theorem Moderate.of_pow (moderate : (pow base exponent).Moderate) : base.Moderate :=
  (List.forall_mem_cons.1 moderate).2

/-- All symbols spell variables. -/
def Spelled (formula : Formula) : Prop :=
  ∀ name ∈ formula.symbols, ∃ var, NamingTable.variableOf {} name = .ok var

/-- The expression of a formula stands for its formal polynomial. -/
theorem counts_toProduct (moderate : formula.Moderate) (spelled : formula.Spelled) :
    formula.toExpression.toProduct.Counts formula.formal formula.size := by
  induction formula with
  | literal value => exact Product.counts_ofScalar value
  | symbol name => exact Product.counts_ofAtom (spelled name List.mem_cons_self)
  | add first second hypothesis hypothesis' =>
      obtain ⟨spelledFirst, spelledSecond⟩ := List.forall_mem_append.1 spelled
      obtain ⟨moderateFirst, moderateSecond⟩ := moderate.of_add
      exact Product.counts_ofSum
        ((hypothesis moderateFirst spelledFirst).expand.add (hypothesis' moderateSecond spelledSecond).expand)
  | mul first second hypothesis hypothesis' =>
      obtain ⟨spelledFirst, spelledSecond⟩ := List.forall_mem_append.1 spelled
      obtain ⟨moderateFirst, moderateSecond⟩ := moderate.of_mul
      exact (hypothesis moderateFirst spelledFirst).mul (hypothesis' moderateSecond spelledSecond)
  | pow base exponent hypothesis =>
      have expanded : (Expression.number (.ofInt exponent)).expand = Sum.ofScalar (.ofInt exponent) := by
        rcases Nat.eq_zero_or_pos exponent with rfl | positive
        · rfl
        · exact expand_ofInt (Int.natCast_ne_zero.2 positive.ne')
      change (base.toExpression.toProduct.pow (Expression.number (.ofInt exponent)).expand).Counts _ _
      rw [expanded, pow_ofInt]
      exact (hypothesis moderate.of_pow spelled).powInt moderate.size_le

/-- The polynomial of a formula stands for its formal polynomial. -/
theorem counts_toPolynomial (moderate : formula.Moderate) (spelled : formula.Spelled) :
    ∃ polynomial, formula.toPolynomial = .ok polynomial ∧ polynomial.WellFormed ∧
      Polynomial.Counts polynomial.monomials formula.formal formula.size := by
  induction formula with
  | literal value =>
      exact ⟨_, rfl, Polynomial.wellFormed_constant _, Polynomial.counts_constant value⟩
  | symbol name =>
      obtain ⟨var, known⟩ := spelled name List.mem_cons_self
      obtain ⟨stem, index, isSplit, encoded⟩ := NamingTable.variableOf_eq_ok.1 known
      have named : Polynomial.named stem index =
          .ok ⟨[⟨(Coefficient.one : Number), .ofFactor (.linear var)⟩], true⟩ :=
        map_eq_ok.2 ⟨var, encoded, rfl⟩
      refine ⟨_, bind_eq_ok.2 ⟨(stem, index), isSplit, named⟩, Polynomial.wellFormed_named named, ?_⟩
      rw [formal, Atom.var_eq known]
      exact Polynomial.counts_variable var
  | add first second hypothesis hypothesis' =>
      obtain ⟨spelledFirst, spelledSecond⟩ := List.forall_mem_append.1 spelled
      obtain ⟨moderateFirst, moderateSecond⟩ := moderate.of_add
      obtain ⟨left, returned, wellFormed, counts⟩ := hypothesis moderateFirst spelledFirst
      obtain ⟨right, returned', wellFormed', counts'⟩ := hypothesis' moderateSecond spelledSecond
      obtain ⟨sum, isSum, countsSum⟩ := counts.add counts' moderate.size_le
      refine ⟨sum, ?_, Polynomial.wellFormed_add wellFormed wellFormed' isSum, countsSum⟩
      rw [toPolynomial, returned, returned']
      exact isSum
  | mul first second hypothesis hypothesis' =>
      obtain ⟨spelledFirst, spelledSecond⟩ := List.forall_mem_append.1 spelled
      obtain ⟨moderateFirst, moderateSecond⟩ := moderate.of_mul
      obtain ⟨left, returned, wellFormed, counts⟩ := hypothesis moderateFirst spelledFirst
      obtain ⟨right, returned', wellFormed', counts'⟩ := hypothesis' moderateSecond spelledSecond
      obtain ⟨product, isProduct, countsProduct⟩ :=
        counts.mul counts' moderateFirst.size_le moderateSecond.size_le moderate.size_le
      refine ⟨product, ?_, Polynomial.wellFormed_mul wellFormed wellFormed' isProduct, countsProduct⟩
      rw [toPolynomial, returned, returned']
      exact isProduct
  | pow base exponent hypothesis =>
      obtain ⟨polynomial, returned, wellFormed, counts⟩ := hypothesis moderate.of_pow spelled
      obtain ⟨power, isPower, countsPower⟩ := counts.pow moderate.of_pow.size_le moderate.size_le
      refine ⟨power, ?_, Polynomial.wellFormed_pow wellFormed isPower, countsPower⟩
      rw [toPolynomial, returned]
      exact isPower

/-- An expression of integers and symbols is read as the polynomial that its operations compute, up to
monomials of coefficient zero, as long as its size and those of all its parts are at most 2 ^ 53. Each
symbol spells a name of one to four letters with an index of at most 4300 digits, or without one;
spellings of one variable are brought together. -/
theorem toPolynomial_toExpression (formula : Formula) (moderate : formula.Moderate)
    (spelled : ∀ text ∈ formula.symbols, ∃ name digits, NamingTable.IsSpelling {} text name digits ∧
      digits.length ≤ Text.numeralLimit) :
    ∃ read computed, formula.toExpression.toPolynomial = .ok read ∧ formula.toPolynomial = .ok computed ∧
      read.Distinct ∧ read.withoutZeros.same computed.withoutZeros = true := by
  have known : formula.Spelled := fun text member =>
    let ⟨_, _, spelling, short⟩ := spelled text member
    spelling.variableOf short
  obtain ⟨read, returned, distinct, counts⟩ :=
    (counts_toProduct moderate known).expand.read moderate.size_le
  obtain ⟨computed, isComputed, wellFormed, counts'⟩ := counts_toPolynomial moderate known
  exact ⟨read, computed, returned, isComputed, distinct, counts.same_withoutZeros counts' distinct
    wellFormed.distinct moderate.size_le moderate.size_le⟩

/-- Three spellings of one variable, some of which cancel, and a second variable. -/
def spellings : Formula :=
  .add (.pow (.add (.symbol "x") (.mul (.literal (-1)) (.symbol "x01"))) 2)
    (.mul (.add (.symbol "x1") (.literal 2)) (.add (.symbol "ab12") (.literal (-3))))

theorem toPolynomial_toExpression_spellings : spellings.Moderate ∧
    (∀ text ∈ spellings.symbols, ∃ name digits, NamingTable.IsSpelling {} text name digits ∧
      digits.length ≤ Text.numeralLimit) ∧
    ∃ read computed, spellings.toExpression.toPolynomial = .ok read ∧ spellings.toPolynomial = .ok computed ∧
      read.Distinct ∧ read.withoutZeros.same computed.withoutZeros = true := by
  have moderate : spellings.Moderate := by
    unfold Moderate
    decide
  have spelled : ∀ text ∈ spellings.symbols, ∃ name digits, NamingTable.IsSpelling {} text name digits ∧
      digits.length ≤ Text.numeralLimit := by
    have symbols : spellings.symbols = ["x", "x01", "x1", "ab12"] := rfl
    rw [symbols, List.forall_mem_cons, List.forall_mem_cons, List.forall_mem_cons, List.forall_mem_singleton]
    exact ⟨⟨"x", [], by decide +kernel⟩, ⟨"x", ['0', '1'], by decide +kernel⟩,
      ⟨"x", ['1'], by decide +kernel⟩, ⟨"ab", ['1', '2'], by decide +kernel⟩⟩
  exact ⟨moderate, spelled, toPolynomial_toExpression spellings moderate spelled⟩

/-- An index of 4301 digits is not read, although only the last one counts. -/
theorem toPolynomial_toExpression_paddedOne : ¬ ∀ formula : Formula, formula.Moderate →
    (∀ text ∈ formula.symbols, ∃ name digits, NamingTable.IsSpelling {} text name digits) →
    ∃ read computed, formula.toExpression.toPolynomial = .ok read ∧ formula.toPolynomial = .ok computed ∧
      read.Distinct ∧ read.withoutZeros.same computed.withoutZeros = true := by
  intro claimed
  have moderate : (symbol ("x" ++ String.ofList (NamingTable.paddedOne 4300))).Moderate :=
    List.forall_mem_singleton.2 (by decide : 1 ≤ 2 ^ 53)
  obtain ⟨read, _, returned, -⟩ := claimed _ moderate
    (List.forall_mem_singleton.2 ⟨"x", _, NamingTable.isSpelling_paddedOne 4300⟩)
  have refused := read_symbol_refused (NamingTable.split_paddedOne (le_refl Text.numeralLimit))
  cases refused.symm.trans returned

end Formula

end Symbolic

end TrigAlgebra
