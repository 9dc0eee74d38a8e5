/-
This file proves that integration of a polynomial in one variable raises every exponent by one and is
undone by differentiation, up to the rounding of the coefficients, and that it only fails for want of
a variable where a constant has none.
-/

import TrigAlgebra.Proofs.ArithmeticFaults
import TrigAlgebra.Proofs.Coefficients
import TrigAlgebra.Proofs.Differentiation
import TrigAlgebra.Proofs.NumberValues

namespace TrigAlgebra

/-- A variable to integrate over is missing, or the values of some are. -/
def Fault.UnknownVariable : Fault → Prop
  | .noIntegrationVariable => True
  | .valuesMissing _ => True
  | _ => False

theorem Fault.Arithmetic.known {fault : Fault} (arithmetic : fault.Arithmetic) :
    ¬ fault.UnknownVariable := by
  intro unknown
  cases fault with
  | noIntegrationVariable => exact arithmetic
  | valuesMissing vars => exact arithmetic
  | _ => exact unknown

namespace Monomial

variable {K : Type} [Coefficient K] {single : Int} {item result : Monomial K}

/-- The integral of a power of the variable. -/
def raised (single : Int) (item : Monomial K) : Except Fault (Monomial K) :=
  if item.isConstant then .ok ⟨item.coefficient, .power single 1⟩
  else (Coefficient.div item.coefficient (Coefficient.ofInt (item.powers.leadingPower + 1))).map
    fun quotient => ⟨quotient, .power single (item.powers.leadingPower + 1)⟩

/-- What is left after an integration and a differentiation: the coefficient is divided by the raised
exponent and multiplied by it again. -/
def restored (item : Monomial K) : Except Fault (Monomial K) :=
  if item.isConstant then
    (Coefficient.mul item.coefficient (Coefficient.ofInt 1)).map item.withCoefficient
  else do
    let exponent : Int := item.powers.leadingPower + 1
    let quotient ← Coefficient.div item.coefficient (Coefficient.ofInt exponent)
    (Coefficient.mul quotient (Coefficient.ofInt exponent)).map item.withCoefficient

/-- A monomial is integrated in the only variable there is. -/
theorem integralOf_eq (powers : item.powers = .power single item.powers.leadingPower)
    (others : List Int) : Polynomial.integralOf (single :: others) item = item.raised single := by
  obtain ⟨coefficient, exponent, rfl⟩ := exists_power powers
  cases exponent <;> rfl

/-- Integration raises the power by one. -/
theorem powers_raised (returned : item.raised single = .ok result) :
    result.powers = .power single (item.powers.leadingPower + 1) := by
  unfold raised at returned
  split at returned
  · rename_i constant
    cases returned
    rw [PowerProduct.isOne_iff.1 constant]
    rfl
  · obtain ⟨quotient, -, rfl⟩ := map_eq_ok.1 returned
    rfl

/-- The first derivative of a raised monomial. -/
theorem derived_one {exponent : Nat} (powers : result.powers = .power single (exponent + 1)) :
    result.derived single 1 =
      (Coefficient.mul result.coefficient (Coefficient.ofInt (exponent + 1))).map
        fun product => ⟨product, .power single exponent⟩ := by
  rw [derived, powers, PowerProduct.leadingPower_power, fallingProduct_succ]
  change (Coefficient.mul _ _ >>= pure).map _ = _
  rw [bind_pure]
  rfl

/-- Differentiation takes the integral of one monomial to what is left of it. -/
theorem derived_raised (powers : item.powers = .power single item.powers.leadingPower)
    (returned : item.raised single = .ok result) : result.derived single 1 = item.restored := by
  have kept : item.withCoefficient = fun product => ⟨product, .power single item.powers.leadingPower⟩ :=
    funext fun product => congrArg (Monomial.mk product) powers
  rw [derived_one (powers_raised returned), ← kept]
  unfold raised at returned
  unfold restored
  split at returned
  · rename_i constant
    cases returned
    rw [if_pos constant, PowerProduct.isOne_iff.1 constant]
    rfl
  · rename_i positive
    obtain ⟨quotient, divided, rfl⟩ := map_eq_ok.1 returned
    rw [if_neg positive]
    dsimp only
    rw [divided]
    rfl

/-- Integration and differentiation restore the power. -/
theorem powers_restored (returned : item.restored = .ok result) : result.powers = item.powers := by
  unfold restored at returned
  split at returned
  · obtain ⟨product, -, rfl⟩ := map_eq_ok.1 returned
    rfl
  · obtain ⟨quotient, -, multiplied⟩ := bind_eq_ok.1 returned
    obtain ⟨product, -, rfl⟩ := map_eq_ok.1 multiplied
    rfl

end Monomial

namespace Polynomial

variable {K : Type} [Coefficient K] {polynomial : Polynomial K} {single : Int} {constant : K}

omit [Coefficient K] in
theorem isConstant_of_vars (none : polynomial.vars = []) {item : Monomial K}
    (member : item ∈ polynomial.monomials) : item.isConstant = true := by
  refine List.isEmpty_iff.2 (List.eq_nil_iff_forall_not_mem.2 fun factor isFactor => ?_)
  have occurs : factor.var ∈ polynomial.vars :=
    mem_vars.2 (occurs_powersOf.2 ⟨item, member, factor, isFactor, rfl⟩)
  rw [none] at occurs
  exact List.not_mem_nil occurs

/-- Integrals have the same single variable. -/
theorem OneVariable.of_raised {monomials : List (Monomial K)}
    (oneVariable : polynomial.OneVariable single)
    (returned : polynomial.monomials.mapM (Monomial.raised single) = .ok monomials) (constant : K) :
    (⟨monomials ++ [.constant constant], true⟩ : Polynomial K).OneVariable single := by
  have exponents := nodup_leadingPowers oneVariable.distinct oneVariable.powers
  have written : powersOf (monomials ++ [.constant constant]) =
      ((polynomial.monomials.map fun item : Monomial K => item.powers.leadingPower).map Nat.succ ++
        [0]).map (PowerProduct.power single) := by
    have raised : powersOf monomials = polynomial.monomials.map fun item =>
        .power single (item.powers.leadingPower + 1) :=
      powersOf_mapM (fun _ _ => Monomial.powers_raised) returned
    rw [powersOf] at raised ⊢
    rw [List.map_append, raised, List.map_append, List.map_map, List.map_map]
    rfl
  refine .of_exponents written ((exponents.map Nat.succ_injective).append (List.nodup_singleton 0) ?_)
  intro exponent raised zero
  obtain ⟨lower, -, rfl⟩ := List.mem_map.1 raised
  exact Nat.succ_ne_zero lower (List.mem_singleton.1 zero)

/-- Where the constants have a variable, each monomial is integrated on its own, nothing is merged,
and the constant of integration comes last. -/
theorem integral_eq (oneVariable : polynomial.OneVariable single)
    (usable : polynomial.vars = [] → polynomial.monomials = []) :
    polynomial.integral constant = (polynomial.monomials.mapM (Monomial.raised single)).map
      fun monomials => ⟨monomials ++ [.constant constant], true⟩ := by
  have each : polynomial.monomials.mapM (integralOf polynomial.vars) =
      polynomial.monomials.mapM (Monomial.raised single) := by
    cases vars : polynomial.vars with
    | nil =>
        rw [usable vars]
        rfl
    | cons var others =>
        have first : var ∈ polynomial.vars := vars ▸ List.mem_cons_self
        obtain rfl := oneVariable.powers.var_eq first
        exact mapM_eq_mapM (List.forall₂_same.2 fun item member =>
          Monomial.integralOf_eq (oneVariable.powers item member) others)
  have written : polynomial.integral constant =
      polynomial.monomials.mapM (integralOf polynomial.vars) >>= fun monomials =>
        ofMonomials (monomials ++ [.constant constant]) := by
    rw [integral, requireUnivariate, oneVariable.flagged]
    rfl
  rw [written, each]
  cases returned : polynomial.monomials.mapM (Monomial.raised single) with
  | error fault => rfl
  | ok monomials => exact (oneVariable.of_raised returned constant).ofMonomials_eq

/-- A constant has no variable to be integrated in. -/
theorem integral_without_variable (univariate : polynomial.univariate = true)
    (none : polynomial.vars = []) (some : polynomial.monomials ≠ []) :
    polynomial.integral constant = .error .noIntegrationVariable := by
  obtain ⟨head, rest, shape⟩ := List.exists_cons_of_ne_nil some
  have isConstant := isConstant_of_vars none (shape ▸ List.mem_cons_self : head ∈ polynomial.monomials)
  have failed : integralOf [] head = .error .noIntegrationVariable := by
    rw [integralOf, List.isEmpty_iff.1 isConstant]
  rw [integral, requireUnivariate, univariate, none, shape, List.mapM_cons, failed]
  rfl

/-- The derivative of an integral is taken monomial by monomial; the constant of integration is
gone. -/
theorem derivative_raised {monomials : List (Monomial K)}
    (oneVariable : polynomial.OneVariable single)
    (returned : polynomial.monomials.mapM (Monomial.raised single) = .ok monomials) (constant : K) :
    (⟨monomials ++ [.constant constant], true⟩ : Polynomial K).derivative 1 =
      (polynomial.monomials.mapM Monomial.restored).map fun monomials => ⟨monomials, true⟩ := by
  have kept : ofOrder 1 (monomials ++ [.constant constant]) = monomials := by
    have all : ofOrder 1 monomials = monomials := by
      refine List.filter_eq_self.2 fun result member => decide_eq_true ?_
      obtain ⟨item, -, raised⟩ := exists_of_mem_mapM returned member
      rw [Monomial.powers_raised raised, PowerProduct.leadingPower_power]
      exact Nat.le_add_left 1 _
    rw [ofOrder, List.filter_append]
    exact (congrArg (· ++ []) all).trans (List.append_nil _)
  have steps : monomials.mapM (Monomial.derived single 1) =
      polynomial.monomials.mapM Monomial.restored := by
    have related := (List.forall₂_and_left _ _).2 ⟨oneVariable.powers, mapM_eq_ok.1 returned⟩
    refine (mapM_eq_mapM (related.imp fun item result raised => ?_)).symm
    exact (Monomial.derived_raised raised.1 raised.2).symm
  have derived := derivative_eq (oneVariable.of_raised returned constant) 1
  rw [kept, steps] at derived
  exact derived

/-- An integral is returned only where the constants have a variable. -/
theorem integral_eq_ok (oneVariable : polynomial.OneVariable single) {integral : Polynomial K} :
    polynomial.integral constant = .ok integral ↔
      (polynomial.vars = [] → polynomial.monomials = []) ∧
        ∃ monomials, polynomial.monomials.mapM (Monomial.raised single) = .ok monomials ∧
          (⟨monomials ++ [.constant constant], true⟩ : Polynomial K) = integral := by
  constructor
  · intro returned
    have usable : polynomial.vars = [] → polynomial.monomials = [] := by
      intro none
      by_contra some
      rw [integral_without_variable oneVariable.flagged none some] at returned
      cases returned
    rw [integral_eq oneVariable usable] at returned
    exact ⟨usable, map_eq_ok.1 returned⟩
  · rintro ⟨usable, returned⟩
    rw [integral_eq oneVariable usable]
    exact map_eq_ok.2 returned

/-- No integrated monomial is a constant. -/
theorem filter_isConstant_raised {list monomials : List (Monomial K)}
    (returned : list.mapM (Monomial.raised single) = .ok monomials) (constant : K) :
    (monomials ++ [Monomial.constant constant]).filter Monomial.isConstant = [.constant constant] := by
  have none : monomials.filter Monomial.isConstant = [] := by
    refine List.filter_eq_nil_iff.2 fun result member => ?_
    obtain ⟨item, -, raised⟩ := exists_of_mem_mapM returned member
    rw [Monomial.isConstant, Monomial.powers_raised raised, PowerProduct.isOne_power]
    exact Nat.succ_ne_zero _
  rw [List.filter_append, none]
  rfl

end Polynomial

namespace Monomial

variable {item result : Monomial Number} {single : Int}

/-- No product and no quotient is rounded on the way through the integral and back. -/
def RestoredExactly (item : Monomial Number) : Prop :=
  if item.isConstant then ∀ product, item.coefficient.mul (.integer 1) = .ok product →
    Number.IsMultiple 1 item.coefficient product
  else ∀ quotient, item.coefficient.div (.integer (item.powers.leadingPower + 1)) = .ok quotient →
    Number.IsMultiple (item.powers.leadingPower + 1) quotient item.coefficient ∧
      ∀ product, quotient.mul (.integer (item.powers.leadingPower + 1)) = .ok product →
        Number.IsMultiple (item.powers.leadingPower + 1) quotient product

/-- Both the coefficient and what is left of it are the same multiple of the quotient. -/
theorem same_of_restored (returned : item.restored = .ok result) (exact : item.RestoredExactly) :
    Coefficient.same result.coefficient item.coefficient = true := by
  unfold restored at returned
  unfold RestoredExactly at exact
  split at returned
  · rename_i constant
    rw [if_pos constant] at exact
    obtain ⟨product, multiplied, rfl⟩ := map_eq_ok.1 returned
    have multiple := exact product multiplied
    exact multiple.same multiple.self
  · rename_i positive
    rw [if_neg positive] at exact
    obtain ⟨quotient, divided, multiplication⟩ := bind_eq_ok.1 returned
    obtain ⟨product, multiplied, rfl⟩ := map_eq_ok.1 multiplication
    obtain ⟨whole, products⟩ := exact quotient divided
    exact (products product multiplied).same whole

/-- Integration fails for arithmetic only. -/
theorem arithmetical_raised (item : Monomial Number) (single : Int) :
    Arithmetical (item.raised single) := by
  unfold raised
  split
  · exact arithmetical_ok
  · exact arithmetical_map.2 (Number.arithmetical_div _ _)

end Monomial

namespace Polynomial

variable {polynomial derivative : Polynomial Number} {single : Int}

/-- With a variable, integration is not refused for the lack of one. -/
theorem integral_unknownVariable (oneVariable : polynomial.OneVariable single) (constant : Number) :
    (∃ fault, polynomial.integral constant = .error fault ∧ fault.UnknownVariable) ↔
      (∃ item ∈ polynomial.monomials, item.isConstant = true) ∧ polynomial.vars = [] := by
  constructor
  · rintro ⟨fault, failed, unknown⟩
    by_cases usable : polynomial.vars = [] → polynomial.monomials = []
    -- Where every constant has a variable only a division is left to fail.
    · rw [integral_eq oneVariable usable, map_eq_error] at failed
      have arithmetic : fault.Arithmetic :=
        arithmetical_mapM (fun item _ => item.arithmetical_raised single) fault failed
      exact (arithmetic.known unknown).elim
    · obtain ⟨none, some⟩ := Classical.not_imp.1 usable
      obtain ⟨item, member⟩ := List.exists_mem_of_ne_nil _ some
      exact ⟨⟨item, member, isConstant_of_vars none member⟩, none⟩
  · rintro ⟨⟨item, member, -⟩, none⟩
    exact ⟨_, integral_without_variable oneVariable.flagged none (List.ne_nil_of_mem member), trivial⟩

/-- Exactly restored monomials make an equal polynomial. -/
theorem same_of_restored (distinct : polynomial.Distinct)
    (returned : polynomial.monomials.mapM Monomial.restored = .ok derivative.monomials)
    (exact : ∀ item ∈ polynomial.monomials, item.RestoredExactly) :
    derivative.same polynomial = true := by
  have powers : powersOf derivative.monomials = powersOf polynomial.monomials :=
    powersOf_mapM (fun _ _ => Monomial.powers_restored) returned
  have distinct' : derivative.Distinct := by
    unfold Distinct
    rw [powers]
    exact distinct
  refine same_of_counterparts distinct' distinct (fun result member => ?_) fun item member => ?_
  · obtain ⟨item, isItem, restored⟩ := exists_of_mem_mapM returned member
    exact ⟨item, isItem, (Monomial.powers_restored restored).symm,
      Monomial.same_of_restored restored (exact item isItem)⟩
  · rw [powers]
    exact List.mem_map_of_mem member

/-- Integration misses a variable exactly for a constant in a polynomial without variables. Any
integral has one monomial more, the given constant, and its derivative consists of the monomials that
are left, in the old order: an equal polynomial unless something was rounded. -/
theorem derivative_integral (polynomial : Polynomial Number) (constant : Number)
    (reachable : polynomial.Reachable) (named : noVariable ∉ polynomial.vars)
    (univariate : polynomial.univariate = true) :
    ((∃ fault, polynomial.integral constant = .error fault ∧ fault.UnknownVariable) ↔
      (∃ item ∈ polynomial.monomials, item.isConstant = true) ∧ polynomial.vars = []) ∧
    ∀ integral, polynomial.integral constant = .ok integral →
      integral.monomials.length = polynomial.monomials.length + 1 ∧
      integral.monomials.filter Monomial.isConstant = [.constant constant] ∧
      integral.derivative 1 = (polynomial.monomials.mapM Monomial.restored).map
        (fun monomials => ⟨monomials, true⟩) ∧
      ∀ derivative, integral.derivative 1 = .ok derivative →
        powersOf derivative.monomials = powersOf polynomial.monomials ∧
        ((∀ item ∈ polynomial.monomials, item.RestoredExactly) →
          derivative.same polynomial = true) := by
  obtain ⟨single, oneVariable⟩ := exists_oneVariable reachable named univariate
  refine ⟨integral_unknownVariable oneVariable constant, fun integral returned => ?_⟩
  obtain ⟨-, monomials, raised, rfl⟩ := (integral_eq_ok oneVariable).1 returned
  have derivatives := derivative_raised oneVariable raised constant
  refine ⟨?_, filter_isConstant_raised raised constant, derivatives, fun derivative derived => ?_⟩
  · rw [List.length_append, (mapM_eq_ok.1 raised).length_eq]
    rfl
  · rw [derivatives] at derived
    obtain ⟨restored, written, rfl⟩ := map_eq_ok.1 derived
    exact ⟨powersOf_mapM (fun _ _ => Monomial.powers_restored) written,
      same_of_restored oneVariable.distinct written⟩

/-- A square and a constant, so that the integral has a gap. -/
def gappedSquare : Polynomial Number :=
  ⟨[⟨.integer 6, .power 2 2⟩, ⟨.integer 5, .one⟩], true⟩

theorem restoredExactly_gappedSquare : ∀ item ∈ gappedSquare.monomials, item.RestoredExactly := by
  have multiple : Number.IsMultiple 3 (.real 2.0) (.integer 6) :=
    ⟨.inl ⟨2, by decide +kernel, by decide +kernel⟩, .inl ⟨0, by decide +kernel, by decide +kernel⟩⟩
  have again : Number.IsMultiple 3 (.real 2.0) (.real (2.0 * Binary64.ofInt 3)) :=
    ⟨.inl ⟨2, by decide +kernel, by decide +kernel⟩, .inl ⟨0, by decide +kernel, by decide +kernel⟩⟩
  have whole : Number.IsMultiple 1 (.integer 5) (.integer 5) :=
    ⟨.inl ⟨5, by decide +kernel, by decide +kernel⟩, .inl ⟨0, by decide +kernel, by decide +kernel⟩⟩
  intro item member
  rcases List.mem_pair.1 member with rfl | rfl
  · intro quotient divided
    obtain rfl : Number.real 2.0 = quotient := Except.ok.inj divided
    refine ⟨multiple, fun product multiplied => ?_⟩
    obtain rfl : Number.real (2.0 * Binary64.ofInt 3) = product := Except.ok.inj multiplied
    exact again
  · intro product multiplied
    obtain rfl : Number.integer 5 = product := Except.ok.inj multiplied
    exact whole

/-- The integral of the square is divided by three and multiplied by it again. -/
theorem derivative_integral_gappedSquare :
    gappedSquare.Reachable ∧ noVariable ∉ gappedSquare.vars ∧ gappedSquare.univariate = true ∧
      ∃ integral derivative, gappedSquare.integral (.integer 1) = .ok integral ∧
        integral.monomials.length = 3 ∧
        integral.monomials.filter Monomial.isConstant = [.constant (.integer 1)] ∧
        integral.derivative 1 = .ok derivative ∧ derivative.same gappedSquare = true := by
  have merged : ofMonomials gappedSquare.monomials = .ok gappedSquare := rfl
  have named : noVariable ∉ gappedSquare.vars := by decide
  obtain ⟨integral, returned⟩ : ∃ integral, gappedSquare.integral (.integer 1) = .ok integral :=
    ⟨_, rfl⟩
  obtain ⟨length, constant, derivatives, restored⟩ :=
    (derivative_integral gappedSquare (.integer 1) (.ofMonomials merged) named rfl).2 integral returned
  have kept : ∃ monomials, gappedSquare.monomials.mapM Monomial.restored = .ok monomials := ⟨_, rfl⟩
  obtain ⟨monomials, written⟩ := kept
  rw [written] at derivatives
  exact ⟨.ofMonomials merged, named, rfl, integral, _, returned, length, constant, derivatives,
    (restored _ derivatives).2 restoredExactly_gappedSquare⟩

end Polynomial

end TrigAlgebra
