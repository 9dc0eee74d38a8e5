/-
This file defines products of powers of variables, each variable occurring once and in order.
-/

import TrigAlgebra.Naming

namespace TrigAlgebra

/-- A variable raised to a positive power. -/
structure Factor where
  var : Int
  power : Nat
  positive : 0 < power
deriving DecidableEq

namespace Factor

def linear (var : Int) : Factor := ⟨var, 1, Nat.one_pos⟩

def make (var power : Int) : Except Fault Factor :=
  if large : 1 ≤ power then .ok ⟨var, power.toNat, by omega⟩
  else .error ((Fault.powerBelowOne power).showing [power])

/-- The product of two powers of the first one's variable. -/
def join (first second : Factor) : Factor :=
  ⟨first.var, first.power + second.power, Nat.add_pos_left first.positive _⟩

def rename (old new : Int) (factor : Factor) : Factor :=
  { factor with var := if factor.var = old then new else factor.var }

/-- A power of one is not written. -/
def text (factor : Factor) : Except Fault String := do
  let name ← NamingTable.render {} factor.var
  if factor.power = 1 then return name else return name ++ "^" ++ (← Text.writeLimited factor.power)

end Factor

/-- Equal exponents always give equal factors. -/
structure PowerProduct where
  factors : List Factor
  increasing : factors.Pairwise fun first second => first.var < second.var
deriving DecidableEq

namespace PowerProduct

def one : PowerProduct := ⟨[], .nil⟩

def ofFactor (factor : Factor) : PowerProduct := ⟨[factor], List.pairwise_singleton _ _⟩

/-- The factor is put in its place or joined to the power of the same variable. -/
def insertFactor (factor : Factor) : List Factor → List Factor
  | [] => [factor]
  | head :: rest =>
      if factor.var < head.var then factor :: head :: rest
      else if factor.var = head.var then head.join factor :: rest
      else head :: insertFactor factor rest

theorem var_of_mem_insertFactor {factor member : Factor} {factors : List Factor}
    (isMember : member ∈ insertFactor factor factors) :
    member.var = factor.var ∨ ∃ old ∈ factors, old.var = member.var := by
  induction factors with
  | nil =>
      simp only [insertFactor, List.mem_singleton] at isMember
      exact .inl (by rw [isMember])
  | cons head rest hypothesis =>
      simp only [insertFactor] at isMember
      split at isMember
      · rcases List.mem_cons.1 isMember with rfl | old
        · exact .inl rfl
        · exact .inr ⟨member, old, rfl⟩
      · split at isMember
        · rcases List.mem_cons.1 isMember with rfl | old
          · exact .inr ⟨head, List.mem_cons_self, rfl⟩
          · exact .inr ⟨member, List.mem_cons_of_mem _ old, rfl⟩
        · rcases List.mem_cons.1 isMember with rfl | deeper
          · exact .inr ⟨member, List.mem_cons_self, rfl⟩
          · rcases hypothesis deeper with same | ⟨old, isOld, same⟩
            · exact .inl same
            · exact .inr ⟨old, List.mem_cons_of_mem _ isOld, same⟩

theorem increasing_insertFactor (factor : Factor) {factors : List Factor}
    (increasing : factors.Pairwise fun first second => first.var < second.var) :
    (insertFactor factor factors).Pairwise fun first second => first.var < second.var := by
  induction factors with
  | nil => exact List.pairwise_singleton _ _
  | cons head rest hypothesis =>
      rw [List.pairwise_cons] at increasing
      simp only [insertFactor]
      split
      · rename_i smaller
        rw [List.pairwise_cons]
        refine ⟨fun member isMember => ?_, List.pairwise_cons.2 increasing⟩
        rcases List.mem_cons.1 isMember with rfl | old
        · exact smaller
        · exact Int.lt_trans smaller (increasing.1 member old)
      · split
        · exact List.pairwise_cons.2 ⟨increasing.1, increasing.2⟩
        · refine List.pairwise_cons.2 ⟨fun member isMember => ?_, hypothesis increasing.2⟩
          rcases var_of_mem_insertFactor isMember with same | ⟨old, isOld, same⟩
          · omega
          · rw [← same]
            exact increasing.1 old isOld

def insert (factor : Factor) (product : PowerProduct) : PowerProduct :=
  ⟨insertFactor factor product.factors, increasing_insertFactor factor product.increasing⟩

/-- Factors of one variable are joined, in any order. -/
def ofFactors (factors : List Factor) : PowerProduct :=
  factors.foldl (fun product factor => product.insert factor) one

def mul (first second : PowerProduct) : PowerProduct :=
  second.factors.foldl (fun product factor => product.insert factor) first

def isOne (product : PowerProduct) : Bool := product.factors.isEmpty

/-- The power of a variable that does not occur is zero. -/
def degreeOf (product : PowerProduct) (var : Int) : Nat :=
  (product.factors.find? fun factor => factor.var == var).elim 0 Factor.power

/-- The degree is the product of the powers, not their sum, and zero without variables. -/
def degree (product : PowerProduct) : Nat :=
  if product.isOne then 0 else (product.factors.map Factor.power).foldl (· * ·) 1

def vars (product : PowerProduct) : List Int := product.factors.map Factor.var

/-- The power of the first variable, zero if there is none. -/
def leadingPower (product : PowerProduct) : Nat :=
  product.factors.head?.elim 0 Factor.power

def rename (old new : Int) (product : PowerProduct) : PowerProduct :=
  ofFactors (product.factors.map (Factor.rename old new))

/-- The factors of which a test holds. -/
def filter (test : Factor → Bool) (product : PowerProduct) : PowerProduct :=
  ⟨product.factors.filter test, product.increasing.filter test⟩

/-- What is left of each factor when the powers of a divisor are taken away. -/
def quotientFactors (divisor : PowerProduct) (factors : List Factor) : List Factor :=
  factors.filterMap fun factor =>
    if more : divisor.degreeOf factor.var < factor.power then
      some ⟨factor.var, factor.power - divisor.degreeOf factor.var, Nat.sub_pos_of_lt more⟩
    else none

/-- The quotient of two products, unless some power of the divisor is the larger one. -/
def divide? (product divisor : PowerProduct) : Option PowerProduct :=
  if (product.factors.all fun factor => divisor.degreeOf factor.var ≤ factor.power) &&
      (divisor.factors.all fun factor => product.degreeOf factor.var != 0) then
    some (ofFactors (quotientFactors divisor product.factors))
  else none

/-- The factors are joined by the sign of multiplication. -/
def text (product : PowerProduct) : Except Fault String := do
  let factors ← product.factors.mapM Factor.text
  return "*".intercalate factors

end PowerProduct

end TrigAlgebra
