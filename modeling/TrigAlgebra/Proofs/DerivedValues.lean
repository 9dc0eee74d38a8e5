/-
This file compares the orders in which the values of sines and cosines can be derived: only the order
of two entries with a variable in common that has no value can change what an evaluation returns.
-/

import TrigAlgebra.Proofs.AngleAddition
import TrigAlgebra.Proofs.TrigWellFormed
import TrigAlgebra.TrigPolynomial.Evaluation

namespace TrigAlgebra

namespace Assignment

variable {K : Type} {values current : Assignment K}

theorem set_self {var : Int} {value : K} : values.set var value var = some value :=
  if_pos rfl

theorem set_ne {var other : Int} {value : K} (different : other ≠ var) :
    values.set var value other = values other :=
  if_neg different

/-- Values that are already there stay. -/
def orElse (values others : Assignment K) : Assignment K :=
  fun var => (values var).or (others var)

/-- Where no value is given, the other assignment decides. -/
theorem orElse_of_eq_none {others : Assignment K} {var : Int} (free : others var = none) :
    values.orElse others var = values var := by
  unfold orElse
  rw [free, Option.or_none]

/-- Given values are kept. -/
theorem orElse_of_eq_some {others : Assignment K} {var : Int} {value : K}
    (given : values var = some value) : values.orElse others var = some value := by
  unfold orElse
  rw [given, Option.some_or]

/-- A default is an assignment that comes last. -/
theorem setDefault_eq (values : Assignment K) (var : Int) (value : K) :
    values.setDefault var value = values.orElse (empty.set var value) := by
  funext other
  unfold orElse
  by_cases same : other = var
  · rw [same, set_self]
    unfold setDefault
    cases given : values var with
    | some old => exact given
    | none => exact set_self
  · rw [set_ne same]
    unfold setDefault
    cases values var with
    | some old => exact Option.or_none.symm
    | none => exact (set_ne same).trans Option.or_none.symm

theorem orElse_orElse (values first second : Assignment K) :
    (values.orElse first).orElse second = values.orElse (first.orElse second) := by
  funext var
  exact Option.or_assoc

/-- Defaults for different variables may be given in any order. -/
theorem orElse_swap {first second : Assignment K}
    (apart : ∀ var, values var = none → first var = none ∨ second var = none) :
    (values.orElse first).orElse second = (values.orElse second).orElse first := by
  funext var
  unfold orElse
  cases given : values var with
  | some value => rfl
  | none =>
      rcases apart var given with free | free
      · rw [free, Option.or_none, Option.or_none]
      · rw [free, Option.or_none, Option.or_none]

/-- Later values are added to earlier ones. -/
def Keeps (values current : Assignment K) : Prop :=
  ∀ var value, values var = some value → current var = some value

/-- What is still free was free before. -/
theorem Keeps.eq_none (keeps : values.Keeps current) {var : Int} (free : current var = none) :
    values var = none := by
  cases given : values var with
  | none => rfl
  | some value =>
      rw [keeps var value given] at free
      cases free

end Assignment

/-- The variables of an entry are its angle and the placeholders. -/
def Concerns (entry : Int × Placeholders) (var : Int) : Prop :=
  var = entry.1 ∨ ∃ function, entry.2.of function = var

/-- The variables that an entry reads or writes. -/
theorem concerns_iff {entry : Int × Placeholders} {var : Int} : Concerns entry var ↔
    var = entry.1 ∨ var = entry.2.sine ∨ var = entry.2.cosine := by
  unfold Concerns
  apply or_congr_right
  constructor
  · rintro ⟨function, rfl⟩
    cases function
    · exact .inl rfl
    · exact .inr rfl
  · rintro (rfl | rfl)
    · exact ⟨.sine, rfl⟩
    · exact ⟨.cosine, rfl⟩

namespace Assignment

/-- Two entries have a variable in common that has no value. -/
def Meets {K : Type} (values : Assignment K) (entry other : Int × Placeholders) : Prop :=
  ∃ var, values var = none ∧ Concerns entry var ∧ Concerns other var

/-- Two entries meet in either order. -/
theorem Meets.symm {K : Type} {values : Assignment K} {entry other : Int × Placeholders}
    (meets : values.Meets entry other) : values.Meets other entry := by
  obtain ⟨var, free, first, second⟩ := meets
  exact ⟨var, free, second, first⟩

variable {K : Type} [Coefficient K] {values current : Assignment K} {entry other : Int × Placeholders}

/-- The values that an entry has to offer. -/
def offer (values : Assignment K) (entry : Int × Placeholders) : Except Fault (Assignment K) :=
  match values entry.1 with
  | none => .ok empty
  | some angle => do
      let sine ← Coefficient.circular .sine angle
      let cosine ← Coefficient.circular .cosine angle
      return (empty.set entry.2.sine sine).orElse (empty.set entry.2.cosine cosine)

/-- An entry offers its values as defaults. -/
theorem deriveEntry_eq (values : Assignment K) (entry : Int × Placeholders) :
    values.deriveEntry entry = (values.offer entry).map values.orElse := by
  unfold deriveEntry offer
  cases values entry.1 with
  | none =>
      have same : values.orElse empty = values := by
        funext var
        exact Option.or_none
      exact congrArg Except.ok same.symm
  | some angle =>
      dsimp only
      cases Coefficient.circular .sine angle with
      | error fault => rfl
      | ok sine =>
          cases Coefficient.circular .cosine angle with
          | error fault => rfl
          | ok cosine =>
              change Except.ok ((values.setDefault entry.2.sine sine).setDefault entry.2.cosine cosine) = _
              rw [setDefault_eq, setDefault_eq, orElse_orElse]
              rfl

/-- An entry offers what the value of its angle says. -/
theorem offer_congr (same : values entry.1 = current entry.1) :
    values.offer entry = current.offer entry := by
  unfold offer
  rw [same]

/-- An entry offers values for its placeholders only. -/
theorem exists_of_offer {new : Assignment K} (offered : values.offer entry = .ok new) {var : Int}
    (written : new var ≠ none) : ∃ function, entry.2.of function = var := by
  unfold offer at offered
  split at offered
  · cases offered
    exact (written rfl).elim
  · rename_i angle _
    obtain ⟨sine, -, later⟩ := bind_eq_ok.1 offered
    obtain ⟨cosine, -, last⟩ := bind_eq_ok.1 later
    cases last
    by_contra none
    push Not at none
    have noSine : empty.set entry.2.sine sine var = .none := set_ne (none .sine).symm
    have noCosine : empty.set entry.2.cosine cosine var = .none := set_ne (none .cosine).symm
    exact written ((orElse_of_eq_none noCosine).trans noSine)

/-- Deriving the values of an entry keeps all values. -/
theorem Keeps.deriveEntry {next : Assignment K} (keeps : values.Keeps current)
    (returned : current.deriveEntry entry = .ok next) : values.Keeps next := by
  rw [deriveEntry_eq, map_eq_ok] at returned
  obtain ⟨new, -, rfl⟩ := returned
  exact fun var value given => orElse_of_eq_some (keeps var value given)

variable (K) in
/-- A result that is missing because a sine or a cosine could not be computed. -/
def Uncomputed {A : Type} (result : Except Fault A) : Prop :=
  ∃ function, ∃ angle : K, ∃ fault,
    Coefficient.circular function angle = .error fault ∧ result = .error fault

variable (K) in
/-- Two results are the same, or both are missing because a sine or a cosine could not be computed. -/
def Alike {A : Type} (first second : Except Fault A) : Prop :=
  first = second ∨ Uncomputed K first ∧ Uncomputed K second

section Alike

variable {A B : Type} {first second third : Except Fault A}

/-- Results that are alike stay so along a chain. -/
theorem Alike.trans (left : Alike K first second) (right : Alike K second third) :
    Alike K first third := by
  rcases left with rfl | ⟨one, two⟩
  · exact right
  · rcases right with rfl | ⟨-, three⟩
    · exact .inr ⟨one, two⟩
    · exact .inr ⟨one, three⟩

/-- What could not be computed cannot be continued. -/
theorem Uncomputed.bind (missing : Uncomputed K first) (next : A → Except Fault B) :
    Uncomputed K (first >>= next) := by
  obtain ⟨function, angle, fault, uncomputed, rfl⟩ := missing
  exact ⟨function, angle, fault, uncomputed, rfl⟩

/-- Results that are alike are continued alike. -/
theorem Alike.bind (alike : Alike K first second) (next : A → Except Fault B) :
    Alike K (first >>= next) (second >>= next) := by
  rcases alike with rfl | ⟨one, two⟩
  · exact .inl rfl
  · exact .inr ⟨one.bind next, two.bind next⟩

theorem alike_bind {next later : A → Except Fault B}
    (alike : ∀ value, first = .ok value → Alike K (next value) (later value)) :
    Alike K (first >>= next) (first >>= later) := by
  cases first with
  | error fault => exact .inl rfl
  | ok value => exact alike value rfl

/-- Which of two computations comes first matters only when both fail. -/
theorem alike_swap {C : Type} {one : Except Fault A} {two : Except Fault B} {combine : A → B → C}
    {reversed : B → A → C}
    (same : ∀ left right, one = .ok left → two = .ok right → combine left right = reversed right left)
    (oneFails : ∀ fault, one = .error fault → Uncomputed K one)
    (twoFails : ∀ fault, two = .error fault → Uncomputed K two) :
    Alike K (one >>= fun left => two.map (combine left)) (two >>= fun right => one.map (reversed right)) := by
  cases one with
  | error fault =>
      cases two with
      | error other => exact .inr ⟨(oneFails fault rfl).bind _, (twoFails other rfl).bind _⟩
      | ok right => exact .inl rfl
  | ok left =>
      cases two with
      | error other => exact .inl rfl
      | ok right => exact .inl (congrArg Except.ok (same left right rfl rfl))

end Alike

/-- An entry fails for nothing but an angle whose functions are not computed. -/
theorem uncomputed_offer {fault : Fault} (failed : values.offer entry = .error fault) :
    Uncomputed K (values.offer entry) := by
  rw [failed]
  unfold offer at failed
  split at failed
  · cases failed
  · rename_i angle _
    rcases bind_eq_error.1 failed with sine | ⟨sine, -, later⟩
    · exact ⟨_, angle, fault, sine, rfl⟩
    · rcases bind_eq_error.1 later with cosine | ⟨cosine, -, absurd⟩
      · exact ⟨_, angle, fault, cosine, rfl⟩
      · exact (pure_ne_error absurd).elim

/-- Where the entries do not meet, one keeps the angle of the other as it is. -/
theorem offer_orElse {new : Assignment K} (keeps : values.Keeps current)
    (apart : ¬ values.Meets entry other) (offered : current.offer entry = .ok new) :
    (current.orElse new).offer other = current.offer other := by
  apply offer_congr
  cases given : current other.1 with
  | some angle => exact orElse_of_eq_some given
  | none =>
      rw [← given]
      apply orElse_of_eq_none
      by_contra written
      obtain ⟨function, same⟩ := exists_of_offer offered written
      exact apart ⟨other.1, keeps.eq_none given, .inr ⟨function, same⟩, .inl rfl⟩

/-- Two entries that do not meet may be derived in either order. -/
theorem deriveEntry_bind (keeps : values.Keeps current) (apart : ¬ values.Meets entry other) :
    (current.deriveEntry entry >>= fun next => next.deriveEntry other) =
      (current.offer entry >>= fun new =>
        (current.offer other).map fun later => (current.orElse new).orElse later) := by
  rw [deriveEntry_eq]
  cases offered : current.offer entry with
  | error fault => rfl
  | ok new =>
      change (current.orElse new).deriveEntry other = (current.offer other).map _
      rw [deriveEntry_eq, offer_orElse keeps apart offered]

/-- Entries that do not meet can be taken in either order. -/
theorem deriveEntry_comm (keeps : values.Keeps current) (apart : ¬ values.Meets entry other) :
    Alike K (current.deriveEntry entry >>= fun next => next.deriveEntry other)
      (current.deriveEntry other >>= fun next => next.deriveEntry entry) := by
  rw [deriveEntry_bind keeps apart, deriveEntry_bind keeps fun meets => apart meets.symm]
  refine alike_swap ?_ (fun _ => uncomputed_offer) (fun _ => uncomputed_offer)
  intro new later offered offeredLater
  apply orElse_swap
  intro var free
  by_contra both
  push Not at both
  exact apart ⟨var, keeps.eq_none free, .inr (exists_of_offer offered both.1),
    .inr (exists_of_offer offeredLater both.2)⟩

/-- An entry can be taken before others that it does not meet. -/
theorem alike_moved (keeps : values.Keeps current) {before after : List (Int × Placeholders)}
    (apart : ∀ item ∈ before, ¬ values.Meets item entry) :
    Alike K ((before ++ entry :: after).foldlM deriveEntry current)
      ((entry :: (before ++ after)).foldlM deriveEntry current) := by
  induction before generalizing current with
  | nil => exact .inl rfl
  | cons head rest hypothesis =>
      rw [List.forall_mem_cons] at apart
      have moved : Alike K ((head :: (rest ++ entry :: after)).foldlM deriveEntry current)
          ((head :: entry :: (rest ++ after)).foldlM deriveEntry current) := by
        rw [List.foldlM_cons, List.foldlM_cons]
        exact alike_bind fun next returned => hypothesis (keeps.deriveEntry returned) apart.2
      have swapped := (deriveEntry_comm keeps apart.1).bind
        fun next => (rest ++ after).foldlM deriveEntry next
      rw [bind_assoc, bind_assoc] at swapped
      exact moved.trans swapped

/-- An item stands before another one only once. -/
theorem not_sublist {A : Type} {head item : A} {before after : List A}
    (distinct : (before ++ head :: after).Nodup) (member : item ∈ before) :
    ¬ [head, item].Sublist (before ++ head :: after) := by
  intro sublist
  obtain ⟨-, -, apart⟩ := List.nodup_append.1 distinct
  obtain ⟨early, late, shape, isEarly, isLate⟩ := List.sublist_append_iff.1 sublist
  cases early with
  | nil =>
      have inLate : item ∈ late := by
        rw [← List.nil_append late, ← shape]
        exact List.mem_cons_of_mem _ List.mem_cons_self
      exact apart item member item (isLate.subset inLate) rfl
  | cons first others =>
      have same : head = first := (List.cons.inj shape).1
      exact apart first (isEarly.subset List.mem_cons_self) head List.mem_cons_self same.symm

theorem sublist_without {before after : List (Int × Placeholders)} {head first second : Int × Placeholders}
    (outside : head ∉ before) (notFirst : first ≠ head) (notSecond : second ≠ head)
    (sublist : [first, second].Sublist (before ++ head :: after)) :
    [first, second].Sublist (before ++ after) := by
  have erased := sublist.erase head
  have unchanged : head ∉ [first, second] := by simp [notFirst.symm, notSecond.symm]
  rwa [List.erase_of_not_mem unchanged, List.erase_append_right _ outside, List.erase_cons_head] at erased

/-- Two orders of the same entries lead to the same values as long as entries that meet keep their
order. -/
theorem alike_foldlM (keeps : values.Keeps current) {first second : List (Int × Placeholders)}
    (distinct : first.Nodup) (order : first.Perm second)
    (ordered : ∀ entry other, values.Meets entry other →
      [entry, other].Sublist second → [entry, other].Sublist first) :
    Alike K (first.foldlM deriveEntry current) (second.foldlM deriveEntry current) := by
  induction second generalizing first current with
  | nil =>
      rw [List.perm_nil.1 order]
      exact .inl rfl
  | cons head rest hypothesis =>
      obtain ⟨before, after, rfl⟩ := List.append_of_mem (order.mem_iff.2 List.mem_cons_self)
      have remaining : (before ++ after).Perm rest :=
        (List.perm_cons head).1 (List.perm_middle.symm.trans order)
      have outside := List.nodup_cons.1 (List.perm_middle.nodup_iff.1 distinct)
      have apart : ∀ item ∈ before, ¬ values.Meets item head := by
        intro item member meets
        have inRest : item ∈ rest := remaining.mem_iff.1 (List.mem_append_left _ member)
        have later : [head, item].Sublist (head :: rest) :=
          (List.singleton_sublist.2 inRest).cons_cons head
        exact not_sublist distinct member (ordered head item meets.symm later)
      refine (alike_moved keeps apart).trans ?_
      rw [List.foldlM_cons, List.foldlM_cons]
      refine alike_bind fun next returned => ?_
      refine hypothesis (keeps.deriveEntry returned) outside.2 remaining ?_
      intro entry other meets later
      have different : ∀ item ∈ [entry, other], item ≠ head := by
        rintro item member rfl
        exact outside.1 (remaining.mem_iff.2 (later.subset member))
      exact sublist_without (fun member => outside.1 (List.mem_append_left _ member))
        (different entry List.mem_cons_self)
        (different other (List.mem_cons_of_mem _ List.mem_cons_self))
        (ordered entry other meets (later.trans (List.sublist_cons_self _ _)))

end Assignment

/-- Maps with the same entries are equal in any order. -/
theorem AngleMap.same_of_perm {first second : AngleMap} (order : first.entries.Perm second.entries) :
    first.same second = true := by
  unfold same
  rw [Bool.and_eq_true, beq_iff_eq, List.all_eq_true]
  refine ⟨order.length_eq, fun entry member => beq_iff_eq.2 ?_⟩
  exact find?_eq_some.2 (order.mem_iff.1 member)

namespace TrigPolynomial

variable {K : Type} [Coefficient K]

/-- The order of the angles does not matter to a comparison, and it matters to an evaluation only for
two entries that have a variable in common whose value is not given, or when several sines and
cosines cannot be computed. -/
theorem evaluate_reordered (polynomial : Polynomial K) (first second : AngleMap)
    (order : first.entries.Perm second.entries) (values : Assignment K)
    (ordered : ∀ entry other, values.Meets entry other →
      [entry, other].Sublist second.entries → [entry, other].Sublist first.entries) :
    same ⟨polynomial, first⟩ ⟨polynomial, second⟩ = polynomial.same polynomial ∧
      Assignment.Alike K (evaluate ⟨polynomial, first⟩ values) (evaluate ⟨polynomial, second⟩ values) := by
  constructor
  · unfold same
    rw [AngleMap.same_of_perm order, Bool.and_true]
  · have derived : Assignment.Alike K (values.derive first) (values.derive second) :=
      Assignment.alike_foldlM (fun _ _ given => given) (first.distinct.of_map _) order ordered
    exact derived.bind polynomial.evaluate

/-- The second angle is the sine of the first one. -/
def sineAsAngle : List (Int × Placeholders) := [(2, ⟨4, 6⟩), (4, ⟨8, 10⟩)]

def otherAngle : Int × Placeholders := (12, ⟨14, 16⟩)

def atQuarter : Assignment Int := .ofList [(2, 1), (12, 0)]

theorem not_meets_otherAngle {entry : Int × Placeholders} (member : entry ∈ sineAsAngle) :
    ¬ atQuarter.Meets otherAngle entry := by
  rintro ⟨var, -, isFirst, isSecond⟩
  rw [concerns_iff] at isFirst isSecond
  simp only [sineAsAngle, List.mem_cons, List.not_mem_nil, or_false] at member
  rcases member with rfl | rfl <;> simp only [otherAngle] at isFirst isSecond <;> omega

def cosineOfSine : Polynomial Int := ⟨[⟨1, .ofFactor (.linear 10)⟩, ⟨1, .ofFactor (.linear 14)⟩], false⟩

/-- An angle apart from the others can move, but the two angles of the chain cannot. -/
theorem evaluate_reordered_sineAsAngle :
    (∀ entry other, atQuarter.Meets entry other →
      [entry, other].Sublist (AngleMap.ofList (otherAngle :: sineAsAngle)).entries →
      [entry, other].Sublist (AngleMap.ofList (sineAsAngle ++ [otherAngle])).entries) ∧
    evaluate ⟨cosineOfSine, .ofList (sineAsAngle ++ [otherAngle])⟩ atQuarter = .ok 0 ∧
    evaluate ⟨cosineOfSine, .ofList (otherAngle :: sineAsAngle)⟩ atQuarter = .ok 0 ∧
    evaluate ⟨cosineOfSine, .ofList (otherAngle :: sineAsAngle.reverse)⟩ atQuarter =
      .error (.valuesMissing [10]) := by
  have ordered : ∀ entry other, atQuarter.Meets entry other →
      [entry, other].Sublist (AngleMap.ofList (otherAngle :: sineAsAngle)).entries →
      [entry, other].Sublist (AngleMap.ofList (sineAsAngle ++ [otherAngle])).entries := by
    intro entry other meets sublist
    change [entry, other].Sublist (otherAngle :: sineAsAngle) at sublist
    change [entry, other].Sublist (sineAsAngle ++ [otherAngle])
    cases sublist with
    | cons _ inOthers => exact inOthers.trans (List.sublist_append_left sineAsAngle [otherAngle])
    | cons_cons _ inOthers =>
        exact (not_meets_otherAngle (inOthers.subset List.mem_cons_self) meets).elim
  have early : evaluate ⟨cosineOfSine, .ofList (sineAsAngle ++ [otherAngle])⟩ atQuarter = .ok 0 := by
    decide +kernel
  refine ⟨ordered, early, ?_, by decide +kernel⟩
  have moved := (evaluate_reordered cosineOfSine (.ofList (sineAsAngle ++ [otherAngle]))
    (.ofList (otherAngle :: sineAsAngle)) (by decide) atQuarter ordered).2
  rw [early] at moved
  rcases moved with same | ⟨⟨_, _, _, _, absurd⟩, -⟩
  · exact same.symm
  · cases absurd

end TrigPolynomial

end TrigAlgebra
