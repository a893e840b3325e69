import Mathlib.Data.List.Nodup
import Mathlib.Data.Set.Finite.Basic

/- Finite sets as lists in an order. -/

namespace OrderedSet

variable {α : Type*} {before : α → α → Bool} {a b : α} {l : List α}

/-- In front of the first element that `a` is before. -/
def place (before : α → α → Bool) (a : α) : List α → List α
  | [] => [a]
  | b :: l => if before a b then a :: b :: l else b :: place before a l

theorem place_perm : (place before a l).Perm (a :: l) := by
  induction l with
  | nil => exact .refl _
  | cons c l ih =>
    rw [place]
    split
    · exact .refl _
    · exact (ih.cons c).trans (.swap a c l)

theorem mem_place : b ∈ place before a l ↔ b = a ∨ b ∈ l := place_perm.mem_iff.trans List.mem_cons

variable [DecidableEq α]

def insert (before : α → α → Bool) (a : α) (l : List α) : List α := if a ∈ l then l else place before a l

theorem mem_insert : b ∈ insert before a l ↔ b = a ∨ b ∈ l := by
  unfold insert
  split
  next mem =>
    exact ⟨.inr, fun either => either.elim (fun same => same ▸ mem) id⟩
  · exact mem_place

end OrderedSet

/- What needs what, where some things are missing and some need themselves. -/

namespace Dependencies

open List

open Relation (ReflTransGen TransGen)

variable {P : Type*} {deps deps' : P → Option (List P)} {p q r : P}

/-- `p` is there, and `q` is one of the things that it needs. -/
def Needs (deps : P → Option (List P)) (p q : P) : Prop := ∃ l, deps p = some l ∧ q ∈ l

def Reaches (deps : P → Option (List P)) : P → P → Prop := ReflTransGen (Needs deps)

def Missing (deps : P → Option (List P)) (p : P) : Prop := deps p = none

/-- It needs itself. -/
def Cyclic (deps : P → Option (List P)) (p : P) : Prop := TransGen (Needs deps) p p

/-- Something that it needs, or that this needs in turn, is missing or needs itself. -/
def Sick (deps : P → Option (List P)) (p : P) : Prop := ∃ r, Reaches deps p r ∧ (Missing deps r ∨ Cyclic deps r)

/-- `q` is the first of the things that `p` needs that is sick. -/
def Follows (deps : P → Option (List P)) (p q : P) : Prop :=
  ∃ before after, deps p = some (before ++ q :: after) ∧ Sick deps q ∧ ∀ r ∈ before, ¬ Sick deps r

/-- A walk of so many steps. -/
inductive Walk (step : P → P → Prop) : Nat → P → P → Prop
  | here (p : P) : Walk step 0 p p
  | next {n : Nat} {p q r : P} : step p q → Walk step n q r → Walk step (n + 1) p r

theorem Follows.needs (follows : Follows deps p q) : Needs deps p q := by
  obtain ⟨before, after, whole, -, -⟩ := follows
  exact ⟨_, whole, mem_append_right _ mem_cons_self⟩

theorem reaches_of_follows (walk : ReflTransGen (Follows deps) p q) : Reaches deps p q := by
  induction walk with
  | refl => exact .refl
  | tail _ step ih => exact ih.tail step.needs

theorem Sick.of_reaches (reach : Reaches deps p q) (sick : Sick deps q) : Sick deps p := by
  obtain ⟨r, further, wrong⟩ := sick
  exact ⟨r, reach.trans further, wrong⟩

section

variable (healthy : ¬ Sick deps p)
include healthy

theorem not_sick_needs (needs : Needs deps p q) : ¬ Sick deps q := fun sick =>
  healthy (sick.of_reaches (.single needs))

theorem not_missing : ∃ l, deps p = some l := by
  cases there : deps p with
  | none => exact absurd ⟨p, .refl, .inl there⟩ healthy
  | some l => exact ⟨l, rfl⟩

theorem not_cyclic : ¬ Cyclic deps p := fun cyclic => healthy ⟨p, .refl, .inr cyclic⟩

end

theorem Sick.needs (sick : Sick deps p) (there : ¬ Missing deps p) : ∃ q, Needs deps p q ∧ Sick deps q := by
  obtain ⟨r, reach, wrong⟩ := sick
  rcases reach.cases_head with rfl | ⟨q, needs, further⟩
  · rcases wrong with missing | cyclic
    · exact absurd missing there
    · obtain ⟨q, needs, back⟩ := TransGen.head'_iff.mp cyclic
      exact ⟨q, needs, p, back, .inr cyclic⟩
  · exact ⟨q, needs, r, further, wrong⟩

theorem exists_first {l : List P} (some_sick : ∃ q ∈ l, Sick deps q) :
    ∃ before q after, l = before ++ q :: after ∧ Sick deps q ∧ ∀ r ∈ before, ¬ Sick deps r := by
  induction l with
  | nil =>
    obtain ⟨q, mem, -⟩ := some_sick
    cases mem
  | cons c l ih =>
    by_cases sick : Sick deps c
    · exact ⟨[], c, l, rfl, sick, nofun⟩
    · obtain ⟨q, mem, sick_q⟩ := some_sick
      have later : q ∈ l := by
        rcases mem_cons.mp mem with rfl | later
        · exact absurd sick_q sick
        · exact later
      obtain ⟨before, q, after, rfl, sick_q, healthy⟩ := ih ⟨q, later, sick_q⟩
      refine ⟨c :: before, q, after, rfl, sick_q, fun r inside => ?_⟩
      rcases mem_cons.mp inside with rfl | inside
      · exact sick
      · exact healthy r inside

theorem Sick.follows (sick : Sick deps p) (there : ¬ Missing deps p) : ∃ q, Follows deps p q := by
  obtain ⟨q, ⟨l, whole, mem⟩, sick_q⟩ := sick.needs there
  obtain ⟨before, q, after, rfl, sick_q, healthy⟩ := exists_first ⟨q, mem, sick_q⟩
  exact ⟨q, before, after, whole, sick_q, healthy⟩

theorem Follows.unique (one : Follows deps p q) (other : Follows deps p r) : q = r := by
  obtain ⟨before, after, whole, sick, healthy⟩ := one
  obtain ⟨before', after', whole', sick', healthy'⟩ := other
  have same : before ++ q :: after = before' ++ r :: after' := Option.some.inj (whole.symm.trans whole')
  clear whole whole'
  induction before generalizing before' with
  | nil =>
    cases before' with
    | nil => exact (cons.inj same).1
    | cons c before' =>
      obtain ⟨rfl, -⟩ := cons.inj same
      exact absurd sick (healthy' q mem_cons_self)
  | cons c before ih =>
    cases before' with
    | nil =>
      obtain ⟨rfl, -⟩ := cons.inj same
      exact absurd sick' (healthy c mem_cons_self)
    | cons c' before' =>
      exact ih (fun r inside => healthy r (mem_cons_of_mem _ inside)) before'
        (fun r inside => healthy' r (mem_cons_of_mem _ inside)) (cons.inj same).2

theorem Walk.length_unique {n k : Nat} (one : Walk (Follows deps) n p r) (other : Walk (Follows deps) k p r)
    (missing : Missing deps r) : n = k := by
  have ends : ∀ q, ¬ Follows deps r q := by
    rintro q ⟨before, after, whole, -⟩
    cases missing.symm.trans whole
  induction one generalizing k with
  | here =>
    cases other with
    | here => rfl
    | next step rest => exact absurd step (ends _)
  | next step rest ih =>
    cases other with
    | here => exact absurd step (ends _)
    | next step' rest' =>
      obtain rfl := step.unique step'
      rw [ih rest' missing ends]

theorem exists_walk {step : P → P → Prop} (reach : ReflTransGen step p r) : ∃ n, Walk step n p r := by
  induction reach using ReflTransGen.head_induction_on with
  | refl => exact ⟨0, .here r⟩
  | head first rest ih =>
    obtain ⟨n, walk⟩ := ih
    exact ⟨n + 1, .next first walk⟩

section

/-- Numbers that fall from each thing to those that it needs. -/
def Graded (deps : P → Option (List P)) (grade : P → Option Nat) : Prop :=
  ∀ p n, grade p = some n → ∃ l, deps p = some l ∧ ∀ q ∈ l, ∃ k, grade q = some k ∧ k < n

variable {grade : P → Option Nat}

theorem Graded.reaches (graded : Graded deps grade) {n : Nat} (numbered : grade p = some n)
    (reach : Reaches deps p q) :
    ∃ k, grade q = some k ∧ k ≤ n := by
  induction reach with
  | refl => exact ⟨n, numbered, le_refl n⟩
  | tail _ needs ih =>
    obtain ⟨k, here, le⟩ := ih
    obtain ⟨l, whole, below⟩ := graded _ k here
    obtain ⟨l', whole', mem⟩ := needs
    cases whole.symm.trans whole'
    obtain ⟨j, there, lt⟩ := below _ mem
    exact ⟨j, there, le_of_lt (lt_of_lt_of_le lt le)⟩

/-- What has a number is not sick. -/
theorem Graded.not_sick (graded : Graded deps grade) (numbered : (grade p).isSome) : ¬ Sick deps p := by
  obtain ⟨n, here⟩ := Option.isSome_iff_exists.mp numbered
  rintro ⟨r, reach, wrong⟩
  obtain ⟨k, there, -⟩ := graded.reaches here reach
  rcases wrong with missing | cyclic
  · obtain ⟨l, whole, -⟩ := graded r k there
    cases missing.symm.trans whole
  · obtain ⟨q, ⟨l, whole, mem⟩, back⟩ := TransGen.head'_iff.mp cyclic
    obtain ⟨l', whole', below⟩ := graded r k there
    cases whole.symm.trans whole'
    obtain ⟨j, next, lt⟩ := below q mem
    obtain ⟨i, again, le⟩ := graded.reaches next back
    rw [there] at again
    cases again
    exact absurd lt (not_lt.mpr le)

end

section

/-- Both say the same of all that is reached from `p`. -/
def Agree (deps deps' : P → Option (List P)) (p : P) : Prop := ∀ q, Reaches deps p q → deps' q = deps q

variable (agree : Agree deps deps' p)
include agree

theorem Agree.needs (needs : Needs deps p q) : Agree deps deps' q := fun r reach =>
  agree r (.head needs reach)

theorem Agree.reaches_iff : Reaches deps' p q ↔ Reaches deps p q := by
  constructor
  · intro reach
    induction reach with
    | refl => exact .refl
    | tail _ needs ih =>
      obtain ⟨l, whole, mem⟩ := needs
      exact ih.tail ⟨l, (agree _ ih).symm.trans whole, mem⟩
  · intro reach
    induction reach with
    | refl => exact .refl
    | tail before needs ih =>
      obtain ⟨l, whole, mem⟩ := needs
      exact ih.tail ⟨l, (agree _ before).trans whole, mem⟩

theorem Agree.of_reaches (reach : Reaches deps p q) : Agree deps deps' q := fun _ further =>
  agree _ (reach.trans further)

theorem Agree.needs_iff : Needs deps' p q ↔ Needs deps p q := by
  unfold Needs
  rw [agree p .refl]

theorem Agree.cyclic_iff : Cyclic deps' p ↔ Cyclic deps p := by
  unfold Cyclic
  rw [TransGen.head'_iff, TransGen.head'_iff]
  refine exists_congr fun q => ?_
  rw [agree.needs_iff]
  exact and_congr_right fun needs => (agree.needs needs).reaches_iff

theorem Agree.sick_iff : Sick deps' p ↔ Sick deps p := by
  refine exists_congr fun r => ?_
  rw [agree.reaches_iff]
  refine and_congr_right fun reach => ?_
  have there := agree.of_reaches reach
  rw [there.cyclic_iff, Missing, Missing, agree r reach]

theorem Agree.follows_iff : Follows deps' p q ↔ Follows deps p q := by
  refine exists_congr fun before => exists_congr fun after => ?_
  rw [agree p .refl]
  refine and_congr_right fun whole => ?_
  have each : ∀ r ∈ before ++ q :: after, (Sick deps' r ↔ Sick deps r) := fun r mem =>
    (agree.needs ⟨_, whole, mem⟩).sick_iff
  refine and_congr (each q (mem_append_right _ mem_cons_self)) (forall_congr' fun r =>
    forall_congr' fun inside => ?_)
  rw [each r (mem_append_left _ inside)]

theorem Agree.follows_all : ReflTransGen (Follows deps') p q ↔ ReflTransGen (Follows deps) p q := by
  constructor
  · intro reach
    have both : ReflTransGen (Follows deps) p q ∧ Agree deps deps' q := by
      induction reach with
      | refl => exact ⟨.refl, agree⟩
      | tail _ step ih =>
        have same := ih.2.follows_iff.mp step
        exact ⟨ih.1.tail same, ih.2.needs same.needs⟩
    exact both.1
  · intro reach
    have both : ReflTransGen (Follows deps') p q ∧ Agree deps deps' q := by
      induction reach with
      | refl => exact ⟨.refl, agree⟩
      | tail _ step ih => exact ⟨ih.1.tail (ih.2.follows_iff.mpr step), ih.2.needs step.needs⟩
    exact both.1

end

end Dependencies
