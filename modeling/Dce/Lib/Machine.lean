import Mathlib.Algebra.Order.Ring.Int
import Mathlib.Algebra.Order.Ring.Nat

/-- A guarded machine. `step s a` is `none` where the label `a` is not enabled
in `s`, so one definition serves both for replaying a run and for proofs. -/
structure Machine (σ : Type*) (α : Type*) where
  init : σ → Prop
  step : σ → α → Option σ

namespace Machine

variable {σ α : Type*} {M : Machine σ α} {C D : σ → α → Prop}

/-- `M.Path C s t`: finitely many enabled steps lead from `s` to `t`, each of
them meeting `C` in the state where it is taken. -/
inductive Path (M : Machine σ α) (C : σ → α → Prop) : σ → σ → Prop
  | refl (s) : Path M C s s
  | next {s t u a} : Path M C s t → C t a → M.step t a = some u → Path M C s u

/-- The states of the runs whose steps all meet `C`. -/
inductive ReachBy (M : Machine σ α) (C : σ → α → Prop) : σ → Prop
  | start {s} : M.init s → ReachBy M C s
  | next {s t a} : ReachBy M C s → C s a → M.step s a = some t → ReachBy M C t

/-- The reachable states: nothing is asked of the steps. -/
abbrev Reach (M : Machine σ α) : σ → Prop := M.ReachBy fun _ _ => True

/-- The state after the labels `as`, where each is enabled in its turn. -/
def replay (M : Machine σ α) : σ → List α → Option σ
  | s, [] => some s
  | s, a :: as => (M.step s a).bind fun t => M.replay t as

variable {s t : σ}

/-- An invariant of the runs along `C`: it holds at the start and every step
that meets `C` keeps it. -/
theorem ReachBy.invariant {I : σ → Prop} (start : ∀ s, M.init s → I s)
    (keep : ∀ s a t, I s → C s a → M.step s a = some t → I t) (reach : M.ReachBy C s) : I s := by
  induction reach with
  | start first => exact start _ first
  | next _ meets run ih => exact keep _ _ _ ih meets run

theorem ReachBy.invariant' {I : σ → Prop} (start : ∀ s, M.init s → I s)
    (keep : ∀ s a t, M.ReachBy C s → I s → C s a → M.step s a = some t → I t) (reach : M.ReachBy C s) : I s := by
  induction reach with
  | start first => exact start _ first
  | next before meets run ih => exact keep _ _ _ before ih meets run

theorem ReachBy.mono (weaker : ∀ s a, C s a → D s a) (reach : M.ReachBy C s) : M.ReachBy D s := by
  induction reach with
  | start first => exact .start first
  | next _ meets run ih => exact .next ih (weaker _ _ meets) run

theorem ReachBy.reach (reach : M.ReachBy C s) : M.Reach s :=
  reach.mono fun _ _ _ => trivial

theorem Path.reachBy (path : M.Path C s t) (reach : M.ReachBy C s) : M.ReachBy C t := by
  induction path with
  | refl => exact reach
  | next _ meets run ih => exact .next ih meets run

theorem Path.keeps {I : σ → Prop} (keep : ∀ s a t, I s → C s a → M.step s a = some t → I t)
    (path : M.Path C s t) (here : I s) : I t := by
  induction path with
  | refl => exact here
  | next _ meets run ih => exact keep _ _ _ ih meets run

theorem ReachBy.replay_of_mem {as : List α} (reach : M.ReachBy C s) (meets : ∀ a ∈ as, ∀ u, C u a)
    (run : M.replay s as = some t) : M.ReachBy C t := by
  induction as generalizing s with
  | nil => exact Option.some.inj run ▸ reach
  | cons a as ih =>
    obtain ⟨u, first, rest⟩ := Option.bind_eq_some_iff.mp run
    have others : ∀ b ∈ as, ∀ u, C u b := fun b mem => meets b (List.mem_cons_of_mem a mem)
    exact ih (.next reach (meets a List.mem_cons_self s) first) others rest

theorem ReachBy.replay {as : List α} (reach : M.ReachBy C s) (meets : ∀ u a, C u a)
    (run : M.replay s as = some t) : M.ReachBy C t :=
  reach.replay_of_mem (fun a _ u => meets u a) run

section

variable {η : Type*} {first : η} {note : σ → α → η → η}

/-- The machine with a ledger of its run beside it, in which every step is noted. -/
def ledgered (M : Machine σ α) (first : η) (note : σ → α → η → η) : Machine (σ × η) α where
  init p := M.init p.1 ∧ p.2 = first
  step p a := (M.step p.1 a).map fun t => (t, note p.1 a p.2)

theorem ledgered_step {p q : σ × η} {a : α} (run : (M.ledgered first note).step p a = some q) :
    M.step p.1 a = some q.1 ∧ q.2 = note p.1 a p.2 := by
  obtain ⟨t, step, rfl⟩ := Option.map_eq_some_iff.mp run
  exact ⟨step, rfl⟩

theorem ReachBy.ledgered {s : σ} (reach : M.ReachBy C s) :
    ∃ k, (M.ledgered first note).ReachBy (fun p a => C p.1 a) (s, k) := by
  induction reach with
  | start here => exact ⟨first, .start ⟨here, rfl⟩⟩
  | @next s t a before meets run ih =>
    obtain ⟨k, beside⟩ := ih
    refine ⟨note s a k, .next beside meets ?_⟩
    exact Option.map_eq_some_iff.mpr ⟨t, run, rfl⟩

end

section

/-- Of a run: whether all its steps were careful, and whether all of them were good. -/
structure Verdict where
  careful : Prop
  good : Prop

def Verdict.note (Careful Good : σ → α → Prop) (s : σ) (a : α) (k : Verdict) : Verdict :=
  ⟨k.careful ∧ Careful s a, k.good ∧ Good s a⟩

/-- The machine with the verdict on its run beside it. -/
def judged (M : Machine σ α) (Careful Good : σ → α → Prop) : Machine (σ × Verdict) α :=
  M.ledgered ⟨True, True⟩ (Verdict.note Careful Good)

variable {Careful Good : σ → α → Prop}

variable {k : Verdict} {s : σ}

/-- Where the careful steps of a sound state are those that are good, and leave it sound, a run is good exactly if
it is careful, and then it leads to a sound state. -/
theorem judged_sound (Sound : σ → Prop) (start : ∀ s, M.init s → Sound s)
    (keep : ∀ s a t, Sound s → M.step s a = some t → (Good s a ↔ Careful s a) ∧ (Careful s a → Sound t))
    (reach : (M.judged Careful Good).Reach (s, k)) : (k.good ↔ k.careful) ∧ (k.careful → Sound s) := by
  refine reach.invariant (I := fun p : σ × Verdict => (p.2.good ↔ p.2.careful) ∧ (p.2.careful → Sound p.1))
    (fun p first => ?_) fun p a q before _ run => ?_
  · rw [first.2]
    exact ⟨.rfl, fun _ => start p.1 first.1⟩
  · obtain ⟨step, noted⟩ := ledgered_step run
    obtain ⟨so_far, sound⟩ := before
    rw [noted]
    by_cases careful : p.2.careful
    · obtain ⟨exactly, after⟩ := keep _ _ _ (sound careful) step
      exact ⟨and_congr so_far exactly, fun both => after both.2⟩
    · have bad : ¬ p.2.good := fun good => careful (so_far.mp good)
      exact ⟨iff_of_false (fun both => bad both.1) fun both => careful both.1, fun both => absurd both.1 careful⟩

theorem judged_iff (Sound : σ → Prop) (start : ∀ s, M.init s → Sound s)
    (keep : ∀ s a t, Sound s → M.step s a = some t → (Good s a ↔ Careful s a) ∧ (Careful s a → Sound t))
    (reach : (M.judged Careful Good).Reach (s, k)) : k.good ↔ k.careful :=
  (judged_sound Sound start keep reach).1

theorem ReachBy.judged (reach : M.ReachBy Careful s) : ∃ k, (M.judged Careful Good).Reach (s, k) ∧ k.careful := by
  induction reach with
  | start here => exact ⟨_, .start ⟨here, rfl⟩, trivial⟩
  | @next s t a before meets run ih =>
    obtain ⟨k, beside, careful⟩ := ih
    exact ⟨_, .next beside trivial (Option.map_eq_some_iff.mpr ⟨t, run, rfl⟩), careful, meets⟩

theorem good_of_judged (good : ∀ s k, (M.judged Careful Good).Reach (s, k) → k.good) {t : σ} {a : α}
    (reach : M.Reach s)
    (step : M.step s a = some t) : Good s a := by
  obtain ⟨k, judged⟩ : ∃ k, (M.judged Careful Good).Reach (s, k) := reach.ledgered
  have last : (M.judged Careful Good).Reach (t, Verdict.note Careful Good s a k) :=
    judged.next trivial (Option.map_eq_some_iff.mpr ⟨t, step, rfl⟩)
  exact (good _ _ last).2

end

end Machine
