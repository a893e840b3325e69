import Dce.Lib.Machine

/- `dce_pthread_once`, for any number of threads over the control words of one process. An init routine is
code of the program: it can give control away, exit its thread, and call `pthread_once` itself. -/

namespace Dce.Pthread.Once

open Function List Option

inductive Code
  | success | EINVAL
  deriving DecidableEq, Repr

/-- History, not in the source. The last event comes first. -/
inductive Event (T : Type*)
  | entered (t : T) (once_control : Nat)
  | completed (t : T) (once_control : Nat)
  | returned (t : T) (once_control : Nat) (code : Code)
  deriving DecidableEq, Repr

/-- `once_control` is the memory where the control words are, and `routines` tells the control words of the
calls that a thread is in, the innermost one first. -/
structure Process (T : Type*) where
  current : Option T
  exited : T → Bool
  once_control : Nat → Nat
  routines : T → List Nat
  history : List (Event T)

inductive Label (T : Type*)
  | dispatch (t : T)
  | leave (t : T)
  | exit (t : T)
  | once (t : T) (once_control init_routine : Nat)
  | finish (t : T)
  deriving DecidableEq, Repr

def PTHREAD_ONCE_INIT : Nat := 0

variable {T : Type*} [DecidableEq T]

/-- Up to the call of `init_routine`, or to the return. Zero is the null pointer. -/
def dce_pthread_once (t : T) (once_control init_routine : Nat) (s : Process T) : Process T :=
  if once_control = 0 ∨ init_routine = 0 then
    { s with history := .returned t once_control .EINVAL :: s.history }
  else if s.once_control once_control = 1 then
    { s with history := .returned t once_control .success :: s.history }
  else
    { s with
      once_control := update s.once_control once_control 1
      routines := update s.routines t (once_control :: s.routines t)
      history := .entered t once_control :: s.history }

/-- From the end of the `init_routine` of a call on. -/
def finish (t : T) (once_control : Nat) (rest : List Nat) (s : Process T) : Process T :=
  { s with
    routines := update s.routines t rest
    history := .returned t once_control .success :: .completed t once_control :: s.history }

def step (s : Process T) : Label T → Option (Process T)
  | .dispatch t => if s.current = none ∧ s.exited t = false then some { s with current := some t } else none
  | .leave t => if s.current = some t then some { s with current := none } else none
  | .exit t =>
    if s.current = some t then some { s with current := none, exited := update s.exited t true } else none
  | .once t once_control init_routine =>
    if s.current = some t then some (dce_pthread_once t once_control init_routine s) else none
  | .finish t =>
    match s.routines t with
    | [] => none
    | once_control :: rest => if s.current = some t then some (finish t once_control rest s) else none

def machine : Machine (Process T) (Label T) where
  init s := (∀ c, s.once_control c = PTHREAD_ONCE_INIT) ∧ (∀ t, s.routines t = []) ∧ s.history = []
  step := step

def Event.enters (c : Nat) : Event T → Bool
  | .entered _ d => d = c
  | _ => false

def Event.completes (c : Nat) : Event T → Bool
  | .completed _ d => d = c
  | _ => false

/-- The routine of `c` is entered at most once. Every call that succeeds comes back after it was entered,
and after that execution has completed. -/
structure RunsOnce (c : Nat) (history : List (Event T)) : Prop where
  entered : history.countP (Event.enters c) ≤ 1
  returned : ∀ later before t, history = later ++ .returned t c .success :: before →
    before.countP (Event.enters c) = 1 ∧ before.countP (Event.completes c) = 1

/-- No thread is in the routine of a control word when it is called on. A thread that has exited in the
routine is in it for ever. -/
def Settled (s : Process T) : Label T → Prop
  | .once _ c init_routine => c ≠ 0 → init_routine ≠ 0 → ∀ t, c ∉ s.routines t
  | _ => True

/-- What has become of a control variable. -/
inductive Phase (T : Type*)
  | fresh
  | running (t : T)
  | done
  deriving DecidableEq, Repr

/-- The word does not tell `running` and `done` apart. -/
def Phase.word : Phase T → Nat
  | .fresh => 0
  | .running _ => 1
  | .done => 1

def Phase.entered : Phase T → Nat
  | .fresh => 0
  | .running _ => 1
  | .done => 1

def Phase.completed : Phase T → Nat
  | .fresh => 0
  | .running _ => 0
  | .done => 1

/-- How many calls of `t` are in the routine. -/
def Phase.inside (t : T) : Phase T → Nat
  | .fresh => 0
  | .running u => if u = t then 1 else 0
  | .done => 0

/-- The process has the control variable `c` in a phase. -/
structure Has (c : Nat) (phase : Phase T) (s : Process T) : Prop where
  word : s.once_control c = phase.word
  entered : s.history.countP (Event.enters c) = phase.entered
  completed : s.history.countP (Event.completes c) = phase.completed
  inside : ∀ t, (s.routines t).count c = phase.inside t

section

variable {c : Nat} {phase : Phase T} {s s' : Process T} {t : T}

/-- What a step can do to the words, the routines and the history. -/
inductive Does (s : Process T) (a : Label T) (s' : Process T) : Prop
  | nothing (settled : Settled s a) (word : s'.once_control = s.once_control) (routines : s'.routines = s.routines)
      (history : s'.history = s.history)
  | refuses (t : T) (d : Nat) (settled : Settled s a) (word : s'.once_control = s.once_control)
      (routines : s'.routines = s.routines) (history : s'.history = .returned t d .EINVAL :: s.history)
  | skips (t : T) (d : Nat) (settled : Settled s a ↔ ∀ u, d ∉ s.routines u) (already : s.once_control d = 1)
      (word : s'.once_control = s.once_control) (routines : s'.routines = s.routines)
      (history : s'.history = .returned t d .success :: s.history)
  | enters (t : T) (d : Nat) (settled : Settled s a ↔ ∀ u, d ∉ s.routines u) (fresh : s.once_control d ≠ 1)
      (word : s'.once_control = update s.once_control d 1)
      (routines : s'.routines = update s.routines t (d :: s.routines t))
      (history : s'.history = .entered t d :: s.history)
  | finishes (t : T) (d : Nat) (rest : List Nat) (settled : Settled s a) (innermost : s.routines t = d :: rest)
      (word : s'.once_control = s.once_control) (routines : s'.routines = update s.routines t rest)
      (history : s'.history = .returned t d .success :: .completed t d :: s.history)

theorem does_of_once {d init_routine : Nat} :
    Does s (.once t d init_routine) (dce_pthread_once t d init_routine s) := by
  unfold dce_pthread_once
  split
  next null =>
    exact .refuses t d (fun control routine => (null.elim control routine).elim) rfl rfl rfl
  next given =>
    obtain ⟨control, routine⟩ := not_or.mp given
    have settled : Settled s (.once t d init_routine) ↔ ∀ u, d ∉ s.routines u :=
      ⟨fun settled => settled control routine, fun nobody _ _ => nobody⟩
    split
    next already => exact .skips t d settled already rfl rfl rfl
    next fresh => exact .enters t d settled fresh rfl rfl rfl

variable {a : Label T} {rest : List Nat}

theorem does_of_step (run : step s a = some s') : Does s a s' := by
  cases a with
  | dispatch t =>
    obtain ⟨-, same⟩ := ite_none_right_eq_some.mp run
    cases some.inj same
    exact .nothing trivial rfl rfl rfl
  | leave t =>
    obtain ⟨-, same⟩ := ite_none_right_eq_some.mp run
    cases some.inj same
    exact .nothing trivial rfl rfl rfl
  | exit t =>
    obtain ⟨-, same⟩ := ite_none_right_eq_some.mp run
    cases some.inj same
    exact .nothing trivial rfl rfl rfl
  | once t d init_routine =>
    obtain ⟨-, same⟩ := ite_none_right_eq_some.mp run
    cases some.inj same
    exact does_of_once
  | finish t =>
    simp only [step] at run
    split at run
    next => cases run
    next d rest innermost =>
      obtain ⟨-, same⟩ := ite_none_right_eq_some.mp run
      cases some.inj same
      exact .finishes t d rest trivial innermost rfl rfl rfl

variable (has : Has c phase s)
include has

theorem fresh_of_word (fresh : s.once_control c ≠ 1) : phase = .fresh := by
  cases phase with
  | fresh => rfl
  | running u => exact absurd has.word fresh
  | done => exact absurd has.word fresh

theorem running_of_innermost (innermost : s.routines t = c :: rest) : phase = .running t ∧ c ∉ rest := by
  have inside := has.inside t
  rw [innermost, count_cons_self] at inside
  cases phase with
  | fresh => simp [Phase.inside] at inside
  | running u =>
    simp only [Phase.inside] at inside
    split at inside
    next same => exact ⟨same ▸ rfl, count_eq_zero.mp (by omega)⟩
    next => omega
  | done => simp [Phase.inside] at inside

theorem Has.other (word : s'.once_control c = s.once_control c)
    (entered : s'.history.countP (Event.enters c) = s.history.countP (Event.enters c))
    (completed : s'.history.countP (Event.completes c) = s.history.countP (Event.completes c))
    (inside : ∀ t, (s'.routines t).count c = (s.routines t).count c) : Has c phase s' where
  word := word.trans has.word
  entered := entered.trans has.entered
  completed := completed.trans has.completed
  inside t := (inside t).trans (has.inside t)

omit has in
theorem Has.enter (has : Has c .fresh s) (word : s'.once_control = update s.once_control c 1)
    (routines : s'.routines = update s.routines t (c :: s.routines t))
    (history : s'.history = .entered t c :: s.history) : Has c (.running t) s' where
  word := by simp [word, Phase.word]
  entered := by simp [history, Event.enters, has.entered, Phase.entered]
  completed := by simp [history, Event.completes, has.completed, Phase.completed]
  inside u := by
    by_cases same : t = u
    · subst same; simp [routines, has.inside, Phase.inside]
    · simp [routines, has.inside, Phase.inside, same, Ne.symm same]

omit has in
theorem Has.finish (has : Has c (.running t) s) (outside : c ∉ rest)
    (word : s'.once_control = s.once_control) (routines : s'.routines = update s.routines t rest)
    (history : s'.history = .returned t c .success :: .completed t c :: s.history) : Has c .done s' where
  word := by simp [word, has.word, Phase.word]
  entered := by simp [history, Event.enters, has.entered, Phase.entered]
  completed := by simp [history, Event.completes, has.completed, Phase.completed]
  inside u := by
    by_cases same : t = u
    · subst same; simpa [routines, Phase.inside] using count_eq_zero.mpr outside
    · simp [routines, has.inside, Phase.inside, same, Ne.symm same]

theorem has_of_does (does : Does s a s') : ∃ next, Has c next s' := by
  cases does with
  | nothing _ word routines history =>
    exact ⟨phase, has.other (by rw [word]) (by rw [history]) (by rw [history]) fun _ => by rw [routines]⟩
  | refuses t d _ word routines history =>
    exact ⟨phase, has.other (by rw [word]) (by simp [history, Event.enters]) (by simp [history, Event.completes])
      fun _ => by rw [routines]⟩
  | skips t d _ already word routines history =>
    exact ⟨phase, has.other (by rw [word]) (by simp [history, Event.enters]) (by simp [history, Event.completes])
      fun _ => by rw [routines]⟩
  | enters t d _ fresh word routines history =>
    by_cases same : d = c
    · subst same
      obtain rfl := fresh_of_word has fresh
      exact ⟨.running t, has.enter word routines history⟩
    · refine ⟨phase, has.other (by simp [word, Ne.symm same]) (by simp [history, Event.enters, same])
        (by simp [history, Event.completes]) fun u => ?_⟩
      by_cases here : u = t
      · subst here; simp [routines, same]
      · simp [routines, here]
  | finishes t d rest _ innermost word routines history =>
    by_cases same : d = c
    · subst same
      obtain ⟨rfl, outside⟩ := running_of_innermost has innermost
      exact ⟨.done, has.finish outside word routines history⟩
    · refine ⟨phase, has.other (by rw [word]) (by simp [history, Event.enters])
        (by simp [history, Event.completes, same]) fun u => ?_⟩
      by_cases here : u = t
      · subst here; simp [routines, innermost, same]
      · simp [routines, here]

end

variable {s : Process T}

variable {c : Nat} {phase : Phase T} {a : Label T} {s' : Process T}

/-- In every run each control variable is in one of the phases. -/
theorem has_of_reach {C : Process T → Label T → Prop} (reach : machine.ReachBy C s) : ∃ phase, Has c phase s := by
  refine reach.invariant (I := fun s => ∃ phase, Has c phase s) (fun s first => ?_) fun s a s' has _ run => ?_
  · obtain ⟨words, routines, history⟩ := first
    exact ⟨.fresh, words c, by simp [history, Phase.entered], by simp [history, Phase.completed],
      fun t => by simp [routines t, Phase.inside]⟩
  · obtain ⟨phase, has⟩ := has
    exact has_of_does has (does_of_step run)

theorem entered_le_one (reach : machine.Reach s) : s.history.countP (Event.enters c) ≤ 1 := by
  obtain ⟨phase, has⟩ := has_of_reach (c := c) reach
  rw [has.entered]
  cases phase <;> simp [Phase.entered]

section

variable {c : Nat} {h : List (Event T)} {e : Event T} {t : T}

omit [DecidableEq T]

theorem RunsOnce.before (runs : RunsOnce c (e :: h)) : RunsOnce c h where
  entered := (sublist_cons_self ..).countP_le.trans runs.entered
  returned later before t split := runs.returned (e :: later) before t (split ▸ rfl)

theorem RunsOnce.silent (runs : RunsOnce c h) (entered : (e :: h).countP (Event.enters c) ≤ 1)
    (silent : ∀ t, e ≠ .returned t c .success) : RunsOnce c (e :: h) where
  entered := entered
  returned later before t split := by
    cases later with
    | nil => exact absurd (cons.inj split).1 (silent t)
    | cons first later => exact runs.returned later before t (cons.inj split).2

theorem RunsOnce.success (runs : RunsOnce c h) (entered : h.countP (Event.enters c) = 1)
    (completed : h.countP (Event.completes c) = 1) : RunsOnce c (.returned t c .success :: h) where
  entered := by simp [Event.enters, entered]
  returned later before u split := by
    cases later with
    | nil => exact (cons.inj split).2 ▸ ⟨entered, completed⟩
    | cons first later => exact runs.returned later before u (cons.inj split).2

end

theorem done_of_word (has : Has c phase s) (already : s.once_control c = 1) (nobody : ∀ t, c ∉ s.routines t) :
    phase = .done := by
  cases phase with
  | fresh => exact absurd (has.word.symm.trans already) (by simp [Phase.word])
  | running u =>
    have inside := has.inside u
    simp only [Phase.inside, if_true] at inside
    exact absurd (count_pos_iff.mp (by omega)) (nobody u)
  | done => rfl

/-- Who skips the routine while somebody is in it comes before its end. -/
theorem not_runsOnce_of_early {t u : T} (has : Has c phase s) (inside : c ∈ s.routines u) :
    ¬ RunsOnce c (.returned t c .success :: s.history) := by
  intro runs
  have calls := has.inside u
  have some_call := count_pos_iff.mpr inside
  have completed := has.completed
  rw [(runs.returned [] s.history t rfl).2] at completed
  cases phase with
  | fresh => simp [Phase.inside] at calls; omega
  | running v => cases completed
  | done => simp [Phase.inside] at calls; omega

theorem runsOnce_of_does (reach : machine.Reach s)
    (runs : RunsOnce c s.history) (settled : Settled s a) (run : machine.step s a = some s') :
    RunsOnce c s'.history := by
  obtain ⟨phase, has⟩ := has_of_reach (c := c) reach
  have once := entered_le_one (c := c) (reach.next trivial run)
  cases does_of_step run with
  | nothing _ word routines history => exact history ▸ runs
  | refuses t d _ word routines history =>
    rw [history] at once ⊢
    exact runs.silent once fun _ => by simp
  | skips t d exact_when already word routines history =>
    rw [history] at once ⊢
    by_cases same : d = c
    · subst same
      obtain rfl := done_of_word has already (exact_when.mp settled)
      exact runs.success has.entered has.completed
    · exact runs.silent once fun _ => by simp [same]
  | enters t d _ fresh word routines history =>
    rw [history] at once ⊢
    exact runs.silent once fun _ => by simp
  | finishes t d rest _ innermost word routines history =>
    rw [history] at once ⊢
    have completes : RunsOnce c (.completed t d :: s.history) :=
      runs.silent ((sublist_cons_self ..).countP_le.trans once) fun _ => by simp
    by_cases same : d = c
    · subst same
      obtain ⟨rfl, outside⟩ := running_of_innermost has innermost
      exact completes.success (by simp [Event.enters, has.entered, Phase.entered])
        (by simp [Event.completes, has.completed, Phase.completed])
    · exact completes.silent once fun _ => by simp [same]

theorem runsOnce_before (does : Does s a s') (runs : RunsOnce c s'.history) : RunsOnce c s.history := by
  cases does with
  | nothing _ _ _ history => exact history ▸ runs
  | refuses t d _ _ _ history => exact (history ▸ runs).before
  | skips t d _ _ _ _ history => exact (history ▸ runs).before
  | enters t d _ _ _ _ history => exact (history ▸ runs).before
  | finishes t d rest _ _ _ _ history => exact (history ▸ runs).before.before

theorem settled_of_does (reach : machine.Reach s) (does : Does s a s') (runs : ∀ c, RunsOnce c s'.history) :
    Settled s a := by
  cases does with
  | nothing settled _ _ _ => exact settled
  | refuses t d settled _ _ _ => exact settled
  | skips t d exact_when _ _ _ history =>
    obtain ⟨phase, has⟩ := has_of_reach (c := d) reach
    exact exact_when.mpr fun u inside => not_runsOnce_of_early has inside (history ▸ runs d)
  | enters t d exact_when fresh _ _ _ =>
    obtain ⟨phase, has⟩ := has_of_reach (c := d) reach
    obtain rfl := fresh_of_word has fresh
    exact exact_when.mpr fun u => count_eq_zero.mp (has.inside u)
  | finishes t d rest settled _ _ _ _ => exact settled

theorem runsOnce_step_iff (reach : machine.Reach s) (run : machine.step s a = some s') :
    (∀ c, RunsOnce c s'.history) ↔ (∀ c, RunsOnce c s.history) ∧ Settled s a := by
  have does := does_of_step run
  constructor
  · exact fun runs => ⟨fun c => runsOnce_before does (runs c), settled_of_does reach does runs⟩
  · rintro ⟨runs, settled⟩ c
    exact runsOnce_of_does reach (runs c) settled run

/-- Beside a run it is written down whether each call so far was made on a control word that no thread was in
the routine of. Exactly then every control variable of the process has run once so far. -/
theorem runsOnce_iff_settled {p : Process T × Prop}
    (reach : (machine.ledgered True fun s a settled => settled ∧ Settled s a).Reach p) :
    (∀ c, RunsOnce c p.1.history) ↔ p.2 := by
  have exact_so_far : machine.Reach p.1 ∧ ((∀ c, RunsOnce c p.1.history) ↔ p.2) := by
    refine reach.invariant (I := fun p => machine.Reach p.1 ∧ ((∀ c, RunsOnce c p.1.history) ↔ p.2))
      (fun p first => ?_) fun p a q before _ run => ?_
    · obtain ⟨start, same⟩ := first
      refine ⟨.start start, iff_of_true (fun c => ?_) (same ▸ trivial)⟩
      rw [start.2.2]
      exact ⟨Nat.zero_le 1, fun later before t split => by simp at split⟩
    · obtain ⟨step, noted⟩ := machine.ledgered_step run
      refine ⟨.next before.1 trivial step, ?_⟩
      rw [noted, ← before.2]
      exact runsOnce_step_iff before.1 step
  exact exact_so_far.2

/-- Two threads, and no call so far. -/
def idle : Process Bool where
  current := none
  exited _ := false
  once_control _ := PTHREAD_ONCE_INIT
  routines _ := []
  history := []

theorem idle_start : machine.init idle := ⟨fun _ => rfl, fun _ => rfl, rfl⟩

/-- The second thread calls when the first one has come back. -/
theorem runsOnce_calls_apart :
    RunsOnce 5 [.returned true 5 .success, .returned false 5 .success, .completed false 5, .entered false 5] := by
  let M := machine (T := Bool).ledgered True fun s a settled => settled ∧ Settled s a
  have run : M.replay (idle, True) [.dispatch false, .once false 5 1, .finish false, .leave false, .dispatch true,
    .once true 5 1] = some _ := rfl
  have reach :=
    (Machine.ReachBy.start (M := M) (C := fun _ _ => True) ⟨idle_start, rfl⟩).replay (fun _ _ => trivial) run
  refine (runsOnce_iff_settled reach).mpr ?_ 5
  refine ⟨⟨⟨⟨⟨⟨trivial, trivial⟩, fun _ _ t => ?_⟩, trivial⟩, trivial⟩, trivial⟩, fun _ _ t =>
    ?_⟩ <;> cases t <;> decide

/-- Whatever the calls, the routine is entered at most once, by one thread, and this is when the word is set. -/
theorem routine_entered {s : Process T} (reach : machine.Reach s) (c : Nat) :
    s.history.countP (Event.enters c) = s.once_control c ∧
    s.once_control c ≤ 1 ∧ s.history.countP (Event.completes c) ≤ s.once_control c ∧
      ∀ t u, c ∈ s.routines t → c ∈ s.routines u → t = u ∧ s.history.countP (Event.completes c) = 0 := by
  obtain ⟨phase, has⟩ := has_of_reach (c := c) reach
  have inside : ∀ t, c ∈ s.routines t → phase = .running t := fun t there => by
    have one := count_pos_iff.mpr there
    rw [has.inside] at one
    cases phase with
    | running u => exact congrArg _ (by_contra fun other => absurd one (by simp [Phase.inside, other]))
    | _ => exact absurd one (Nat.lt_irrefl 0)
  rw [has.entered, has.completed, has.word]
  refine ⟨by cases phase <;> rfl, by cases phase <;> simp [Phase.word],
    by cases phase <;> simp [Phase.word, Phase.completed], fun t u first second => ?_⟩
  have both := (inside t first).symm.trans (inside u second)
  rw [inside t first]
  exact ⟨Phase.running.inj both, rfl⟩

/-- The first thread is in the routine, and the second one has called and come back. -/
theorem routine_entered_calls : ∃ s : Process Bool, s.once_control 5 = 1 ∧ 5 ∈ s.routines false ∧
    s.history.countP (Event.enters 5) = s.once_control 5 ∧ s.once_control 5 ≤ 1 ∧
    s.history.countP (Event.completes 5) ≤ s.once_control 5 ∧
    ∀ t u, 5 ∈ s.routines t → 5 ∈ s.routines u → t = u ∧ s.history.countP (Event.completes 5) = 0 := by
  obtain ⟨s, run, word, inside⟩ : ∃ s, machine.replay idle
      [.dispatch false, .once false 5 1, .leave false, .dispatch true, .once true 5 1] = some s ∧
    s.once_control 5 = 1 ∧ 5 ∈ s.routines false := ⟨_, rfl, rfl, .head _⟩
  exact ⟨s, word, inside, routine_entered ((Machine.ReachBy.start idle_start).replay (fun _ _ => trivial) run) 5⟩

/-- The second thread calls while the first one is in the routine, and comes back before it. -/
theorem not_runsOnce : ¬ ∀ s : Process Bool, machine.Reach s → ∀ c, RunsOnce c s.history := by
  intro runs
  have run : machine.replay idle [.dispatch false, .once false 5 1, .leave false, .dispatch true,
    .once true 5 1] = some _ := rfl
  have once := runs _ ((Machine.ReachBy.start idle_start).replay (fun _ _ => trivial) run) 5
  exact absurd (once.returned [] [.entered false 5] true rfl).2 (by decide)

end Dce.Pthread.Once
