import Dce.Delivery.Model

/- Whether the handlers of a process are called once for each signal that becomes pending. -/

namespace Dce.Delivery

open Process

open Signals (IsSignal)

variable {T : Type*} [DecidableEq T] {s v : Process T} {t : T} {a : Label T} {k : Slot T} {frame : Frame}
    {frames : List Frame}

/-- A handler was called for the signal of the set, and has not returned. -/
def Process.Handles (s : Process T) (k : Slot T) : Prop := ∃ t, ∃ frame ∈ (s.threads t).frames, frame.slot t = k

/-- The signals that were sent since a handler was last called for them, how often a signal became one of these, and
how often a handler was called for it. -/
structure Ledger (T : Type*) where
  outstanding : Finset (Slot T)
  transitions : Slot T → Nat
  invocations : Slot T → Nat

def Ledger.send (k : Slot T) (n : Ledger T) : Ledger T :=
  if k ∈ n.outstanding then n
  else { n with
    outstanding := insert k n.outstanding, transitions := Function.update n.transitions k (n.transitions k + 1) }

def Ledger.call (k : Slot T) (n : Ledger T) : Ledger T :=
  { n with
    outstanding := n.outstanding.erase k
    invocations := Function.update n.invocations k (n.invocations k + 1) }

/-- The signal that a step sends. -/
def sent : Label T → Option (Slot T)
  | .sendSignal signum => if IsSignal signum then some ⟨none, signum⟩ else none
  | .pthread_kill t sig => if IsSignal sig then some ⟨some t, sig⟩ else none
  | _ => none

def note (s : Process T) (a : Label T) (n : Ledger T) : Ledger T :=
  match sent a, called s a with
  | some k, _ => n.send k
  | none, some (t, frame) => n.call (frame.slot t)
  | none, none => n

def accounted (T : Type*) [DecidableEq T] : Machine (Process T × Ledger T) (Label T) :=
  (machine T).ledgered ⟨∅, fun _ => 0, fun _ => 0⟩ note

/-- The calls are as many as the signals that became pending, but for those that wait; none of these is lost; and
nothing else is pending than these and the signals whose handler runs. -/
structure ExactlyOnce (p : Process T × Ledger T) : Prop where
  defined : p.1.undefined = false
  counted : ∀ k, p.2.invocations k + (if k ∈ p.2.outstanding then 1 else 0) = p.2.transitions k
  kept : ∀ k ∈ p.2.outstanding, p.1.Has k
  settled : ∀ k, p.1.Has k → k ∈ p.2.outstanding ∨ p.1.Handles k

/-- The state after a step is sound. -/
def Good (p : Process T × Ledger T) (a : Label T) : Prop := ∀ q, (accounted T).step p a = some q → ExactlyOnce q

/-- What goes well: a handler returns while the table is where it was and its signal has not been sent again; and
what is called is a function, and for a signal that was sent since a handler was last called for it. -/
structure Careful (p : Process T × Ledger T) (a : Label T) : Prop where
  returns : ∀ c ∈ returning p.1 a, c.2.valid = true ∧ c.2.slot c.1 ∉ p.2.outstanding
  calls : ∀ c ∈ called p.1 a, c.2.entry.handler = .function ∧ c.2.slot c.1 ∈ p.2.outstanding

instance (p : Process T × Ledger T) (a : Label T) : Decidable (Careful p a) :=
  decidable_of_iff ((∀ c ∈ returning p.1 a, c.2.valid = true ∧ c.2.slot c.1 ∉ p.2.outstanding) ∧
    ∀ c ∈ called p.1 a, c.2.entry.handler = .function ∧ c.2.slot c.1 ∈ p.2.outstanding)
    ⟨fun careful => ⟨careful.1, careful.2⟩, fun careful => ⟨careful.returns, careful.calls⟩⟩

theorem goOn_handles {call : Option Frame} (handles : s.Handles k) : (s.goOn t call).Handles k := by
  obtain ⟨u, frame, mem, slot⟩ := handles
  unfold goOn
  split
  · exact ⟨u, frame, mem, slot⟩
  · split
    · refine ⟨u, frame, ?_, slot⟩
      by_cases same : u = t
      · subst same
        simpa [setThread] using .inr mem
      · simpa [setThread, same] using mem
    · exact ⟨u, frame, mem, slot⟩

theorem goOn_function (function : frame.entry.handler = .function) :
    (s.goOn t (some frame)).undefined = s.undefined ∧ (s.goOn t (some frame)).Handles (frame.slot t) := by
  rw [goOn, if_pos function]
  exact ⟨rfl, t, frame, by simp [setThread], rfl⟩

theorem goOn_undefined (wrong : frame.entry.handler ≠ .function) : (s.goOn t (some frame)).undefined = true := by
  rw [goOn, if_neg wrong]

/-- The ledger after what `UtilsDoSignal` calls next. -/
def Ledger.goOn (t : T) (call : Option Frame) (n : Ledger T) : Ledger T :=
  call.elim n fun frame => n.call (frame.slot t)

variable {n : Ledger T}

theorem goOn_iff {call : Option Frame} (once : ExactlyOnce (s, n))
    (pending : ∀ frame, call = some frame → s.Has (frame.slot t)) :
    ExactlyOnce (s.goOn t call, n.goOn t call) ↔
      ∀ frame, call = some frame → frame.entry.handler = .function ∧ frame.slot t ∈ n.outstanding := by
  cases call with
  | none => exact iff_of_true once nofun
  | some frame =>
    constructor
    · rintro after _ ⟨⟩
      refine ⟨of_not_not fun wrong => ?_, of_not_not fun absent => ?_⟩
      · exact absurd ((goOn_undefined wrong).symm.trans after.defined) nofun
      · have before := once.counted (frame.slot t)
        have now := after.counted (frame.slot t)
        simp only [Ledger.goOn, Option.elim, Ledger.call, Function.update_self, Finset.notMem_erase, if_false,
          if_neg absent] at before now
        omega
    · intro careful
      obtain ⟨function, here⟩ := careful frame rfl
      obtain ⟨defined, handles⟩ := goOn_function (s := s) (t := t) function
      refine ⟨defined.trans once.defined, fun k => ?_, fun k mem => ?_, fun k has => ?_⟩
      · have before := once.counted k
        by_cases same : k = frame.slot t
        · subst same
          simp only [Ledger.goOn, Option.elim, Ledger.call, Function.update_self, Finset.notMem_erase]
          rw [if_pos here] at before
          exact before
        · simpa only [Ledger.goOn, Option.elim, Ledger.call, Function.update_of_ne same,
            Finset.mem_erase, same, ne_eq,
            not_false_eq_true, true_and] using before
      · exact (goOn_has _).mpr (once.kept k (Finset.mem_of_mem_erase mem))
      · by_cases same : k = frame.slot t
        · exact .inr (same ▸ handles)
        · rcases once.settled k ((goOn_has _).mp has) with mem | running
          · exact .inl (Finset.mem_erase.mpr ⟨same, mem⟩)
          · exact .inr (goOn_handles running)

/-- A signal that was erased although it was sent again stays lost. -/
theorem not_once_goOn {call : Option Frame} (pending : ∀ frame, call = some frame → s.Has (frame.slot t))
    (mem : k ∈ n.outstanding) (lost : ¬ s.Has k) : ¬ ExactlyOnce (s.goOn t call, n.goOn t call) := by
  intro once
  have still : k ∈ (n.goOn t call).outstanding := by
    cases call with
    | none => exact mem
    | some frame =>
      refine Finset.mem_erase.mpr ⟨fun same => lost ?_, mem⟩
      rw [same]
      exact pending frame rfl
  exact lost ((goOn_has _).mp (once.kept k still))

theorem sigdelset_handles (inside : (s.threads t).frames = frame :: frames) (other : k ≠ frame.slot t)
    (handles : s.Handles k) :
    (s.sigdelset t frame frames).Handles k := by
  obtain ⟨u, g, mem, slot⟩ := handles
  refine ⟨u, g, ?_, slot⟩
  rw [sigdelset_frames]
  by_cases same : u = t
  · subst same
    rw [inside] at mem
    rw [if_pos rfl]
    refine (List.mem_cons.mp mem).resolve_left fun this => other ?_
    rw [← slot, this]
  · rwa [if_neg same]

theorem ExactlyOnce.sigdelset (once : ExactlyOnce (s, n)) (legal : Legal s)
    (inside : (s.threads t).frames = frame :: frames)
    (served : frame.slot t ∉ n.outstanding) : ExactlyOnce (s.sigdelset t frame frames, n) := by
  refine ⟨sigdelset_undefined.trans once.defined, once.counted, fun k mem => ?_, fun k has => ?_⟩
  · exact (legal.sigdelset_has inside).mpr ⟨fun same => served (same ▸ mem), once.kept k mem⟩
  · obtain ⟨other, has⟩ := (legal.sigdelset_has inside).mp has
    exact (once.settled k has).imp_right (sigdelset_handles inside other)

theorem ExactlyOnce.congr (once : ExactlyOnce (s, n)) (defined : v.undefined = s.undefined)
    (has : ∀ k, v.Has k ↔ s.Has k)
    (handles : ∀ k, s.Handles k → v.Handles k) : ExactlyOnce (v, n) :=
  ⟨defined.trans once.defined, once.counted, fun k mem => (has k).mpr (once.kept k mem),
    fun k there => (once.settled k ((has k).mp there)).imp_right (handles k)⟩

theorem ExactlyOnce.send (once : ExactlyOnce (s, n)) (defined : v.undefined = s.undefined)
    (has : ∀ j, v.Has j ↔ j = k ∨ s.Has j) (handles : ∀ j, s.Handles j → v.Handles j) :
    ExactlyOnce (v, n.send k) := by
  have members : ∀ j, j ∈ (n.send k).outstanding ↔ j = k ∨ j ∈ n.outstanding := fun j => by
    unfold Ledger.send
    split
    next here => exact ⟨.inr, fun or => or.elim (fun same => same ▸ here) id⟩
    next => exact Finset.mem_insert
  refine ⟨defined.trans once.defined, fun j => ?_, fun j mem => ?_, fun j there => ?_⟩
  · have before := once.counted j
    unfold Ledger.send
    split
    · exact before
    next absent =>
      by_cases same : j = k
      · subst same
        simpa [absent] using before
      · simpa [same] using before
  · exact (has j).mpr (((members j).mp mem).imp_right (once.kept j))
  · rcases (has j).mp there with same | there
    · exact .inl ((members j).mpr (.inl same))
    · exact (once.settled j there).imp (fun mem => (members j).mpr (.inr mem)) (handles j)

theorem handles_setThread {thread : Thread} (frames : thread.frames = (s.threads t).frames) (handles : s.Handles k) :
    (s.setThread t thread).Handles k := by
  obtain ⟨u, frame, mem, slot⟩ := handles
  refine ⟨u, frame, ?_, slot⟩
  by_cases same : u = t
  · subst same
    simpa [setThread, frames] using mem
  · simpa [setThread, same] using mem

omit [DecidableEq T] in
theorem sigaction_handles {signum : Nat} {act : Sigaction} {moves : Bool} (handles : s.Handles k) :
    (s.sigaction signum act moves).Handles k := by
  obtain ⟨u, frame, mem, slot⟩ := handles
  cases moves with
  | false => exact ⟨u, frame, mem, slot⟩
  | true => exact ⟨u, { frame with valid := false }, List.mem_map.mpr ⟨frame, mem, rfl⟩, slot⟩

theorem ExactlyOnce.sent {signum : Nat} (once : ExactlyOnce (s, n)) (which : Option T)
    (defined : v.undefined = s.undefined)
    (has : ∀ j, v.Has j ↔ (j = ⟨which, signum⟩ ∧ IsSignal signum) ∨ s.Has j)
    (handles : ∀ j, s.Handles j → v.Handles j) :
    ExactlyOnce (v, (if IsSignal signum then some (Slot.mk which signum) else none).elim n (n.send ·)) := by
  split
  next signal => exact once.send defined (fun j => (has j).trans (or_congr_left (and_iff_left signal))) handles
  next none' => exact once.congr defined (fun j => (has j).trans (or_iff_right fun same => none' same.2)) handles

theorem note_sent (silent : called s a = none) : note s a n = (sent a).elim n (n.send ·) := by
  unfold note
  rw [silent]
  cases sent a <;> rfl

theorem note_called {call : Option Frame} (silent : sent a = none) (calls : called s a = call.map (t, ·)) :
    note s a n = n.goOn t call := by
  unfold note
  rw [silent, calls]
  cases call <;> rfl

/-- One step: of a sound state it is the careful steps that lead to a sound one. -/
theorem once_step_iff (once : ExactlyOnce (s, n)) (legal : Legal s) (run : step s a = some v) :
    ExactlyOnce (v, note s a n) ↔ Careful (s, n) a := by
  have defined : s.undefined = false := once.defined
  have open_ := run
  simp only [step, defined] at open_
  cases a with
  | sigaction signum act moves =>
    cases open_
    exact iff_of_true (once.congr rfl (fun k => by unfold Has; rw [sigaction_set]) fun k =>
      sigaction_handles) ⟨nofun, nofun⟩
  | sigprocmask t how set =>
    cases open_
    have sets : (s.dce_sigprocmask t how set).set = s.set := setThread_set_same rfl
    exact iff_of_true (once.congr rfl (fun k => by unfold Has; rw [sets]) fun k =>
      handles_setThread rfl) ⟨nofun, nofun⟩
  | sendSignal signum =>
    cases open_
    rw [note_sent rfl]
    exact iff_of_true (once.sent none rfl (fun j => UtilsSendSignal_has) fun j handles => handles) ⟨nofun, nofun⟩
  | pthread_kill t sig =>
    cases open_
    rw [note_sent rfl]
    exact iff_of_true (once.sent (some t) rfl (fun j => pthread_kill_has) fun j =>
      handles_setThread rfl) ⟨nofun, nofun⟩
  | doSignal t =>
    cases open_
    have noted : note s (.doSignal t) n = n.goOn t (s.callFrom 0 t) := note_called rfl rfl
    rw [noted, UtilsDoSignal, goOn_iff once fun frame => callFrom_has]
    constructor
    · refine fun careful => ⟨nofun, fun c calls => ?_⟩
      obtain ⟨frame, call, rfl⟩ := Option.map_eq_some_iff.mp calls
      exact careful frame call
    · exact fun careful frame call => careful.calls (t, frame) (Option.map_eq_some_iff.mpr ⟨frame, call, rfl⟩)
  | returns t =>
    obtain ⟨frame, frames, inside, rfl⟩ := step_returns run
    have back : returning s (.returns t) = some (t, frame) := by rw [returning, inside]; rfl
    cases valid : frame.valid with
    | false =>
      refine iff_of_false (fun after => ?_) fun careful => ?_
      · have wrong := after.defined
        simp [handlerReturns, valid] at wrong
      · exact absurd ((careful.returns (t, frame) back).1.symm.trans valid) nofun
    | true =>
      have calls : called s (.returns t) = ((s.sigdelset t frame frames).callAfter frame t).map (t, ·) := by
        simp [called, inside, valid]
      rw [note_called rfl calls, handlerReturns, if_pos valid]
      by_cases served : frame.slot t ∈ n.outstanding
      · refine iff_of_false (not_once_goOn (fun next => callAfter_has) served fun has => ?_) fun careful => ?_
        · exact ((legal.sigdelset_has inside).mp has).1 rfl
        · exact (careful.returns (t, frame) back).2 served
      · rw [goOn_iff (once.sigdelset legal inside served) fun next => callAfter_has]
        constructor
        · refine fun careful => ⟨fun c same => ?_, fun c same => ?_⟩
          · cases back.symm.trans same
            exact ⟨valid, served⟩
          · obtain ⟨next, call, rfl⟩ := Option.map_eq_some_iff.mp (calls.symm.trans same)
            exact careful next call
        · exact fun careful next call =>
            careful.calls (t, next) (calls.trans (Option.map_eq_some_iff.mpr ⟨next, call, rfl⟩))

theorem once_start (first : (machine T).init s) : ExactlyOnce (s, ⟨∅, fun _ => 0, fun _ => 0⟩) := by
  obtain ⟨-, pending, threads, defined⟩ := first
  refine ⟨defined, fun k => rfl, nofun, fun k has => ?_⟩
  have nothing : s.set k.thread = ∅ := by
    cases k.thread with
    | none => exact pending
    | some u => exact congrArg Thread.pendingSignals (threads u)
  rw [Has, nothing] at has
  exact absurd has (Finset.notMem_empty _)

/-- A run keeps the calls of the handlers exact if and only if all its steps are careful. -/
theorem once_iff_careful {p : Process T × Ledger T} {k : Machine.Verdict}
    (reach : ((accounted T).judged Careful Good).Reach (p, k)) : k.good ↔ k.careful := by
  refine Machine.judged_iff (fun p => ExactlyOnce p ∧ Legal p.1) (fun p first => ?_)
    (fun p a q sound run => ?_) reach
  · obtain ⟨s, n⟩ := p
    obtain ⟨first, rfl⟩ := first
    exact ⟨once_start first, legal_init first⟩
  · obtain ⟨once, legal⟩ := sound
    obtain ⟨step, noted⟩ := Machine.ledgered_step run
    have exactly : ExactlyOnce q ↔ Careful p a := by
      rw [← once_step_iff once legal step, ← noted]
    refine ⟨⟨fun good => exactly.mp (good q run), fun careful r again => ?_⟩,
      fun careful => ⟨exactly.mpr careful, legal.step step⟩⟩
    cases run.symm.trans again
    exact exactly.mpr careful

def SIGUSR1 : Nat := 10

/-- A process with one thread, and nothing noted. -/
def start : Process Unit × Ledger Unit :=
  (⟨SetDefaultSigHandler, ∅, fun _ => ⟨∅, ∅, []⟩, false⟩, ⟨∅, fun _ => 0, fun _ => 0⟩)

theorem start_init : (accounted Unit).init start := ⟨⟨rfl, rfl, fun _ => rfl, rfl⟩, rfl⟩

/-- The thread is sent a signal for which it has a handler, and is in this. -/
def handling : List (Label Unit) :=
  [.sigaction SIGUSR1 ⟨0, ∅, .function⟩ false, .pthread_kill () SIGUSR1, .doSignal ()]

/-- A handler is called and returns. -/
theorem once_handled : ∃ p : (Process Unit × Ledger Unit) × Machine.Verdict,
    ((accounted Unit).judged Careful Good).replay (start, ⟨True, True⟩) (handling ++ [.returns ()]) = some p ∧
    p.2.good := by
  let M := (accounted Unit).judged Careful Good
  have run : M.replay (start, ⟨True, True⟩) (handling ++ [.returns ()]) = some _ := rfl
  have first : M.Reach (start, ⟨True, True⟩) := .start ⟨start_init, rfl⟩
  refine ⟨_, run, (once_iff_careful (first.replay (fun _ _ => trivial) run)).mpr ⟨⟨⟨⟨trivial, ?_⟩, ?_⟩, ?_⟩, ?_⟩⟩
  all_goals decide

/-- The state after the handler is sent its own signal and returns. -/
def lost : Process Unit × Ledger Unit :=
  ((accounted Unit).replay start (handling ++ [.pthread_kill () SIGUSR1, .returns ()])).getD start

/-- The state after the thread has lost control in the handler and got it back. -/
def twice : Process Unit × Ledger Unit := ((accounted Unit).replay start (handling ++ [.doSignal ()])).getD start

/-- A signal that is sent during its handler is lost, and a handler that blocks is called again for the same
signal. -/
theorem not_once : ((accounted Unit).Reach lost ∧ ⟨some (), SIGUSR1⟩ ∈ lost.2.outstanding ∧
      ¬ lost.1.Has ⟨some (), SIGUSR1⟩) ∧
    (accounted Unit).Reach twice ∧ twice.2.invocations ⟨some (), SIGUSR1⟩ = 2 ∧
    twice.2.transitions ⟨some (), SIGUSR1⟩ = 1 := by
  have first : (accounted Unit).replay start (handling ++ [.pthread_kill () SIGUSR1, .returns ()]) = some lost := rfl
  have second : (accounted Unit).replay start (handling ++ [.doSignal ()]) = some twice := rfl
  exact ⟨⟨(Machine.ReachBy.start start_init).replay (fun _ _ => trivial) first, by decide, by decide⟩,
    (Machine.ReachBy.start start_init).replay (fun _ _ => trivial) second, by decide, by decide⟩

end Dce.Delivery
