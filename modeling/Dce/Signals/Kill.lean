import Dce.Signals.Model

/- What `dce_kill` does to the process it is called for. -/

namespace Dce.Signals

open Function

variable {s : Manager} {process after : Process} {thread : Thread} {threads threads' l r : List Thread}
    {sig pid : Nat}

/-- A blocked thread to which the signal would be delivered. -/
def CanTake (sig : Nat) (thread : Thread) : Prop :=
  thread.task = some .BLOCKED ∧ delivers thread.signalMask sig = true

instance (sig : Nat) (thread : Thread) : Decidable (CanTake sig thread) :=
  inferInstanceAs (Decidable (_ ∧ _))

/-- Exactly one thread is woken, and it can take the signal. -/
def WakesTaker (sig : Nat) (threads threads' : List Thread) : Prop :=
  ∃ l thread r, threads = l ++ thread :: r ∧ CanTake sig thread ∧ threads' = l ++
  { thread with task := some .ACTIVE } :: r

/-- A thread that can take the signal is woken, if there is one. Signal 0 wakes nobody. -/
def Wakes (sig : Nat) (threads threads' : List Thread) : Prop :=
  if sig ≠ 0 ∧ ∃ thread ∈ threads, CanTake sig thread then WakesTaker sig threads threads' else threads' = threads

/-- The signal is pending besides those that were, and a thread that can take it is woken. Signal 0 does nothing. -/
structure Delivered (sig : Nat) (process after : Process) : Prop where
  pending : after.pendingSignals = if sig = 0 then process.pendingSignals else insert sig process.pendingSignals
  woken : Wakes sig process.threads after.threads

/-- What a call for the process `pid` has to come to. -/
def KillsRight (pid sig : Nat) (process : Process) (s : Manager) : Prop :=
  ∃ t after, dce_kill pid sig s = some (t, 0) ∧ t.m_processes = update s.m_processes pid (some after) ∧
    Delivered sig process after

/-- A thread at which the search for one to wake ends. -/
def isCandidate (signum : Nat) (thread : Thread) : Bool :=
  sigismember thread.signalMask signum = 0 && (thread.task = none || thread.task = some .BLOCKED)

/-- The thread at which the search ends with `SIGKILL`, whatever the signal, is one that the signal needs. -/
def RightThread (sig : Nat) (threads : List Thread) : Prop :=
  match threads.find? (isCandidate SIGKILL) with
  | some thread => sig ≠ 0 ∧ CanTake sig thread
  | none => sig = 0 ∨ ∀ thread ∈ threads, ¬ CanTake sig thread

theorem isCandidate_iff : isCandidate sig thread = true ↔
    sigismember thread.signalMask sig = 0 ∧ (thread.task = none ∨ thread.task = some .BLOCKED) := by
  simp [isCandidate]

theorem wakeCandidate_skips (other : isCandidate sig thread = false) :
    wakeCandidate sig (thread :: threads) = (wakeCandidate sig threads).map (thread :: ·) := by
  have passed := mt isCandidate_iff.mpr (Bool.eq_false_iff.mp other)
  rw [wakeCandidate]
  split
  next => rfl
  next unmasked =>
    have unmasked := not_not.mp unmasked
    split
    next gone => exact absurd ⟨unmasked, .inl gone⟩ passed
    next asleep => exact absurd ⟨unmasked, .inr asleep⟩ passed
    next => rfl

theorem wakeCandidate_none (nobody : threads.find? (isCandidate sig) = none) :
    wakeCandidate sig threads = some threads := by
  induction threads with
  | nil => rfl
  | cons thread rest ih =>
    rw [List.find?_cons] at nobody
    split at nobody
    · cases nobody
    next other => rw [wakeCandidate_skips other, ih nobody, Option.map_some]

theorem wakeCandidate_at (found : threads.find? (isCandidate sig) = some thread) :
    ∃ l r, threads = l ++ thread :: r ∧ wakeCandidate sig threads = (wakeCandidate sig (thread :: r)).map
    (l ++ ·) := by
  induction threads with
  | nil => cases found
  | cons first rest ih =>
    rw [List.find?_cons] at found
    split at found
    next =>
      cases found
      exact ⟨[], rest, rfl, Option.map_id'.symm⟩
    next other =>
      obtain ⟨l, r, rfl, after⟩ := ih found
      refine ⟨first :: l, r, rfl, ?_⟩
      rw [wakeCandidate_skips other, after, Option.map_map]
      rfl

theorem wakeCandidate_some (found : threads.find? (isCandidate sig) = some thread)
    (asleep : thread.task = some .BLOCKED) :
    ∃ l r, threads = l ++ thread :: r ∧
      wakeCandidate sig threads = some (l ++ { thread with task := some .ACTIVE } :: r) := by
  obtain ⟨l, r, same, after⟩ := wakeCandidate_at found
  refine ⟨l, r, same, after.trans ?_⟩
  rw [wakeCandidate, if_neg (not_not.mpr (isCandidate_iff.mp (List.find?_some found)).1), asleep]
  rfl

/-- The search reads the task of a thread that has none. -/
theorem wakeCandidate_crash (found : threads.find? (isCandidate sig) = some thread) (gone : thread.task = none) :
    wakeCandidate sig threads = none := by
  obtain ⟨l, r, -, after⟩ := wakeCandidate_at found
  rw [after, wakeCandidate, if_neg (not_not.mpr (isCandidate_iff.mp (List.find?_some found)).1), gone]
  rfl

theorem woken_unique {l' r' : List Thread} {other : Thread} (asleep : thread.task = some .BLOCKED)
    (asleep' : other.task = some .BLOCKED) (same : l ++ thread :: r = l' ++ other :: r')
    (outcome : l ++ { thread with task := some .ACTIVE } :: r = l' ++ { other with task := some .ACTIVE } :: r') :
    thread = other := by
  induction l generalizing l' with
  | nil =>
    cases l' with
    | nil => exact (List.cons.inj same).1
    | cons first l' =>
      obtain ⟨head, -⟩ := List.cons.inj same
      obtain ⟨head', -⟩ := List.cons.inj outcome
      rw [← head, Thread.mk.injEq] at head'
      rw [asleep] at head'
      cases head'.2.2.1
  | cons first l ih =>
    cases l' with
    | nil =>
      obtain ⟨head, -⟩ := List.cons.inj same
      obtain ⟨head', -⟩ := List.cons.inj outcome
      rw [head, Thread.mk.injEq] at head'
      rw [asleep'] at head'
      cases head'.2.2.1
    | cons first' l' => exact ih (List.cons.inj same).2 (List.cons.inj outcome).2

theorem changed_of_asleep (asleep : thread.task = some .BLOCKED) :
    l ++ thread :: r ≠ l ++ { thread with task := some .ACTIVE } :: r := by
  intro same
  have head := (List.cons.inj (List.append_cancel_left same)).1
  rw [head] at asleep
  cases asleep

theorem wakes_same : Wakes sig threads threads ↔ sig = 0 ∨ ∀ thread ∈ threads, ¬ CanTake sig thread := by
  unfold Wakes
  by_cases asked : sig ≠ 0 ∧ ∃ thread ∈ threads, CanTake sig thread
  · rw [if_pos asked]
    obtain ⟨signal, thread, mem, takes⟩ := asked
    constructor
    · rintro ⟨l, thread, r, split_, takes, same⟩
      exact absurd (split_.symm.trans same) (changed_of_asleep takes.1)
    · rintro (nothing | nobody)
      · exact absurd nothing signal
      · exact absurd takes (nobody thread mem)
  · rw [if_neg asked]
    refine iff_of_true rfl ?_
    by_cases nothing : sig = 0
    · exact .inl nothing
    · exact .inr fun thread mem takes => asked ⟨nothing, thread, mem, takes⟩

theorem wakes_woken (asleep : thread.task = some .BLOCKED) (split_ : threads = l ++ thread :: r) :
    Wakes sig threads (l ++ { thread with task := some .ACTIVE } :: r) ↔ sig ≠ 0 ∧ CanTake sig thread := by
  have mem : thread ∈ threads := split_ ▸ List.mem_append_right _ List.mem_cons_self
  unfold Wakes
  by_cases asked : sig ≠ 0 ∧ ∃ thread ∈ threads, CanTake sig thread
  · rw [if_pos asked]
    constructor
    · rintro ⟨l', other, r', split', takes, same⟩
      rw [woken_unique asleep takes.1 (split_.symm.trans split') same]
      exact ⟨asked.1, takes⟩
    · exact fun ⟨_, takes⟩ => ⟨l, thread, r, split_, takes, rfl⟩
  · rw [if_neg asked]
    refine iff_of_false (fun same => ?_) fun ⟨signal, takes⟩ => asked ⟨signal, thread, mem, takes⟩
    exact changed_of_asleep asleep (split_.symm.trans same.symm)

theorem woken_iff : (∃ threads', wakeCandidate SIGKILL threads = some threads' ∧ Wakes sig threads threads') ↔
    RightThread sig threads := by
  unfold RightThread
  cases found : threads.find? (isCandidate SIGKILL) with
  | none =>
    rw [wakeCandidate_none found]
    dsimp only
    rw [← wakes_same]
    exact ⟨fun ⟨_, same, wakes⟩ => Option.some.inj same ▸ wakes, fun wakes => ⟨threads, rfl, wakes⟩⟩
  | some thread =>
    dsimp only
    rcases (isCandidate_iff.mp (List.find?_some found)).2 with gone | asleep
    · rw [wakeCandidate_crash found gone]
      refine iff_of_false nofun fun ⟨_, takes⟩ => ?_
      exact absurd (gone.symm.trans takes.1) nofun
    · obtain ⟨l, r, split_, after⟩ := wakeCandidate_some found asleep
      rw [after, ← wakes_woken asleep split_]
      exact ⟨fun ⟨_, same, wakes⟩ => Option.some.inj same ▸ wakes, fun wakes => ⟨_, rfl, wakes⟩⟩

theorem pending_iff (pending : Sigset) : sigaddset pending SIGKILL =
    (if sig = 0 then pending else insert sig pending) ↔
      sig = SIGKILL ∨ SIGKILL ∈ pending ∧ (sig = 0 ∨ sig ∈ pending) := by
  have added : sigaddset pending SIGKILL = insert SIGKILL pending := if_pos (by decide)
  rw [added]
  by_cases nothing : sig = 0
  · have other : sig ≠ SIGKILL := by rw [nothing]; decide
    rw [if_pos nothing, Finset.insert_eq_self]
    tauto
  · rw [if_neg nothing]
    constructor
    · intro same
      have mine : SIGKILL ∈ insert sig pending := same ▸ Finset.mem_insert_self _ _
      have asked : sig ∈ insert SIGKILL pending := same ▸ Finset.mem_insert_self _ _
      rw [Finset.mem_insert] at mine asked
      by_cases kill : sig = SIGKILL
      · exact .inl kill
      · exact .inr ⟨mine.resolve_left (Ne.symm kill), .inr (asked.resolve_left kill)⟩
    · rintro (rfl | ⟨mine, nothing' | asked⟩)
      · rfl
      · exact absurd nothing' nothing
      · rw [Finset.insert_eq_self.mpr mine, Finset.insert_eq_self.mpr asked]

theorem dce_kill_live (live : s.m_processes pid = some process) (bound : pid < 2 ^ 16) : dce_kill pid sig s =
    (UtilsSendSignal process SIGKILL).map fun process =>
      ({ s with m_processes := update s.m_processes pid (some process) }, 0) := by
  have low : ((pid : Int) % 2 ^ 16).toNat = pid := by omega
  rw [dce_kill, low, live]

theorem UtilsSendSignal_some : UtilsSendSignal process sig = some after ↔
    ∃ threads, wakeCandidate sig process.threads = some threads ∧
    ⟨sigaddset process.pendingSignals sig, threads⟩ = after :=
  Option.map_eq_some_iff

/-- For every pid of a live process and every signal: the call does what it has to exactly if `SIGKILL` is the signal
asked for, or is pending already besides it, and the search for a thread that leaves `SIGKILL` unmasked ends at a
blocked one that can take the signal, or finds none where there is nobody to wake. -/
theorem killsRight_iff_asksKill (s : Manager) (pid sig : Nat) (process : Process)
    (live : s.m_processes pid = some process)
    (bound : pid < 2 ^ 16) : KillsRight pid sig process s ↔
      (sig = SIGKILL ∨ SIGKILL ∈ process.pendingSignals ∧ (sig = 0 ∨ sig ∈ process.pendingSignals)) ∧
      RightThread sig process.threads := by
  rw [← pending_iff, ← woken_iff, KillsRight, dce_kill_live live bound]
  constructor
  · rintro ⟨t, after, run, updated, pending, woken⟩
    obtain ⟨after', sent, same⟩ := Option.map_eq_some_iff.mp run
    cases same
    obtain rfl : after' = after := by
      have at_pid : update s.m_processes pid (some after') pid = update s.m_processes pid (some after) pid :=
        congrFun updated pid
      rwa [update_self, update_self, Option.some_inj] at at_pid
    obtain ⟨threads, woke, rfl⟩ := UtilsSendSignal_some.mp sent
    exact ⟨pending, threads, woke, woken⟩
  · rintro ⟨pending, threads, woke, woken⟩
    have sent := UtilsSendSignal_some.mpr ⟨threads, woke, rfl⟩
    exact ⟨_, _, Option.map_eq_some_iff.mpr ⟨_, sent, rfl⟩, rfl, pending, woken⟩

/-- A process whose only thread sleeps. -/
def sleeper : Process := ⟨∅, [⟨0, ∅, some .BLOCKED, none⟩]⟩

def oneProcess : Manager := ⟨fun pid => if pid = 2 then some sleeper else none, none⟩

theorem killsRight_kill : KillsRight 2 SIGKILL sleeper oneProcess :=
  (killsRight_iff_asksKill oneProcess 2 SIGKILL sleeper rfl (by decide)).mpr ⟨.inl rfl, by decide, rfl, rfl⟩

/-- A question whether the process is there kills it. -/
theorem not_killsRight : ¬ KillsRight 2 0 sleeper oneProcess := by
  rintro ⟨t, after, run, updated, delivered⟩
  have live : oneProcess.m_processes 2 = some sleeper := rfl
  rw [dce_kill_live live (by decide)] at run
  cases run
  have same : some _ = some after := congrFun updated 2
  have pending := delivered.pending
  rw [← Option.some.inj same] at pending
  revert pending
  decide

end Dce.Signals
