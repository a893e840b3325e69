import Dce.Signals.Model

/- The handlers of a process's signals, as `dce_sigaction` enters them in their table and `UtilsDoSignal` calls them.
A handler runs as long as it wants, and its thread and the others do meanwhile whatever the labels name. -/

namespace Dce.Delivery

open Signals (Sigset How SIGKILL SIGSTOP sigaddset newMask delivers)

def SIGABRT : Nat := 6

inductive Handler
  | SIG_DFL | SIG_IGN | function
  deriving DecidableEq, Repr

structure Sigaction where
  sa_flags : Nat
  sa_mask : Sigset
  /-- `sa_sigaction`, where the flags have `SA_SIGINFO`. -/
  sa_handler : Handler
  deriving DecidableEq

/-- `handler` is the one of its two pointers that the flags choose. The other is not read. -/
structure SignalHandler where
  signal : Nat
  flags : Nat
  mask : Sigset
  handler : Handler
  deriving DecidableEq

/-- Which pending signals: those of the thread, or those of its process. -/
inductive Pending
  | thread | process
  deriving DecidableEq, Repr

/-- `UtilsDoSignal` inside the handler that it has called: its iterator, the entry that it found there and the set in
which the signal was pending. The iterator is valid until the table is moved. -/
structure Frame where
  index : Nat
  entry : SignalHandler
  pending : Pending
  valid : Bool
  deriving DecidableEq

/-- `frames` are the calls of `UtilsDoSignal` that the thread is in, innermost first. -/
structure Thread where
  signalMask : Sigset
  pendingSignals : Sigset
  frames : List Frame
  deriving DecidableEq

/-- A process, with `undefined` once it has done what C++ gives no meaning to. -/
structure Process (T : Type*) where
  signalHandlers : List SignalHandler
  pendingSignals : Sigset
  threads : T → Thread
  undefined : Bool

variable {T : Type*} [DecidableEq T]

def SetDefaultSigHandler : List SignalHandler := [⟨SIGKILL, 0, ∅, .function⟩, ⟨SIGABRT, 0, ∅, .function⟩]

def SignalHandler.replace (act : Sigaction) (i : SignalHandler) : SignalHandler :=
  { i with flags := act.sa_flags, mask := act.sa_mask, handler := act.sa_handler }

/-- The table afterwards, and what is stored at `oldact`. Both pointers may be null. -/
def dce_sigaction (signum : Nat) (act : Option Sigaction) (oldact : Bool) (signalHandlers : List SignalHandler) :
    List SignalHandler × Option Sigaction :=
  match signalHandlers.find? (·.signal = signum) with
  | some i =>
    (act.elim signalHandlers fun act => signalHandlers.map fun j => if j.signal = signum then j.replace act else j,
      if oldact then some ⟨i.flags, i.mask, i.handler⟩ else none)
  | none =>
    (act.elim signalHandlers fun act => signalHandlers ++ [⟨signum, act.sa_flags, act.sa_mask, act.sa_handler⟩],
      if oldact then some ⟨0, ∅, .SIG_IGN⟩ else none)

/-- The second check of an entry. -/
def sharedCall (shared : Sigset) (index : Nat) (i : SignalHandler) : Option Frame :=
  if i.signal ∈ shared then some ⟨index, i, .process, true⟩ else none

/-- What `UtilsDoSignal` calls for an entry that it comes to. -/
def entryCall (mask own shared : Sigset) (index : Nat) (i : SignalHandler) : Option Frame :=
  if delivers mask i.signal then
    if i.signal ∈ own then some ⟨index, i, .thread, true⟩ else sharedCall shared index i
  else none

/-- The first call of the loop from an entry on. -/
def loopCall (mask own shared : Sigset) : Nat → List SignalHandler → Option Frame
  | _, [] => none
  | index, i :: rest => (entryCall mask own shared index i).or (loopCall mask own shared (index + 1) rest)

/-- Nothing is delivered for the entry. -/
def Idle (mask own shared : Sigset) (i : SignalHandler) : Prop :=
  delivers mask i.signal = true → i.signal ∉ own ∧ i.signal ∉ shared

theorem sharedCall_none {shared : Sigset} {index : Nat} {i : SignalHandler} :
    sharedCall shared index i = none ↔ i.signal ∉ shared := by
  unfold sharedCall
  split
  next here => exact iff_of_false nofun fun absent => absent here
  next absent => exact iff_of_true rfl absent

theorem sharedCall_some {shared : Sigset} {index : Nat} {i : SignalHandler} {frame : Frame}
    (call : sharedCall shared index i = some frame) : frame = ⟨index, i, .process, true⟩ ∧ i.signal ∈ shared := by
  obtain ⟨here, same⟩ := Option.ite_none_right_eq_some.mp call
  exact ⟨(Option.some.inj same).symm, here⟩

section

variable {mask own shared : Sigset} {index : Nat} {i : SignalHandler} {l : List SignalHandler} {frame : Frame}

theorem entryCall_none : entryCall mask own shared index i = none ↔ Idle mask own shared i := by
  unfold entryCall Idle
  by_cases open_ : delivers mask i.signal = true
  · by_cases mine : i.signal ∈ own
    · rw [if_pos open_, if_pos mine]
      exact iff_of_false nofun fun idle => (idle open_).1 mine
    · rw [if_pos open_, if_neg mine, sharedCall_none]
      exact ⟨fun absent _ => ⟨mine, absent⟩, fun idle => (idle open_).2⟩
  · rw [if_neg open_]
    exact iff_of_true rfl fun yes => absurd yes open_

section

variable (call : entryCall mask own shared index i = some frame)
include call

theorem entryCall_some :
    frame = ⟨index, i, .thread, true⟩ ∧ i.signal ∈ own ∨ frame = ⟨index, i, .process, true⟩ ∧ i.signal ∉ own ∧
    i.signal ∈ shared := by
  obtain ⟨-, call⟩ := Option.ite_none_right_eq_some.mp call
  split at call
  next mine => exact .inl ⟨(Option.some.inj call).symm, mine⟩
  next other => exact .inr ⟨(sharedCall_some call).1, other, (sharedCall_some call).2⟩

theorem entryCall_entry : frame.index = index ∧ frame.entry = i := by
  rcases entryCall_some call with ⟨rfl, -⟩ | ⟨rfl, -⟩
  · exact ⟨rfl, rfl⟩
  · exact ⟨rfl, rfl⟩

end

theorem loopCall_none : loopCall mask own shared index l = none ↔ ∀ i ∈ l, Idle mask own shared i := by
  induction l generalizing index with
  | nil => simp [loopCall]
  | cons i rest ih => rw [loopCall, Option.or_eq_none_iff, entryCall_none, ih, List.forall_mem_cons]

theorem loopCall_some (call : loopCall mask own shared index l = some frame) :
    ∃ before i after, l = before ++ i :: after ∧ (∀ j ∈ before, Idle mask own shared j) ∧
      entryCall mask own shared (index + before.length) i = some frame := by
  induction l generalizing index with
  | nil => cases call
  | cons i rest ih =>
    rw [loopCall, Option.or_eq_some_iff] at call
    rcases call with here | ⟨none', later⟩
    · exact ⟨[], i, rest, rfl, nofun, here⟩
    · obtain ⟨before, j, after, rfl, idle, there⟩ := ih later
      refine ⟨i :: before, j, after, rfl, List.forall_mem_cons.mpr ⟨entryCall_none.mp none', idle⟩, ?_⟩
      rw [List.length_cons, Nat.add_comm before.length, ← Nat.add_assoc]
      exact there

end

namespace Process

def setThread (t : T) (thread : Thread) (s : Process T) : Process T :=
  { s with threads := Function.update s.threads t thread }

def callFrom (index : Nat) (t : T) (s : Process T) : Option Frame :=
  loopCall (s.threads t).signalMask (s.threads t).pendingSignals s.pendingSignals index (s.signalHandlers.drop index)

/-- The next call of a loop whose handler has returned. -/
def callAfter (frame : Frame) (t : T) (s : Process T) : Option Frame :=
  match frame.pending, s.signalHandlers[frame.index]? with
  | .thread, some i => (sharedCall s.pendingSignals frame.index i).or (s.callFrom (frame.index + 1) t)
  | _, _ => s.callFrom (frame.index + 1) t

/-- The call of a handler, or the return of `UtilsDoSignal` where there is none. -/
def goOn (t : T) (call : Option Frame) (s : Process T) : Process T :=
  match call with
  | none => s
  | some frame =>
    if frame.entry.handler = .function then
      s.setThread t { s.threads t with frames := frame :: (s.threads t).frames }
    else { s with undefined := true }

/-- The `sigdelset` after a handler. `dce_sigaction` does not change the signal of an entry. -/
def sigdelset (t : T) (frame : Frame) (frames : List Frame) (s : Process T) : Process T :=
  match frame.pending with
  | .thread =>
    let pendingSignals := Signals.sigdelset (s.threads t).pendingSignals frame.entry.signal
    s.setThread t { s.threads t with pendingSignals := pendingSignals, frames := frames }
  | .process =>
    let pendingSignals := Signals.sigdelset s.pendingSignals frame.entry.signal
    { s.setThread t { s.threads t with frames := frames } with pendingSignals := pendingSignals }

def UtilsDoSignal (t : T) (s : Process T) : Process T := s.goOn t (s.callFrom 0 t)

def handlerReturns (t : T) (frame : Frame) (frames : List Frame) (s : Process T) : Process T :=
  if frame.valid then
    let s := s.sigdelset t frame frames
    s.goOn t (s.callAfter frame t)
  else { s with undefined := true }

/-- What `UtilsSendSignal` does to the signals. -/
def UtilsSendSignal (signum : Nat) (s : Process T) : Process T :=
  { s with pendingSignals := sigaddset s.pendingSignals signum }

def dce_pthread_kill (t : T) (sig : Nat) (s : Process T) : Process T :=
  s.setThread t { s.threads t with pendingSignals := sigaddset (s.threads t).pendingSignals sig }

def dce_sigprocmask (t : T) (how : How) (set : Sigset) (s : Process T) : Process T :=
  s.setThread t { s.threads t with signalMask := newMask how set (s.threads t).signalMask }

/-- `push_back` may move the table, and so may end what the iterators point at. -/
def sigaction (signum : Nat) (act : Sigaction) (moves : Bool) (s : Process T) : Process T :=
  { s with
    signalHandlers := (dce_sigaction signum (some act) false s.signalHandlers).1
    threads := fun t =>
      if moves then { s.threads t with frames := (s.threads t).frames.map ({ · with valid := false }) }
      else s.threads t }

def HasPendingSignal (s : Process T) : Bool := s.pendingSignals ≠ ∅

end Process

/-- `WaitPoint::Result` and `Waiter::Result`. -/
inductive Result
  | OK | INTERRUPTED | TIMEOUT
  deriving DecidableEq, Repr

/-- What a wait comes to when its thread goes on, with the time that it was given and the time that is left. -/
def Wait (timeout left : Nat) (s : Process T) : Result :=
  if s.HasPendingSignal then .INTERRUPTED else if timeout ≠ 0 ∧ left = 0 then .TIMEOUT else .OK

/-- What the threads of the process do, or is done to them: the alarm and the threads of other processes send signals
too. In `returns` it is the innermost handler of the thread that does. -/
inductive Label (T : Type*)
  | sigaction (signum : Nat) (act : Sigaction) (moves : Bool)
  | sigprocmask (t : T) (how : How) (set : Sigset)
  | sendSignal (signum : Nat)
  | pthread_kill (t : T) (sig : Nat)
  | doSignal (t : T)
  | returns (t : T)
  deriving DecidableEq

/-- A table with room for another entry does not move, nor one in which an entry is replaced. -/
def step (s : Process T) (a : Label T) : Option (Process T) :=
  if s.undefined then none
  else match a with
    | .sigaction signum act moves =>
        some (s.sigaction signum act (moves && ! s.signalHandlers.any (·.signal = signum)))
    | .sigprocmask t how set => some (s.dce_sigprocmask t how set)
    | .sendSignal signum => some (s.UtilsSendSignal signum)
    | .pthread_kill t sig => some (s.dce_pthread_kill t sig)
    | .doSignal t => some (s.UtilsDoSignal t)
    | .returns t =>
      match (s.threads t).frames with
      | frame :: frames => some (s.handlerReturns t frame frames)
      | [] => none

theorem step_returns {s v : Process T} {t : T} (run : step s (.returns t) = some v) :
    ∃ frame frames, (s.threads t).frames = frame :: frames ∧ v = s.handlerReturns t frame frames := by
  unfold step at run
  split at run
  · cases run
  · simp only at run
    split at run
    next frame frames inside =>
      cases run
      exact ⟨frame, frames, inside, rfl⟩
    · cases run

def machine (T : Type*) [DecidableEq T] : Machine (Process T) (Label T) where
  init s := s.signalHandlers = SetDefaultSigHandler ∧ s.pendingSignals = ∅ ∧ (∀ t, s.threads t = ⟨∅, ∅, []⟩) ∧
    s.undefined = false
  step := step

end Dce.Delivery

/- What the steps do to the signals that are pending. -/

namespace Dce.Delivery

open Process Function

open Signals (Sigset IsSignal sigaddset delivers mem_sigaddset mem_sigdelset)

variable {T : Type*} [DecidableEq T] {s v : Process T} {t u : T} {frame : Frame} {frames : List Frame}
    {mask own shared : Sigset}
  {index : Nat} {l : List SignalHandler}

/-- A signal in the set of a thread, or in that of the process. -/
structure Slot (T : Type*) where
  thread : Option T
  signal : Nat
  deriving DecidableEq

variable {k : Slot T}

/-- The thread in whose set the signal is, if it is not the one of the process. -/
def Pending.owner (t : T) : Pending → Option T
  | .thread => some t
  | .process => none

def Frame.slot (t : T) (frame : Frame) : Slot T := ⟨frame.pending.owner t, frame.entry.signal⟩

def Process.set (s : Process T) : Option T → Sigset
  | some t => (s.threads t).pendingSignals
  | none => s.pendingSignals

/-- The signal is pending in its set. -/
def Process.Has (s : Process T) (k : Slot T) : Prop := k.signal ∈ s.set k.thread

instance (s : Process T) (k : Slot T) : Decidable (s.Has k) := inferInstanceAs (Decidable (_ ∈ _))

/-- The handler that returns in a step, and its thread. -/
def returning (s : Process T) : Label T → Option (T × Frame)
  | .returns t => (s.threads t).frames.head?.map (t, ·)
  | _ => none

/-- The handler that a step calls, and its thread. -/
def called (s : Process T) : Label T → Option (T × Frame)
  | .doSignal t => (s.callFrom 0 t).map (t, ·)
  | .returns t =>
    match (s.threads t).frames with
    | frame :: frames => if frame.valid then ((s.sigdelset t frame frames).callAfter frame t).map (t, ·) else none
    | [] => none
  | _ => none

theorem loopCall_pending (call : loopCall mask own shared index l = some frame) :
    frame.entry.signal ∈ (match frame.pending with | .thread => own | .process => shared) := by
  obtain ⟨_, i, _, _, _, found⟩ := loopCall_some call
  rcases entryCall_some found with ⟨rfl, mine⟩ | ⟨rfl, -, other⟩
  · exact mine
  · exact other

section

omit [DecidableEq T]

theorem callFrom_has (call : s.callFrom index t = some frame) : s.Has (frame.slot t) := by
  have pending := loopCall_pending call
  unfold Process.Has Process.set Frame.slot
  cases which : frame.pending <;> rw [which] at pending <;> exact pending

theorem callAfter_has {last : Frame} (call : s.callAfter last t = some frame) : s.Has (frame.slot t) := by
  unfold callAfter at call
  split at call
  next i _ _ =>
    rcases Option.or_eq_some_iff.mp call with here | ⟨-, later⟩
    · obtain ⟨rfl, pending⟩ := sharedCall_some here
      exact pending
    · exact callFrom_has later
  next => exact callFrom_has call

end

theorem setThread_set (thread : Thread) : (s.setThread t thread).set =
    update s.set (some t) thread.pendingSignals := by
  funext u
  cases u with
  | none => rw [update_of_ne (Option.some_ne_none t).symm]; rfl
  | some u =>
    by_cases same : u = t
    · simp [Process.set, Process.setThread, same]
    · simp [Process.set, Process.setThread, same]

theorem setThread_set_same {thread : Thread} (pending : thread.pendingSignals = (s.threads t).pendingSignals) :
    (s.setThread t thread).set = s.set := by
  rw [setThread_set, pending]
  exact update_eq_self (some t) s.set

theorem shared_set (pendingSignals : Sigset) :
    ({ s with pendingSignals := pendingSignals } : Process T).set = update s.set none pendingSignals := by
  funext u
  cases u with
  | none => rw [update_self]; rfl
  | some u => rw [update_of_ne (Option.some_ne_none u)]; rfl

theorem goOn_set (call : Option Frame) : (s.goOn t call).set = s.set := by
  unfold goOn
  split
  · rfl
  · split
    · exact setThread_set_same rfl
    · rfl

theorem goOn_has (call : Option Frame) : (s.goOn t call).Has k ↔ s.Has k := by
  unfold Has
  rw [goOn_set]

theorem sigdelset_set : (s.sigdelset t frame frames).set =
    update s.set (frame.pending.owner t) (Signals.sigdelset (s.set (frame.pending.owner t)) frame.entry.signal) := by
  unfold sigdelset
  cases frame.pending with
  | thread => exact setThread_set _
  | process =>
    have same : (s.setThread t { s.threads t with frames := frames }).set = s.set := setThread_set_same rfl
    rw [shared_set, same]
    rfl

theorem sigdelset_has : (s.sigdelset t frame frames).Has k ↔ ¬ (k = frame.slot t ∧ IsSignal k.signal) ∧ s.Has k := by
  obtain ⟨u, signal⟩ := k
  unfold Has
  rw [sigdelset_set]
  by_cases same : u = frame.pending.owner t
  · subst same
    rw [update_self, mem_sigdelset, and_comm]
    refine and_congr_left fun _ => not_congr ?_
    simp only [Frame.slot, Slot.mk.injEq, true_and]
    exact and_congr_right fun same => by rw [same]
  · simp [Frame.slot, same]

theorem sigdelset_frames : ((s.sigdelset t frame frames).threads u).frames = if u = t then frames
    else (s.threads u).frames := by
  unfold sigdelset
  by_cases same : u = t
  · cases frame.pending <;> simp [setThread, same]
  · cases frame.pending <;> simp [setThread, same]

theorem sigdelset_undefined : (s.sigdelset t frame frames).undefined = s.undefined := by
  unfold sigdelset
  cases frame.pending <;> rfl

theorem has_sigaddset {which : Option T} {signum : Nat}
    (added : v.set = update s.set which (sigaddset (s.set which) signum)) :
    v.Has k ↔ (k = ⟨which, signum⟩ ∧ IsSignal signum) ∨ s.Has k := by
  obtain ⟨u, signal⟩ := k
  unfold Has
  rw [added]
  by_cases same : u = which
  · subst same
    simpa using mem_sigaddset
  · simp [same]

theorem UtilsSendSignal_has {signum : Nat} :
    (s.UtilsSendSignal signum).Has k ↔ (k = ⟨none, signum⟩ ∧ IsSignal signum) ∨ s.Has k :=
  has_sigaddset (shared_set _)

theorem pthread_kill_has {sig : Nat} :
    (s.dce_pthread_kill t sig).Has k ↔ (k = ⟨some t, sig⟩ ∧ IsSignal sig) ∨ s.Has k :=
  has_sigaddset (setThread_set _)

omit [DecidableEq T] in
theorem sigaction_set {signum : Nat} {act : Sigaction} {moves : Bool} :
    (s.sigaction signum act moves).set = s.set := by
  funext u
  cases u with
  | none => rfl
  | some u => cases moves <;> rfl

/-- Only what `sigaddset` takes is pending or has a handler that runs, so that `sigdelset` takes it too. -/
structure Legal (s : Process T) : Prop where
  pending : ∀ k, s.Has k → IsSignal k.signal
  frames : ∀ t, ∀ frame ∈ (s.threads t).frames, IsSignal frame.entry.signal

omit [DecidableEq T] in
theorem Legal.congr (legal : Legal s) (has : ∀ k, v.Has k → IsSignal k.signal ∨ s.Has k)
    (frames : ∀ t, ∀ frame ∈ (v.threads t).frames, ∃ u, ∃ g ∈ (s.threads u).frames, g.entry = frame.entry) :
    Legal v where
  pending k there := (has k there).elim id (legal.pending k)
  frames t frame mem := by
    obtain ⟨u, g, before, same⟩ := frames t frame mem
    exact same ▸ legal.frames u g before

theorem setThread_frames {thread : Thread} {u : T} (mem : frame ∈ ((s.setThread t thread).threads u).frames) :
    frame ∈ thread.frames ∨ frame ∈ (s.threads u).frames := by
  by_cases same : u = t
  · subst same
    exact .inl (by simpa [setThread] using mem)
  · exact .inr (by simpa [setThread, same] using mem)

theorem Legal.goOn {call : Option Frame} (legal : Legal s) (pending : ∀ frame ∈ call, s.Has (frame.slot t)) :
    Legal (s.goOn t call) := by
  refine ⟨fun k there => legal.pending k ((goOn_has call).mp there), fun u frame mem => ?_⟩
  unfold Process.goOn at mem
  split at mem
  · exact legal.frames u frame mem
  next called =>
    split at mem
    · rcases setThread_frames mem with inside | before
      · rcases List.mem_cons.mp inside with rfl | before
        · exact legal.pending _ (pending _ rfl)
        · exact legal.frames t frame before
      · exact legal.frames u frame before
    · exact legal.frames u frame mem

theorem Legal.sigdelset (legal : Legal s) (inside : (s.threads t).frames = frame :: frames) :
    Legal (s.sigdelset t frame frames) := by
  refine legal.congr (fun k there => .inr (sigdelset_has.mp there).2) fun u g mem => ?_
  rw [sigdelset_frames] at mem
  split at mem
  · exact ⟨t, g, inside ▸ List.mem_cons_of_mem _ mem, rfl⟩
  · exact ⟨u, g, mem, rfl⟩

theorem Legal.sigdelset_has (legal : Legal s) (inside : (s.threads t).frames = frame :: frames) :
    (s.sigdelset t frame frames).Has k ↔ k ≠ frame.slot t ∧ s.Has k := by
  have signal : IsSignal frame.entry.signal := legal.frames t frame (inside ▸ List.mem_cons_self)
  rw [Delivery.sigdelset_has]
  refine and_congr_left fun _ => not_congr ⟨And.left, fun same => ⟨same, ?_⟩⟩
  rw [same]
  exact signal

theorem Legal.step {a : Label T} (legal : Legal s) (run : step s a = some v) : Legal v := by
  have frames : ∀ {u thread}, thread.frames = (s.threads u).frames →
    ∀ t, ∀ frame ∈ ((s.setThread u thread).threads t).frames,
      ∃ u, ∃ g ∈ (s.threads u).frames, g.entry = frame.entry := by
    intro u thread same t frame mem
    rcases setThread_frames mem with here | before
    · exact ⟨u, frame, same ▸ here, rfl⟩
    · exact ⟨t, frame, before, rfl⟩
  have added : ∀ {which signum} {k : Slot T}, (k = ⟨which, signum⟩ ∧ IsSignal signum) ∨ s.Has k →
      IsSignal k.signal ∨ s.Has k := by
    rintro which signum k (⟨rfl, signal⟩ | before)
    · exact .inl signal
    · exact .inr before
  have stepped := run
  unfold Delivery.step at run
  split at run
  · cases run
  cases a with
  | sigaction signum act moves =>
    cases run
    refine legal.congr (fun k there => .inr ?_) fun t frame mem => ?_
    · unfold Process.Has at there ⊢
      rwa [sigaction_set] at there
    · cases moves' : moves && ! s.signalHandlers.any (·.signal = signum) with
      | false =>
        rw [moves'] at mem
        exact ⟨t, frame, mem, rfl⟩
      | true =>
        rw [moves'] at mem
        obtain ⟨g, before, rfl⟩ := List.mem_map.mp mem
        exact ⟨t, g, before, rfl⟩
  | sigprocmask t how set =>
    cases run
    refine legal.congr (fun k there => .inr ?_) (frames rfl)
    have sets : (s.dce_sigprocmask t how set).set = s.set := setThread_set_same rfl
    unfold Process.Has at there ⊢
    rwa [sets] at there
  | sendSignal signum =>
    cases run
    exact legal.congr (fun k there => added (UtilsSendSignal_has.mp there)) fun t frame mem => ⟨t, frame, mem, rfl⟩
  | pthread_kill t sig =>
    cases run
    exact legal.congr (fun k there => added (pthread_kill_has.mp there)) (frames rfl)
  | doSignal t =>
    cases run
    exact legal.goOn fun frame call => callFrom_has call
  | returns t =>
    obtain ⟨frame, rest, inside, rfl⟩ := step_returns stepped
    unfold handlerReturns
    split
    · exact (legal.sigdelset inside).goOn fun next call => callAfter_has call
    · exact legal.congr (fun k there => .inr there) fun t frame mem => ⟨t, frame, mem, rfl⟩

theorem legal_init (first : (machine T).init s) : Legal s := by
  obtain ⟨-, pending, threads, -⟩ := first
  refine ⟨fun k has => ?_, fun t frame mem => ?_⟩
  · have nothing : s.set k.thread = ∅ := by
      cases k.thread with
      | none => exact pending
      | some u => exact congrArg Thread.pendingSignals (threads u)
    rw [Has, nothing] at has
    exact absurd has (Finset.notMem_empty _)
  · rw [threads] at mem
    cases mem

end Dce.Delivery
