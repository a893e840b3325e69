import Dce.Pthread.WaitLists

/- What `pthread_cond_timedwait` returns, and where it leaves its thread. A signal takes
the thread it wakes off the list and the end of the time limit does not; the result is read
off the time that is left, which is zero both for a wait without a timer and for a wait
that a signal ended just in time. -/

namespace Dce.Pthread

open Coroutine

variable {T : Type*}

/-- Of a call of `pthread_cond_timedwait` on a condition variable: whether its deadline
had passed, and whether a signal or a broadcast has released it so far. -/
structure TimedWait where
  condition : Nat
  past : Prop
  released : Prop

/-- The last such call of a thread, if it called nothing since. -/
abbrev TimedWaits (T : Type*) := T → Option TimedWait

/-- What a call of an operation means to the thread that makes it. -/
def timedWaitOf (s : W T) : Op → Option TimedWait
  | .condTimedwait c _ abstime => (s.shared.conditions c).map fun _ => ⟨c, abstime ≤ s.now, False⟩
  | _ => none

def TimedWait.note (s : W T) (a : Act T Op Unit) (u : T) (wait : TimedWait) : TimedWait :=
  { wait with released := wait.released ∨ Wakes s u wait.condition a }

def noteTimedWaits [DecidableEq T] (s : W T) (a : Act T Op Unit) (k : TimedWaits T) : TimedWaits T :=
  let noted : TimedWaits T := fun u => (k u).map (TimedWait.note s a u)
  match a with
  | .call t op => Function.update noted t (timedWaitOf s op)
  | _ => noted

/-- What a timed wait of `t` owes: once it has returned, `t` is off the list, and the
result is `ETIMEDOUT` exactly if nobody released it; and it does not sleep for a deadline
that has passed. -/
structure Served (s : W T) (t : T) (wait : TimedWait) : Prop where
  off : ∀ r, s.place t = .own r → t ∉ waitingOf s wait.condition
  code : ∀ r, s.place t = .own (some r) → (r = .ETIMEDOUT ↔ ¬ wait.released)
  prompt : wait.past → ∀ c m timeout, s.place t ≠ .inside (.condWait c m timeout)

/-- The process with the timed waits of its run beside it. -/
def timedMachine (T : Type*) [DecidableEq T] : Machine (W T × TimedWaits T) (Act T Op Unit) :=
  (machine T).ledgered (fun _ => none) noteTimedWaits

/-- Every timed wait of the runs along `C` is served. -/
def ServesTimedWaits (T : Type*) [DecidableEq T] (C : W T → Act T Op Unit → Prop) : Prop :=
  ∀ (s : W T) (k : TimedWaits T) (t : T) (wait : TimedWait),
    (timedMachine T).ReachBy (fun p a => C p.1 a) (s, k) → k t = some wait → Served s t wait

/-- A timed wait is called before its deadline and ends before it: a thread in one is
woken by nothing but a signal or a broadcast, and gets control while some time is left. -/
def InTime (s : W T) (a : Act T Op Unit) : Prop :=
  NotWokenBesides s a ∧ match a with
    | .call _ (.condTimedwait c _ abstime) => (s.shared.conditions c).isSome → s.now < abstime
    | .dispatch t _ => ∀ c m limit, s.place t = .inside (.condWait c m (some limit)) → 0 < s.timeLeft t
    | _ => True

/-- Where a timed wait that is in time stands, from its call to the next call of its thread. -/
inductive Standing (s : W T) (t : T) (wait : TimedWait) : Prop
  | unlocking (m limit : Nat) : s.place t = .inside (.unlock m (some (wait.condition, some limit))) →
      ¬ wait.released → (s.shared.conditions wait.condition).isSome → Standing s t wait
  | waiting (m : Nat) (timeout : Option Nat) :
      s.place t = .inside (.condWait wait.condition m timeout) →
      (wait.released ↔ t ∉ waitingOf s wait.condition) → Standing s t wait
  | locking (m : Nat) : s.place t = .inside (.lock m (some .success)) → wait.released → Standing s t wait
  | back : s.place t = .own (some .success) → wait.released → Standing s t wait

section

variable [DecidableEq T] {s v : W T} {k : TimedWaits T} {t u : T} {c m : Nat} {a : Act T Op Unit}
  {wait : TimedWait}

theorem lockLoop_standing (released : wait.released) : Standing (lockLoop t m (some .success) s) t wait := by
  unfold lockLoop
  split
  · exact .back (by simp) released
  · split
    · exact .locking m (by simp) released
    · exact .back (by simp) released

theorem lock_standing (released : wait.released) : Standing (dcePthreadMutexLock t m (some .success) s) t wait := by
  unfold dcePthreadMutexLock
  split
  · exact .back (by simp) released
  · split
    · split <;> exact .back (by simp) released
    · exact lockLoop_standing released

section

variable (known : (s.shared.conditions wait.condition).isSome)
include known

theorem condEnqueue_standing (waits : ¬ wait.released) (timeout : Option Nat) :
    Standing (condEnqueue t wait.condition m timeout s) t wait := by
  obtain ⟨condition, found⟩ := Option.isSome_iff_exists.mp known
  obtain ⟨-, -, place⟩ := condEnqueue_sleeps (t := t) (m := m) found timeout
  exact .waiting m timeout place (iff_of_false waits (not_not.mpr (condEnqueue_listed found timeout)))

theorem unlock_standing {limit : Nat} (waits : ¬ wait.released) :
    Standing (dcePthreadMutexUnlock t m (some (wait.condition, some limit)) s) t wait := by
  unfold dcePthreadMutexUnlock
  split
  · exact condEnqueue_standing known waits _
  next mtx found =>
    split
    · exact condEnqueue_standing known waits _
    · split
      · split
        · refine condEnqueue_standing ?_ waits _
          exact known
        · exact .unlocking m limit (by simp) waits (by simpa [log, setMutex] using known)
      · refine condEnqueue_standing ?_ waits _
        exact known

end

theorem Standing.others (stands : Standing s u wait) (settled : Settled s)
    (run : (machine T).step s a = some v) (before : ∀ c, u ∈ waitingOf v c → u ∈ waitingOf s c)
    (place : v.place u = s.place u) : Standing v u (wait.note s a u) := by
  have off : (∀ m timeout, s.place u ≠ .inside (.condWait wait.condition m timeout)) →
      ¬ Wakes s u wait.condition a := fun away wakes => by
    obtain ⟨-, m, timeout, inside⟩ := settled.listed wait.condition u wakes.listed
    exact away m timeout inside
  cases stands with
  | unlocking m limit here waits known =>
    have silent := off (by simp [here])
    exact .unlocking m limit (place.trans here) (fun released => released.elim waits silent)
      ((known_kept run wait.condition).trans known)
  | waiting m timeout here exactly =>
    refine .waiting m timeout (place.trans here) ⟨fun released mem => ?_, fun gone => ?_⟩
    · rcases released with earlier | wakes
      · exact exactly.mp earlier (before _ mem)
      · exact settled.served run wakes mem
    · by_contra still
      obtain ⟨waits, silent⟩ := not_or.mp still
      exact gone (waiting_kept run silent (not_not.mp fun away => waits (exactly.mpr away)))
  | locking m here released => exact .locking m (place.trans here) (.inl released)
  | back here released => exact .back (place.trans here) (.inl released)

theorem Standing.resumed {frame : Frame} (stands : Standing s t wait) (e : Unit) (settled : Settled s)
    (inside : s.place t = .inside frame) (awake : s.status t ≠ .blocked)
    (left : ∀ c m limit, frame = .condWait c m (some limit) → 0 < s.timeLeft t) :
    Standing (resume t frame e (s.give t)) t wait := by
  cases stands with
  | unlocking m limit here waits known =>
    cases inside.symm.trans here
    have enqueues : resume t (Frame.unlock m (some (wait.condition, some limit))) e (s.give t) =
        condEnqueue t wait.condition m (some limit) (s.give t) := rfl
    refine condEnqueue_standing ?_ waits _
    exact known
  | waiting m timeout here exactly =>
    cases inside.symm.trans here
    have served : wait.released := exactly.mpr fun mem => awake (settled.listed _ t mem).1
    have code : waitCode timeout ((s.give t).timeLeft t) = .success := by
      cases timeout with
      | none => rfl
      | some limit => exact if_neg (left _ m limit rfl).ne'
    rw [resume, code]
    exact lock_standing served
  | locking m here released =>
    cases inside.symm.trans here
    exact lockLoop_standing released
  | back here released =>
    cases inside.symm.trans here

omit [DecidableEq T] in
theorem TimedWait.note_silent (wait : TimedWait) (silent : ¬ Wakes s u wait.condition a) :
    wait.note s a u = wait := by
  simp only [TimedWait.note, or_iff_left silent]

theorem noteTimedWaits_apply (call : ∀ op, a ≠ .call u op) :
    noteTimedWaits s a k u = (k u).map (TimedWait.note s a u) := by
  cases a with
  | call t op =>
    have other : u ≠ t := fun same => call op (by rw [same])
    simp only [noteTimedWaits]
    rw [Function.update_of_ne other]
  | _ => rfl

theorem standing_call {op : Op} (inTime : InTime s (.call t op)) (called : timedWaitOf s op = some wait) :
    ¬ wait.past ∧ Standing (enter t op s) t wait := by
  cases op with
  | condTimedwait c m abstime =>
    obtain ⟨condition, found, rfl⟩ := Option.map_eq_some_iff.mp called
    have known : (s.shared.conditions c).isSome := by simp [found]
    have future : s.now < abstime := inTime.2 known
    refine ⟨future.not_ge, ?_⟩
    have unlocks : enter t (.condTimedwait c m abstime) s = dcePthreadMutexUnlock t m
        (some (c, some (abstime - s.now))) s := by
      simp only [enter, dcePthreadCondTimedwait, found]
    rw [unlocks]
    let wait : TimedWait := ⟨c, abstime ≤ s.now, False⟩
    change Standing (dcePthreadMutexUnlock t m (some (wait.condition, some (abstime - s.now))) s) t wait
    exact unlock_standing known id
  | _ => cases called

theorem standing_step (settled : Settled s)
    (stands : ∀ t wait, k t = some wait → ¬ wait.past ∧ Standing s t wait) (inTime : InTime s a)
    (run : (machine T).step s a = some v) (noted : noteTimedWaits s a k u = some wait) :
    ¬ wait.past ∧ Standing v u wait := by
  by_cases call : ∃ op, a = .call u op
  · obtain ⟨op, rfl⟩ := call
    obtain ⟨-, -, rfl⟩ := Program.step_call run
    exact standing_call inTime (by simpa [noteTimedWaits] using noted)
  · have call : ∀ op, a ≠ .call u op := fun op same => call ⟨op, same⟩
    rw [noteTimedWaits_apply call] at noted
    obtain ⟨old, before, rfl⟩ := Option.map_eq_some_iff.mp noted
    obtain ⟨future, standing⟩ := stands u old before
    refine ⟨future, ?_⟩
    have listed (resume : ∀ e, a ≠ .dispatch u e) : ∀ c, u ∈ waitingOf v c → u ∈ waitingOf s c :=
      fun _ => listed_before run call resume
    rcases Program.step_cases run with
      ⟨t, op, r, rfl, -, -, rfl⟩ | ⟨t, e, frame, rfl, -, active, inside, rfl⟩ | idle
    · have other : u ≠ t := fun same => call op (by rw [same])
      exact standing.others settled run (listed nofun) (((program_cooperative T).enter t op s).place u other)
    · by_cases same : u = t
      · subst same
        rw [old.note_silent (by rintro ⟨⟩)]
        exact standing.resumed e settled inside (by simp [active]) fun c m limit is =>
          inTime.2 c m limit (is ▸ inside)
      · exact standing.others settled run (listed fun e' is => same (by cases is; rfl))
          (((program_cooperative T).resume t frame e (s.give t)).place u same)
    · refine standing.others settled run (fun c mem => ?_) (congrFun idle.place u)
      rwa [waitingOf_congr (congrArg Process.conditions idle.shared)] at mem

omit [DecidableEq T]

theorem Settled.of_fresh (fresh : s.shared.Fresh) : Settled s := by
  have waiting : ∀ c, waitingOf s c = [] := fun c => by
    unfold waitingOf
    split
    · rfl
    next condition found => exact fresh.conditions c condition found
  have queue : ∀ m, queueOf s m = [] := fun m => by
    unfold queueOf
    split
    · rfl
    next mtx found => exact (fresh.mutexes m mtx found).2.1
  exact ⟨fun c u mem => by simp [waiting] at mem, fun c => by simp [waiting], fun m u mem => by simp [queue] at mem⟩

theorem Standing.served (stands : Standing s t wait) (settled : Settled s)
    (future : ¬ wait.past) : Served s t wait := by
  refine ⟨fun r own mem => ?_, fun r own => ?_, fun past => absurd past future⟩
  · obtain ⟨-, m, timeout, inside⟩ := settled.listed wait.condition t mem
    rw [own] at inside
    cases inside
  · cases stands with
    | back here released =>
      cases own.symm.trans here
      exact iff_of_false nofun (not_not.mpr released)
    | unlocking m limit here => cases own.symm.trans here
    | waiting m timeout here => cases own.symm.trans here
    | locking m here => cases own.symm.trans here

end

/-- Every timed wait is served in the runs in which the timed waits are in time. -/
theorem servesTimedWaits_of_inTime (T : Type*) [DecidableEq T] : ServesTimedWaits T InTime := by
  intro s k t wait reach noted
  have kept : Settled s ∧ ∀ t wait, k t = some wait → ¬ wait.past ∧ Standing s t wait := by
    refine reach.invariant (I := fun p => Settled p.1 ∧ ∀ t wait, p.2 t = some wait →
      ¬ wait.past ∧ Standing p.1 t wait)
      (fun p first => ?_) fun p a q before inTime run => ?_
    · exact ⟨.of_fresh first.1.shared, fun t wait noted => by rw [first.2] at noted; cases noted⟩
    · obtain ⟨step, notes⟩ := Machine.ledgered_step run
      obtain ⟨settled, stands⟩ := before
      refine ⟨settled.step inTime.1 step, fun t wait noted => ?_⟩
      exact standing_step settled stands inTime step (notes ▸ noted)
  obtain ⟨future, stands⟩ := kept.2 t wait noted
  exact stands.served kept.1 future

/-- The start of two threads, with nothing noted. -/
def timedStart : W Bool × TimedWaits Bool := (twoThreads, fun _ => none)

theorem timedStart_init : (timedMachine Bool).init timedStart := ⟨twoThreads_start, rfl⟩

/-- A wait with one tick to go, and nobody who signals: the time runs out. -/
def timedOut : W Bool × TimedWaits Bool :=
  ((timedMachine Bool).replay timedStart
    [.dispatch false (), .call false (.lock 0), .call false (.condTimedwait 0 0 1), .tick, .expire false,
      .dispatch false ()]).getD timedStart

/-- The end of a time limit leaves the thread on the list. -/
theorem not_servesTimedWaits : ¬ ServesTimedWaits Bool fun _ _ => True := by
  intro serves
  have run : (timedMachine Bool).replay timedStart
      [.dispatch false (), .call false (.lock 0), .call false (.condTimedwait 0 0 1), .tick, .expire false,
        .dispatch false ()] = some timedOut := rfl
  have reach : (timedMachine Bool).Reach timedOut :=
    (Machine.ReachBy.start timedStart_init).replay (fun _ _ => trivial) run
  obtain ⟨wait, noted, on⟩ : ∃ wait, timedOut.2 false = some wait ∧ wait.condition = 0 := ⟨_, rfl, rfl⟩
  have off := (serves timedOut.1 timedOut.2 false wait reach noted).off (some .ETIMEDOUT) rfl
  have listed : waitingOf timedOut.1 0 = [false] := rfl
  simp [on, listed] at off

/-- A wait with five ticks to go that the other thread signals at once. -/
def signalledInTime : W Bool × TimedWaits Bool :=
  ((timedMachine Bool).replay timedStart
    [.dispatch false (), .call false (.lock 0), .call false (.condTimedwait 0 0 5), .dispatch true (),
      .call true (.condSignal 0), .yield true, .dispatch false ()]).getD timedStart

theorem servesTimedWaits_signalledInTime :
    ∃ wait, signalledInTime.2 false = some wait ∧ wait.condition = 0 ∧ Served signalledInTime.1 false wait := by
  have first : (timedMachine Bool).ReachBy (fun p a => InTime p.1 a) timedStart := .start timedStart_init
  have own {s : W Bool} {t : Bool} {r : Option Code} (here : s.place t = .own r) :
      InTime s (.dispatch t ()) := ⟨trivial, fun c m limit inside => by cases here.symm.trans inside⟩
  have called := first
    |>.next (a := Act.dispatch false ()) (own rfl) rfl
    |>.next (a := Act.call false (.lock 0)) ⟨trivial, trivial⟩ rfl
    |>.next (a := Act.call false (.condTimedwait 0 0 5)) ⟨trivial, fun _ => (by decide : 0 < 5)⟩ rfl
  have signalled := called
    |>.next (a := Act.dispatch true ()) (own rfl) rfl
    |>.next (a := Act.call true (.condSignal 0)) ⟨trivial, trivial⟩ rfl
    |>.next (a := Act.yield true) ⟨trivial, trivial⟩ rfl
  have reach : (timedMachine Bool).ReachBy (fun p a => InTime p.1 a) signalledInTime :=
    signalled.next (a := Act.dispatch false ()) ⟨trivial, fun c m limit _ => (by decide : 0 < 5)⟩ rfl
  exact ⟨_, rfl, rfl, servesTimedWaits_of_inTime Bool signalledInTime.1 signalledInTime.2 false _ reach rfl⟩

end Dce.Pthread
