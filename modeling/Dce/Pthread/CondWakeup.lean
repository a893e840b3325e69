import Dce.Pthread.Model

/- A condition wait first unlocks its mutex and only then puts its thread on the list
of the condition variable. The unlock itself switches threads when somebody waits for
the mutex, and whoever runs then can signal an empty list. -/

namespace Dce.Pthread

open Coroutine

variable {T : Type*}

/-- `condition->waiting`; empty where no condition variable is found. -/
def waitingOf (s : W T) (c : Nat) : List T :=
  match s.shared.conditions c with
  | none => []
  | some condition => condition.waiting

/-- `mtx->current` -/
def ownerOf (s : W T) (m : Nat) : Option T := (s.shared.mutexes m).bind Mutex.current

/-- The call of `pthread_cond_wait (c, m)` by `w`, where its unlock gives `m` up. -/
structure Releases (s : W T) (a : Act T Op Unit) (w : T) (c m : Nat) : Prop where
  call : a = .call w (.condWait c m)
  condition : ∃ condition, s.shared.conditions c = some condition
  mutex : ∃ mtx, s.shared.mutexes m = some mtx ∧ mtx.current = some w ∧ mtx.decCount = 0

/-- The calls that take `w` off the list of `c` to wake it. -/
inductive Wakes (s : W T) (w : T) (c : Nat) : Act T Op Unit → Prop
  | signal (t : T) : (waitingOf s c).head? = some w → Wakes s w c (.call t (.condSignal c))
  | broadcast (t : T) : w ∈ waitingOf s c → Wakes s w c (.call t (.condBroadcast c))

/-- What a signal or broadcast of `c` that leads from `s` to `v` must do for the waiter
`w`: find it on the list, and wake it, or for a signal the waiter that is first there. -/
def Notifies (s v : W T) (w : T) (c : Nat) (op : Op) : Prop :=
  w ∈ waitingOf s c ∧ (op = .condBroadcast c → v.status w ≠ .blocked) ∧
    (op = .condSignal c → ∃ u rest, waitingOf s c = u :: rest ∧ v.status u ≠ .blocked)

section

variable [DecidableEq T] {s v : W T} {t u w : T} {c d m : Nat} {a : Act T Op Unit}

/-- No wakeup is lost in the runs along `C`: `w` gives `m` up in a condition wait, some
`t` takes `m` after that, and `t` then signals or broadcasts while nobody has woken `w`. -/
def KeepsWakeups (T : Type*) [DecidableEq T] (C : W T → Act T Op Unit → Prop) : Prop :=
  ∀ (s₀ s₁ s₂ s₃ s₄ s₅ : W T) (a b : Act T Op Unit) (w t : T) (c m : Nat) (op : Op),
    (machine T).ReachBy C s₀ → C s₀ a → (machine T).step s₀ a = some s₁ → Releases s₀ a w c m →
    (machine T).Path (fun s a => C s a ∧ ¬ Wakes s w c a) s₁ s₂ →
    C s₂ b → ¬ Wakes s₂ w c b → (machine T).step s₂ b = some s₃ →
    ownerOf s₂ m ≠ some t → ownerOf s₃ m = some t →
    (machine T).Path (fun s a => C s a ∧ ¬ Wakes s w c a) s₃ s₄ →
    (op = .condSignal c ∨ op = .condBroadcast c) →
    C s₄ (.call t op) → (machine T).step s₄ (.call t op) = some s₅ →
    Notifies s₄ s₅ w c op

/-- Where a condition wait gives its mutex up, nobody waits for that mutex. -/
def ReleaseUncontended (s : W T) : Act T Op Unit → Prop
  | .call w (.condWait c m) =>
    ∀ mtx, (∃ condition, s.shared.conditions c = some condition) → s.shared.mutexes m = some mtx →
      mtx.current = some w → mtx.decCount = 0 → mtx.waiting = []
  | _ => True

section

omit [DecidableEq T]

theorem waitingOf_congr (same : v.shared.conditions = s.shared.conditions) : waitingOf v c = waitingOf s c := by
  unfold waitingOf; rw [same]

theorem mem_waitingOf_setCondition {condition : Condition T} : u ∈ waitingOf (setCondition d condition s) c ↔
      (c = d ∧ u ∈ condition.waiting) ∨ (c ≠ d ∧ u ∈ waitingOf s c) := by
  by_cases same : c = d
  · subst same; simp [waitingOf, setCondition]
  · simp [waitingOf, setCondition, same]

end

theorem lockLoop_conditions (code : Option Code) :
    (lockLoop t m code s).shared.conditions = s.shared.conditions := by
  unfold lockLoop
  split
  · rfl
  · split <;> rfl

theorem lock_conditions (code : Option Code) : (dcePthreadMutexLock t m code s).shared.conditions =
    s.shared.conditions := by
  unfold dcePthreadMutexLock
  split
  · rfl
  · split
    · split <;> rfl
    · exact lockLoop_conditions code

theorem trylock_conditions : (dcePthreadMutexTrylock t m s).shared.conditions = s.shared.conditions := by
  unfold dcePthreadMutexTrylock
  split
  · rfl
  · split
    · rfl
    · split <;> rfl
    · rfl

theorem removeWaiting_conditions : (removeWaiting t m s).shared.conditions = s.shared.conditions := by
  unfold removeWaiting
  split <;> rfl

theorem condEnqueue_waiting (timeout : Option Nat) (listed : u ∈ waitingOf s c) :
    u ∈ waitingOf (condEnqueue t d m timeout s) c := by
  unfold condEnqueue
  split
  next => exact listed
  next condition found =>
    have grown : u ∈ waitingOf (setCondition d { condition with waiting := condition.waiting ++ [t] } s) c := by
      rw [mem_waitingOf_setCondition]
      by_cases same : c = d
      · subst same
        have here : u ∈ condition.waiting := by simpa [waitingOf, found] using listed
        exact .inl ⟨rfl, List.mem_append_left _ here⟩
      · exact .inr ⟨same, listed⟩
    split <;> exact grown

theorem condEnqueue_listed {condition : Condition T} (found : s.shared.conditions c = some condition)
    (timeout : Option Nat) : t ∈ waitingOf (condEnqueue t c m timeout s) c := by
  have last : t ∈ waitingOf (setCondition c { condition with waiting := condition.waiting ++ [t] } s) c :=
    mem_waitingOf_setCondition.mpr (.inl ⟨rfl, by simp⟩)
  unfold condEnqueue
  rw [found]
  dsimp only
  split <;> exact last

theorem unlockReturn_waiting (next : Option (Nat × Option Nat)) (r : Code)
    (listed : u ∈ waitingOf s c) : u ∈ waitingOf (unlockReturn t m next r s) c := by
  unfold unlockReturn
  split
  · exact listed
  · exact condEnqueue_waiting _ listed

theorem unlock_waiting (next : Option (Nat × Option Nat)) (listed : u ∈ waitingOf s c) :
    u ∈ waitingOf (dcePthreadMutexUnlock t m next s) c := by
  unfold dcePthreadMutexUnlock
  split
  · exact unlockReturn_waiting _ _ listed
  next mtx found =>
    split
    · exact unlockReturn_waiting _ _ listed
    · split
      · split
        · exact unlockReturn_waiting _ _ listed
        · rw [waitingOf_congr (s := s) (by simp [log, setMutex])]
          exact listed
      · exact unlockReturn_waiting _ _ listed

theorem signal_waiting (listed : w ∈ waitingOf s c) (still : ¬ Wakes s w c (.call t (.condSignal d))) :
    w ∈ waitingOf (dcePthreadCondSignal t d s) c := by
  unfold dcePthreadCondSignal
  split
  · exact listed
  next condition found =>
    split
    · exact listed
    next thread rest queue =>
      have left : w ∈ waitingOf (setCondition d { condition with waiting := rest } (s.wake thread)) c := by
        rw [mem_waitingOf_setCondition]
        by_cases same : c = d
        · subst same
          have here : w = thread ∨ w ∈ rest := by
            simpa [waitingOf, found, queue] using listed
          rcases here with first | behind
          · exact absurd (.signal t (by simp [waitingOf, found, queue, first])) still
          · exact .inl ⟨rfl, behind⟩
        · exact .inr ⟨same, by rw [waitingOf_congr (s := s) (by simp)]; exact listed⟩
      exact left

theorem broadcast_waiting (listed : w ∈ waitingOf s c) (still : ¬ Wakes s w c (.call t (.condBroadcast d))) :
    w ∈ waitingOf (dcePthreadCondBroadcast t d s) c := by
  unfold dcePthreadCondBroadcast
  split
  · exact listed
  next condition found =>
    have other : c ≠ d := fun same => still (same ▸ .broadcast t listed)
    have left : w ∈ waitingOf (setCondition d { condition with waiting := [] } (s.wakeAll condition.waiting)) c := by
      rw [mem_waitingOf_setCondition]
      exact .inr ⟨other, by rw [waitingOf_congr (s := s) (by simp)]; exact listed⟩
    exact left

theorem enter_waiting (op : Op) (listed : w ∈ waitingOf s c) (still : ¬ Wakes s w c (.call t op)) :
    w ∈ waitingOf (enter t op s) c := by
  cases op with
  | lock m => rwa [enter, waitingOf_congr (lock_conditions none)]
  | trylock m => rwa [enter, waitingOf_congr trylock_conditions]
  | unlock m => exact unlock_waiting none listed
  | condWait d m =>
    rw [enter, dcePthreadCondWait]
    split
    · exact listed
    · exact unlock_waiting _ listed
  | condTimedwait d m abstime =>
    rw [enter, dcePthreadCondTimedwait]
    split
    · exact listed
    · exact unlock_waiting _ listed
  | condSignal d => exact signal_waiting listed still
  | condBroadcast d => exact broadcast_waiting listed still

theorem resume_waiting (frame : Frame) (e : Unit) (listed : w ∈ waitingOf s c) :
    w ∈ waitingOf (resume t frame e s) c := by
  cases frame with
  | lock m code =>
    rwa [resume, waitingOf_congr ((lockLoop_conditions code).trans removeWaiting_conditions)]
  | unlock m next => exact unlockReturn_waiting next .success listed
  | condWait d m timeout => rwa [resume, waitingOf_congr (lock_conditions _)]

theorem waiting_kept (run : (machine T).step s a = some v) (still : ¬ Wakes s w c a)
    (listed : w ∈ waitingOf s c) : w ∈ waitingOf v c := by
  rcases Program.step_cases run with
    ⟨t, op, r, rfl, -, -, rfl⟩ | ⟨t, e, frame, rfl, -, -, -, rfl⟩ | idle
  · exact enter_waiting op listed still
  · exact resume_waiting frame e listed
  · rwa [waitingOf_congr (congrArg Process.conditions idle.shared)]

theorem waiting_kept_along {C : W T → Act T Op Unit → Prop}
    (path : (machine T).Path (fun s a => C s a ∧ ¬ Wakes s w c a) s v)
    (listed : w ∈ waitingOf s c) : w ∈ waitingOf v c :=
  path.keeps (I := fun s => w ∈ waitingOf s c) (fun _ _ _ here meets run => waiting_kept run meets.2 here) listed

theorem listed_of_release (run : (machine T).step s a = some v) (release : Releases s a w c m)
    (alone : ReleaseUncontended s a) : w ∈ waitingOf v c := by
  obtain ⟨rfl, ⟨condition, found⟩, mtx, lock, owner, last⟩ := release
  have nobody : mtx.waiting = [] := alone mtx ⟨condition, found⟩ lock owner last
  obtain ⟨-, -, rfl⟩ := Program.step_call run
  have unlocked : enter w (.condWait c m) s = condEnqueue w c m none (log (.unlocked w m)
        (setMutex m { mtx with count := mtx.decCount, current := none } s)) := by
    simp [enter, dcePthreadCondWait, found, dcePthreadMutexUnlock, lock, owner, last, nobody, unlockReturn]
  have kept : (log (.unlocked w m) (setMutex m { mtx with
    count := mtx.decCount, current := none } s)).shared.conditions c =
        some condition := found
  change w ∈ waitingOf (enter w (.condWait c m) s) c
  rw [unlocked]
  exact condEnqueue_listed kept none

theorem notifies_of_listed {op : Op} (which : op = .condSignal c ∨ op = .condBroadcast c)
    (run : (machine T).step s (.call t op) = some v) (listed : w ∈ waitingOf s c) :
    Notifies s v w c op := by
  obtain ⟨-, -, rfl⟩ := Program.step_call run
  have found : ∃ condition, s.shared.conditions c = some condition ∧ w ∈ condition.waiting := by
    unfold waitingOf at listed
    split at listed
    · cases listed
    next condition found => exact ⟨condition, found, listed⟩
  obtain ⟨condition, found, mem⟩ := found
  have queue : waitingOf s c = condition.waiting := by simp [waitingOf, found]
  refine ⟨listed, fun same => ?_, fun same => ?_⟩
  · have woken : ((program T).enter t op s).status = (s.wakeAll condition.waiting).status := by
      subst same
      simp [program, enter, dcePthreadCondBroadcast, found, setCondition]
    rw [woken, Ne, World.wakeAll_status_blocked]
    exact fun asleep => asleep.1 mem
  · obtain ⟨u, rest, first⟩ : ∃ u rest, condition.waiting = u :: rest :=
      List.exists_cons_of_ne_nil (List.ne_nil_of_mem mem)
    have woken : ((program T).enter t op s).status = (s.wake u).status := by
      subst same
      simp [program, enter, dcePthreadCondSignal, found, first, setCondition]
    refine ⟨u, rest, queue.trans first, ?_⟩
    rw [woken, Ne, World.wake_status_blocked]
    exact fun asleep => asleep.1 rfl

end

/-- No wakeup is lost where every condition wait gives up a mutex nobody waits for. -/
theorem keepsWakeups_of_releaseUncontended (T : Type*) [DecidableEq T] : KeepsWakeups T ReleaseUncontended := by
  intro s₀ s₁ s₂ s₃ s₄ s₅ a b w t c m op _ alone run release before _ still taken _ _ after which _ call
  have listed : w ∈ waitingOf s₁ c := listed_of_release run release alone
  have listed : w ∈ waitingOf s₂ c := waiting_kept_along before listed
  have listed : w ∈ waitingOf s₃ c := waiting_kept taken still listed
  have listed : w ∈ waitingOf s₄ c := waiting_kept_along after listed
  exact notifies_of_listed which call listed

/-- Two threads, a mutex and a condition variable. -/
def twoThreads : W Bool where
  current := none
  status _ := .active
  place _ := .own none
  now := 0
  wakeAt _ := none
  shared :=
    { mutexes := fun m => if m = 0 then some ⟨.NORMAL, 0, [], none⟩ else none
      conditions := fun c => if c = 0 then some ⟨[]⟩ else none
      history := [] }

theorem twoThreads_start : (machine Bool).init twoThreads where
  main := rfl
  ready _ := .inl rfl
  own _ := rfl
  shared :=
    { mutexes := fun m mtx found => by
        by_cases zero : m = 0
        · simp only [zero] at found
          cases found
          exact ⟨rfl, rfl, rfl⟩
        · simp [twoThreads, zero] at found
      conditions := fun c condition found => by
        by_cases zero : c = 0
        · simp only [zero] at found
          cases found
          rfl
        · simp [twoThreads, zero] at found
      history := rfl }

/-- The waiter locks the mutex and gives way, the signaller queues on the mutex, and
control is back with the waiter. -/
def toContended : List (Act Bool Op Unit) :=
  [.dispatch false (), .call false (.lock 0), .yield false, .dispatch true (), .call true (.lock 0),
    .dispatch false ()]

def contended : W Bool := ((machine Bool).replay twoThreads toContended).getD twoThreads

/-- The waiter has called `cond_wait`: its unlock woke the signaller and gave way. -/
def released : W Bool :=
  ((machine Bool).replay contended [.call false (.condWait 0 0)]).getD contended

/-- The signaller has the mutex. -/
def signallerIn : W Bool := ((machine Bool).replay released [.dispatch true ()]).getD released

/-- The signal that finds no waiter: it is called between the release and the enqueue. -/
theorem not_keepsWakeups : ¬ KeepsWakeups Bool fun _ _ => True := by
  intro keeps
  have run : (machine Bool).replay twoThreads toContended = some contended := rfl
  have reach : (machine Bool).Reach contended :=
    (Machine.ReachBy.start twoThreads_start).replay (fun _ _ => trivial) run
  have release : Releases contended (.call false (.condWait 0 0)) false 0 0 :=
    ⟨rfl, ⟨_, rfl⟩, _, rfl, rfl, rfl⟩
  have silent : ¬ Wakes released false 0 (.dispatch true ()) := by rintro ⟨⟩
  have served := keeps contended released released signallerIn signallerIn _
    (.call false (.condWait 0 0)) (.dispatch true ()) false true 0 0 (.condSignal 0)
    reach trivial rfl release (.refl _) trivial silent rfl (by decide) rfl (.refl _) (.inl rfl)
    trivial rfl
  have empty : waitingOf signallerIn 0 = [] := rfl
  have listed := served.1
  cases listed

/-- The waiter holds the mutex and nobody else has asked for it. -/
def waiterAlone : W Bool :=
  ((machine Bool).replay twoThreads [.dispatch false (), .call false (.lock 0)]).getD twoThreads

/-- The waiter waits on the condition variable and the signaller is in control. -/
def waiterAsleep : W Bool :=
  ((machine Bool).replay waiterAlone [.call false (.condWait 0 0), .dispatch true ()]).getD waiterAlone

/-- The signaller has the mutex, and then it has signalled. -/
def signallerAfter : W Bool × W Bool :=
  let locked := ((machine Bool).replay waiterAsleep [.call true (.lock 0)]).getD waiterAsleep
  (locked, ((machine Bool).replay locked [.call true (.condSignal 0)]).getD locked)

theorem keepsWakeups_waiterAlone : Notifies signallerAfter.1 signallerAfter.2 false 0 (.condSignal 0) := by
  have reach : (machine Bool).ReachBy ReleaseUncontended waiterAlone :=
    .next (a := .call false (.lock 0))
      (.next (a := .dispatch false ()) (.start twoThreads_start) trivial rfl) trivial rfl
  have alone : ReleaseUncontended waiterAlone (.call false (.condWait 0 0)) := by
    intro mtx _ lock _ _
    cases lock
    rfl
  have release : Releases waiterAlone (.call false (.condWait 0 0)) false 0 0 :=
    ⟨rfl, ⟨_, rfl⟩, _, rfl, rfl, rfl⟩
  have before : (machine Bool).Path (fun s a => ReleaseUncontended s a ∧ ¬ Wakes s false 0 a)
      ((program Bool).enter false (.condWait 0 0) waiterAlone) waiterAsleep :=
    .next (.refl _) (a := .dispatch true ()) ⟨trivial, by rintro ⟨⟩⟩ rfl
  exact keepsWakeups_of_releaseUncontended Bool waiterAlone _ waiterAsleep signallerAfter.1
    signallerAfter.1 signallerAfter.2 (.call false (.condWait 0 0)) (.call true (.lock 0)) false true 0 0
    (.condSignal 0) reach alone rfl release before trivial (by rintro ⟨⟩) rfl (by decide) rfl
    (.refl _) (.inl rfl) trivial rfl

end Dce.Pthread
