import Dce.Pthread.MutexInvariant

namespace Dce.Pthread

open Coroutine

variable {T : Type*} [DecidableEq T]

/-- A thread is in the critical section of `m` while it has locked `m` more often than
it has unlocked it. -/
def InCritical (s : W T) (t : T) (m : Nat) : Prop := unlocksOf s t m < locksOf s t m

structure MutexSafe (s : W T) (m : Nat) (mtx : Mutex T) : Prop where
  owned : 1 ≤ mtx.count ↔ ∃ t, mtx.current = some t
  alone : ∀ t u, InCritical s t m → InCritical s u m → t = u
  depth : ∀ t, mtx.current = some t → mtx.count = locksOf s t m - unlocksOf s t m ∧ unlocksOf s t m ≤ locksOf s t m
  refuses : ∀ t v, mtx.current ≠ some t → (machine T).step s (.call t (.unlock m)) = some v → v = s.ret t .EPERM
  handover : mtx.count = 0 → mtx.waiting ≠ [] → ∃ t ∈ mtx.waiting, s.Runnable t

/-- Every mutex is safe in every state of the runs along `C`. -/
def KeepsMutexes (T : Type*) [DecidableEq T] (C : W T → Act T Op Unit → Prop) : Prop :=
  ∀ s m mtx, (machine T).ReachBy C s → s.shared.mutexes m = some mtx → MutexSafe s m mtx

/-- A recursive mutex is not locked again by an owner whose locks `mtx->count` cannot
count: it is a `uint32_t`. -/
def NoWrap (s : W T) : Act T Op Unit → Prop
  | .call t (.lock m) | .call t (.trylock m) => ∀ mtx, s.shared.mutexes m = some mtx →
      mtx.type = .RECURSIVE → mtx.current = some t → mtx.count + 1 < 2 ^ 32
  | _ => True

variable {s v : W T} {t : T} {m : Nat} {mtx : Mutex T} {a : Act T Op Unit}

theorem Good.enter {op : Op} (good : ∀ m, Good s m) (own : ∃ r, s.place t = .own r)
    (alive : ∀ u k, s.place u = .inside k → s.status u ≠ .dead) (fits : NoWrap s (.call t op))
    (m : Nat) : Good (Pthread.enter t op s) m := by
  have away := (good m).away own
  have stays : Good (s.ret t .EINVAL) m :=
    (good m).spare (World.Moves.ret s t _).toSpares (.refl _ _) away (fun mtx f _ inside => by simp at inside)
  have unlocks (n : Nat) (next : Option (Nat × Option Nat)) : Good (dcePthreadMutexUnlock t n next s) m := by
    by_cases same : m = n
    · subst same
      exact unlock_good (good m) own alive
    · refine (good m).spare (unlock_moves next).toSpares (unlock_same next same) away ?_
      intro mtx f _ inside gaveUp
      rcases unlock_place inside with rfl | ⟨d, limit, rfl⟩
      · exact absurd gaveUp.symm same
      · exact absurd gaveUp.symm same
  cases op with
  | lock n =>
    by_cases same : m = n
    · subst same
      exact lock_good (good m) away fits
    · refine (good m).spare (lock_moves none).toSpares (lock_same none same) away ?_
      intro mtx f _ inside gaveUp
      cases lock_place inside
      cases gaveUp
  | trylock n =>
    by_cases same : m = n
    · subst same
      exact trylock_good (good m) away fits
    · exact (good m).spare trylock_moves.toSpares (trylock_same same) away (fun mtx f _ inside =>
        absurd inside trylock_place)
  | unlock n => exact unlocks n none
  | condWait c n =>
    rw [Pthread.enter, dcePthreadCondWait]
    split
    · exact stays
    · exact unlocks n _
  | condTimedwait c n abstime =>
    rw [Pthread.enter, dcePthreadCondTimedwait]
    split
    · exact stays
    · exact unlocks n _
  | condSignal c =>
    exact (good m).spare signal_moves.toSpares signal_same away (fun mtx f _ inside => absurd inside signal_place)
  | condBroadcast c =>
    exact (good m).spare broadcast_moves.toSpares broadcast_same away (fun mtx f _ inside =>
      absurd inside broadcast_place)

theorem Good.away_inside {f : Frame} (good : Good s m) (inside : s.place t = .inside f)
    (other : ∀ code, f ≠ .lock m code) : ∀ mtx, s.shared.mutexes m = some mtx → t ∉ mtx.waiting := by
  intro mtx found mem
  obtain ⟨code, here⟩ := (good mtx found).listed t mem
  exact other code (by simpa [inside] using here)

theorem Good.resume {f : Frame} (e : Unit) (good : ∀ m, Good s m) (inside : s.place t = .inside f)
    (m : Nat) : Good (Pthread.resume t f e s) m := by
  cases f with
  | lock n code =>
    by_cases same : m = n
    · subst same
      exact resumeLock_good (good m)
    · refine (good m).spare (removeWaiting_moves.trans (lockLoop_moves code)).toSpares
        ((removeWaiting_same same).trans (lockLoop_same code same))
        ((good m).away_inside inside fun _ h => same (by cases h; rfl)) ?_
      intro mtx f _ here gaveUp
      cases lockLoop_place here
      cases gaveUp
  | unlock n next =>
    have away := (good m).away_inside inside nofun
    refine (good m).spare (unlockReturn_moves next .success).toSpares (unlockReturn_same next .success) away ?_
    intro mtx f found here gaveUp owner
    obtain ⟨c, timeout, rfl⟩ := unlockReturn_place here
    exact (good m mtx found).rejoin t _ inside gaveUp owner
  | condWait c n timeout =>
    have away := (good m).away_inside inside nofun
    by_cases same : m = n
    · subst same
      exact lock_good (good m) away (fun mtx found _ owner => (good m mtx found).rejoin t _ inside rfl owner)
    · refine (good m).spare (lock_moves _).toSpares (lock_same _ same) away ?_
      intro mtx f _ here gaveUp
      cases lock_place here
      cases gaveUp

theorem Good.idle (good : Good s m) (idle : Program.Idle s v) : Good v m := by
  intro mtx found
  rw [idle.shared] at found
  have ok := good mtx found
  have inside : ∀ u f, v.place u = .inside f → s.place u = .inside f := fun u f here => idle.place ▸ here
  refine ⟨⟨fun u mem => idle.place ▸ ok.listed u mem, ok.bound, ok.owned, fun u => ?_,
    fun u f here => ok.rejoin u f (inside u f here)⟩, fun free queue => ?_⟩
  · rw [locksOf, unlocksOf, idle.shared]
    exact ok.tally u
  · obtain ⟨u, mem, ready⟩ := ok.handover free queue
    obtain ⟨code, waits⟩ := ok.listed u mem
    refine ⟨u, mem, fun asleep => ?_, fun dead => ?_⟩
    · rcases idle.asleep u asleep with before | ⟨r, own⟩
      · exact ready.1 before
      · rw [own] at waits
        cases waits
    · rcases idle.dead u dead with before | ⟨r, own⟩
      · exact ready.2 before
      · rw [own] at waits
        cases waits

theorem good_of_reach (reach : (machine T).ReachBy NoWrap s) : ∀ m, Good s m := by
  refine reach.invariant'
    (I := fun s => ∀ m, Good s m) (fun s first m mtx found => ?_) fun s a v before good fits run m => ?_
  · obtain ⟨count, waiting, current⟩ := first.shared.mutexes m mtx found
    have none : s.shared.history = [] := first.shared.history
    exact ⟨⟨by simp [waiting], by simp [count], by simp [count, current],
      by simp [locksOf, unlocksOf, none, current], by simp [current]⟩, by simp [waiting]⟩
  · have alive : ∀ u k, s.place u = .inside k → s.status u ≠ .dead := fun u k inside =>
      (program_cooperative T).inside_alive before inside
    rcases Program.step_cases run with
      ⟨t, op, r, rfl, -, own, rfl⟩ | ⟨t, e, f, rfl, -, -, inside, rfl⟩ | idle
    · exact Good.enter good ⟨r, own⟩ alive fits m
    · exact Good.resume e (fun m => (good m).give t) inside m
    · exact (good m).idle idle

/-- Every mutex is safe in the runs in which no owner of a recursive mutex locks it
`2 ^ 32` times. -/
theorem keepsMutexes_of_noWrap (T : Type*) [DecidableEq T] : KeepsMutexes T NoWrap := by
  intro s m mtx reach found
  have ok := good_of_reach reach m mtx found
  have critical : ∀ t, InCritical s t m → mtx.current = some t := by
    intro t inside
    have tally := ok.tally t
    unfold InCritical at inside
    by_contra other
    simp only [other, if_false] at tally
    omega
  refine ⟨?_, fun t u one two => ?_, fun t owner => ?_, fun t v other run => ?_, fun free => ?_⟩
  · rw [Nat.one_le_iff_ne_zero, Ne, ok.owned, ← Option.ne_none_iff_exists']
  · exact Option.some.inj ((critical t one).symm.trans (critical u two))
  · have tally := ok.tally t
    simp only [owner, if_true] at tally
    omega
  · obtain ⟨-, -, rfl⟩ := Program.step_call run
    exact unlock_notOwner found other
  · exact ok.handover (ok.owned.mp free)

/-- One thread and a recursive mutex. -/
def oneThread : W Unit where
  current := none
  status _ := .active
  place _ := .own none
  now := 0
  wakeAt _ := none
  shared :=
    { mutexes := fun m => if m = 0 then some ⟨.RECURSIVE, 0, [], none⟩ else none
      conditions := fun _ => none
      history := [] }

theorem oneThread_start : (machine Unit).init oneThread where
  main := rfl
  ready _ := .inl rfl
  own _ := rfl
  shared :=
    { mutexes := fun m mtx found => by
        by_cases zero : m = 0
        · simp only [zero] at found
          cases found
          exact ⟨rfl, rfl, rfl⟩
        · simp [oneThread, zero] at found
      conditions := fun c condition found => by cases found
      history := rfl }

/-- The thread has locked the mutex `n` times, at least once. -/
structure Nested (s : W Unit) (n : Nat) : Prop where
  here : s.current = some ()
  own : ∃ r, s.place () = .own r
  mutex : s.shared.mutexes 0 = some ⟨.RECURSIVE, n % 2 ^ 32, [], some ()⟩

theorem reach_nested (n : Nat) : ∃ s, (machine Unit).Reach s ∧ Nested s (n + 1) := by
  induction n with
  | zero =>
    have given : (machine Unit).Reach (oneThread.give ()) :=
      .next (a := .dispatch () ()) (.start oneThread_start) trivial rfl
    exact ⟨_, .next (a := .call () (.lock 0)) given trivial rfl, ⟨rfl, ⟨_, rfl⟩, rfl⟩⟩
  | succ n ih =>
    obtain ⟨s, reach, here, ⟨r, own⟩, mutex⟩ := ih
    have run : (machine Unit).step s (.call () (.lock 0)) = some (dcePthreadMutexLock () 0 none s) := by
      simp [machine, Program.machine, Program.step, own, here, program, enter]
    refine ⟨_, .next reach trivial run, ?_⟩
    have relock : dcePthreadMutexLock () 0 none s =
        (log (.locked () 0) (setMutex 0 ⟨.RECURSIVE, (n + 1 + 1) % 2 ^ 32, [], some ()⟩ s)).ret () .success := by
      simp [dcePthreadMutexLock, mutex, Mutex.incCount]
    rw [relock]
    exact ⟨here, ⟨_, by simp; rfl⟩, by simp [log, setMutex]⟩

/-- A mutex with an owner and a count of zero: `2 ^ 32` nested locks. -/
theorem not_keepsMutexes : ¬ KeepsMutexes Unit fun _ _ => True := by
  intro keeps
  obtain ⟨s, reach, nested⟩ := reach_nested (2 ^ 32 - 1)
  have safe := keeps s 0 _ reach nested.mutex
  have counted := safe.owned.mpr ⟨(), rfl⟩
  simp at counted

end Dce.Pthread
