import Dce.Pthread.Model

/- What each mutex and condition variable operation leaves alone: the other threads, the
other mutexes, and the frames a thread can be left in. -/

namespace Dce.Pthread

open Coroutine

variable {T : Type*} [DecidableEq T] {s v : W T} {t u : T} {m n c : Nat} {f : Frame}

/-- Mutex `n` and its history are the same in `p` and `q`. -/
structure SameMutex (n : Nat) (p q : Process T) : Prop where
  mutex : q.mutexes n = p.mutexes n
  locks : ∀ u, q.history.count (.locked u n) = p.history.count (.locked u n)
  unlocks : ∀ u, q.history.count (.unlocked u n) = p.history.count (.unlocked u n)

theorem SameMutex.refl (n : Nat) (p : Process T) : SameMutex n p p :=
  ⟨rfl, fun _ => rfl, fun _ => rfl⟩

variable {p q : Process T} {mtx : Mutex T} {code : Option Code} {next : Option (Nat × Option Nat)}

theorem SameMutex.of_eq (mutexes : q.mutexes = p.mutexes) (history : q.history = p.history) : SameMutex n p q :=
  ⟨by rw [mutexes], fun _ => by rw [history], fun _ => by rw [history]⟩

theorem SameMutex.trans {r : Process T} (first : SameMutex n p q) (second : SameMutex n q r) : SameMutex n p r where
  mutex := second.mutex.trans first.mutex
  locks u := (second.locks u).trans (first.locks u)
  unlocks u := (second.unlocks u).trans (first.unlocks u)

theorem sameMutex_setMutex (other : n ≠ m) : SameMutex n s.shared (setMutex m mtx s).shared :=
  ⟨by simp [setMutex, other], fun _ => rfl, fun _ => rfl⟩

theorem sameMutex_locked (other : n ≠ m) : SameMutex n s.shared (log (.locked t m) (setMutex m mtx s)).shared where
  mutex := by simp [log, setMutex, other]
  locks u := by simp [log, setMutex, Ne.symm other]
  unlocks u := by simp [log, setMutex]

theorem sameMutex_unlocked (other : n ≠ m) :
    SameMutex n s.shared (log (.unlocked t m) (setMutex m mtx s)).shared where
  mutex := by simp [log, setMutex, other]
  locks u := by simp [log, setMutex]
  unlocks u := by simp [log, setMutex, Ne.symm other]

theorem wake_yieldAt_same (s : W T) (f : Frame) : SameMutex n s.shared ((s.wake u).yieldAt t f).shared :=
  .of_eq (by simp) (by simp)

theorem lockLoop_same (code : Option Code) (other : n ≠ m) : SameMutex n s.shared (lockLoop t m code s).shared := by
  unfold lockLoop
  split
  · exact .refl _ _
  · split
    · exact sameMutex_setMutex other
    · exact sameMutex_locked other

theorem lock_same (code : Option Code) (other : n ≠ m) :
    SameMutex n s.shared (dcePthreadMutexLock t m code s).shared := by
  unfold dcePthreadMutexLock
  split
  · exact .refl _ _
  · split
    · split
      · exact sameMutex_locked other
      · exact .refl _ _
    · exact lockLoop_same code other

theorem trylock_same (other : n ≠ m) : SameMutex n s.shared (dcePthreadMutexTrylock t m s).shared := by
  unfold dcePthreadMutexTrylock
  split
  · exact .refl _ _
  · split
    · exact sameMutex_locked other
    · split
      · exact sameMutex_locked other
      · exact .refl _ _
    · exact .refl _ _

theorem removeWaiting_same (other : n ≠ m) : SameMutex n s.shared (removeWaiting t m s).shared := by
  unfold removeWaiting
  split
  · exact .refl _ _
  · exact sameMutex_setMutex other

theorem condEnqueue_same (timeout : Option Nat) : SameMutex n s.shared (condEnqueue t c m timeout s).shared := by
  unfold condEnqueue
  split
  · exact .refl _ _
  · split <;> exact .of_eq rfl rfl

section

variable (next : Option (Nat × Option Nat))

theorem unlockReturn_same (r : Code) : SameMutex n s.shared (unlockReturn t m next r s).shared := by
  unfold unlockReturn
  split
  · exact .refl _ _
  · exact condEnqueue_same _

theorem unlock_same (other : n ≠ m) : SameMutex n s.shared (dcePthreadMutexUnlock t m next s).shared := by
  unfold dcePthreadMutexUnlock
  split
  · exact unlockReturn_same next _
  · split
    · exact unlockReturn_same next _
    · split
      · split
        · exact (sameMutex_unlocked other).trans (unlockReturn_same next _)
        · exact (sameMutex_unlocked other).trans (wake_yieldAt_same _ _)
      · exact (sameMutex_unlocked other).trans (unlockReturn_same next _)

theorem signal_same : SameMutex n s.shared (dcePthreadCondSignal t c s).shared := by
  unfold dcePthreadCondSignal
  split
  · exact .refl _ _
  · split
    · exact .refl _ _
    · exact .of_eq (by simp [setCondition]) (by simp [setCondition])

theorem broadcast_same : SameMutex n s.shared (dcePthreadCondBroadcast t c s).shared := by
  unfold dcePthreadCondBroadcast
  split
  · exact .refl _ _
  · exact .of_eq (by simp [setCondition]) (by simp [setCondition])

omit [DecidableEq T] in
theorem moves_shared (p : Process T) : World.Moves t s { s with shared := p } := .of_eq rfl rfl rfl

theorem lockLoop_moves (code : Option Code) : World.Moves t s (lockLoop t m code s) := by
  unfold lockLoop
  split
  · exact .ret _ _ _
  · split
    · exact (moves_shared _).trans (.sleep _ _ _)
    · exact (moves_shared _).trans (.ret _ _ _)

theorem lock_moves (code : Option Code) : World.Moves t s (dcePthreadMutexLock t m code s) := by
  unfold dcePthreadMutexLock
  split
  · exact .ret _ _ _
  · split
    · split
      · exact (moves_shared _).trans (.ret _ _ _)
      · exact .ret _ _ _
    · exact lockLoop_moves code

theorem trylock_moves : World.Moves t s (dcePthreadMutexTrylock t m s) := by
  unfold dcePthreadMutexTrylock
  split
  · exact .ret _ _ _
  · split
    · exact (moves_shared _).trans (.ret _ _ _)
    · split
      · exact (moves_shared _).trans (.ret _ _ _)
      · exact .ret _ _ _
    · exact .ret _ _ _

theorem removeWaiting_moves : World.Moves t s (removeWaiting t m s) := by
  unfold removeWaiting
  split
  · exact .refl _ _
  · exact moves_shared _

theorem condEnqueue_moves (timeout : Option Nat) : World.Moves t s (condEnqueue t c m timeout s) := by
  unfold condEnqueue
  split
  · exact .ret _ _ _
  · split
    · exact (moves_shared _).trans (.sleep _ _ _)
    · exact (moves_shared _).trans (.sleep _ _ _)
    · exact (moves_shared _).trans (.sleepUntil _ _ _ _)

theorem unlockReturn_moves (r : Code) : World.Moves t s (unlockReturn t m next r s) := by
  unfold unlockReturn
  split
  · exact .ret _ _ _
  · exact condEnqueue_moves _

theorem unlock_moves : World.Moves t s (dcePthreadMutexUnlock t m next s) := by
  unfold dcePthreadMutexUnlock
  split
  · exact unlockReturn_moves next _
  · split
    · exact unlockReturn_moves next _
    · split
      · split
        · exact (moves_shared _).trans (unlockReturn_moves next _)
        · exact (moves_shared _).trans ((World.Moves.wake _ _ _).trans (.yieldAt _ _ _))
      · exact (moves_shared _).trans (unlockReturn_moves next _)

end

theorem signal_moves : World.Moves t s (dcePthreadCondSignal t c s) := by
  unfold dcePthreadCondSignal
  split
  · exact .ret _ _ _
  · split
    · exact .ret _ _ _
    · exact (World.Moves.wake _ _ _).trans ((moves_shared _).trans (.ret _ _ _))

theorem broadcast_moves : World.Moves t s (dcePthreadCondBroadcast t c s) := by
  unfold dcePthreadCondBroadcast
  split
  · exact .ret _ _ _
  · exact (World.Moves.wakeAll _ _ _).trans ((moves_shared _).trans (.ret _ _ _))

theorem program_cooperative (T : Type*) [DecidableEq T] : (program T).Cooperative where
  enter t op s := by
    change World.Moves t s (enter t op s)
    cases op with
    | lock m => exact lock_moves none
    | trylock m => exact trylock_moves
    | unlock m => exact unlock_moves none
    | condWait c m =>
      rw [enter, dcePthreadCondWait]
      split
      · exact .ret _ _ _
      · exact unlock_moves _
    | condTimedwait c m abstime =>
      rw [enter, dcePthreadCondTimedwait]
      split
      · exact .ret _ _ _
      · exact unlock_moves _
    | condSignal c => exact signal_moves
    | condBroadcast c => exact broadcast_moves
  resume t frame e s := by
    cases frame with
    | lock m code => exact removeWaiting_moves.trans (lockLoop_moves code)
    | unlock m next => exact unlockReturn_moves next .success
    | condWait c m timeout => exact lock_moves _

theorem lockLoop_place (inside : (lockLoop t m code s).place t = .inside f) : f = .lock m code := by
  unfold lockLoop at inside
  split at inside
  · simp at inside
  · split at inside
    · simpa using inside.symm
    · simp at inside

theorem lock_place (inside : (dcePthreadMutexLock t m code s).place t = .inside f) : f = .lock m code := by
  unfold dcePthreadMutexLock at inside
  split at inside
  · simp at inside
  · split at inside
    · split at inside <;> simp at inside
    · exact lockLoop_place inside

theorem trylock_place : (dcePthreadMutexTrylock t m s).place t ≠ .inside f := by
  unfold dcePthreadMutexTrylock
  split
  · simp
  · split
    · simp
    · split <;> simp
    · simp

theorem unlockReturn_place {r : Code} (inside : (unlockReturn t m next r s).place t = .inside f) :
    ∃ c timeout, f = .condWait c m timeout := by
  unfold unlockReturn at inside
  split at inside
  · simp at inside
  next c timeout =>
    refine ⟨c, timeout, ?_⟩
    unfold condEnqueue at inside
    split at inside
    · simp at inside
    · split at inside <;> simpa using inside.symm

theorem unlock_place (inside : (dcePthreadMutexUnlock t m next s).place t = .inside f) :
    f = .unlock m next ∨ ∃ c timeout, f = .condWait c m timeout := by
  unfold dcePthreadMutexUnlock at inside
  split at inside
  · exact .inr (unlockReturn_place inside)
  · split at inside
    · exact .inr (unlockReturn_place inside)
    · split at inside
      · split at inside
        · exact .inr (unlockReturn_place inside)
        · exact .inl (by simpa using inside.symm)
      · exact .inr (unlockReturn_place inside)

theorem signal_place : (dcePthreadCondSignal t c s).place t ≠ .inside f := by
  unfold dcePthreadCondSignal
  split
  · simp
  · split <;> simp

theorem broadcast_place : (dcePthreadCondBroadcast t c s).place t ≠ .inside f := by
  unfold dcePthreadCondBroadcast
  split <;> simp

end Dce.Pthread
