import Dce.Pthread.MutexSteps

namespace Dce.Pthread

open Coroutine Option

variable {T : Type*} [DecidableEq T]

/-- The locks of `m` that `t` has been given so far. -/
def locksOf (s : W T) (t : T) (m : Nat) : Nat := s.shared.history.count (.locked t m)

/-- The unlocks of `m` that `t` has made so far. -/
def unlocksOf (s : W T) (t : T) (m : Nat) : Nat := s.shared.history.count (.unlocked t m)

/-- The thread in this frame has given a lock of `m` up, or has been told that it had none. -/
def Frame.GaveUp (m : Nat) : Frame → Prop
  | .lock _ _ => False
  | .unlock n _ | .condWait _ n _ => n = m

/-- What holds of mutex `m` at every point where a thread runs. -/
structure MutexCore (s : W T) (m : Nat) (mtx : Mutex T) : Prop where
  listed : ∀ t ∈ mtx.waiting, ∃ code, s.place t = .inside (.lock m code)
  bound : mtx.count < 2 ^ 32
  owned : mtx.count = 0 ↔ mtx.current = none
  tally : ∀ t, locksOf s t m = unlocksOf s t m + if mtx.current = some t then mtx.count else 0
  /-- So an owner that waits can have that lock back. -/
  rejoin : ∀ t f, s.place t = .inside f → f.GaveUp m → mtx.current = some t → mtx.count + 1 < 2 ^ 32

/-- What holds besides between the steps: a free mutex has been handed to a listed thread. -/
structure MutexOk (s : W T) (m : Nat) (mtx : Mutex T) : Prop extends MutexCore s m mtx where
  handover : mtx.current = none → mtx.waiting ≠ [] → ∃ t ∈ mtx.waiting, s.Runnable t

def Good (s : W T) (m : Nat) : Prop := ∀ mtx, s.shared.mutexes m = some mtx → MutexOk s m mtx

variable {s v : W T} {t u : T} {m n : Nat} {mtx mtx' : Mutex T}

theorem MutexCore.update (core : MutexCore s m mtx) (spares : World.Spares t s v) (listed : ∀ u ∈ mtx'.waiting,
      u ≠ t ∧ u ∈ mtx.waiting ∨ u = t ∧ ∃ code, v.place t = .inside (.lock m code))
    (bound : mtx'.count < 2 ^ 32) (owned : mtx'.count = 0 ↔ mtx'.current = none)
    (tally : ∀ t, locksOf v t m = unlocksOf v t m + if mtx'.current = some t then mtx'.count else 0)
    (others : ∀ u, u ≠ t → mtx'.current = some u → mtx.current = some u ∧ mtx'.count = mtx.count)
    (mine : ∀ f, v.place t = .inside f → f.GaveUp m → mtx'.current = some t → mtx'.count + 1 < 2 ^ 32) :
    MutexCore v m mtx' where
  listed u mem := by
    rcases listed u mem with ⟨other, old⟩ | ⟨rfl, here⟩
    · rw [spares.place u other]
      exact core.listed u old
    · exact here
  bound := bound
  owned := owned
  tally := tally
  rejoin u f inside gaveUp owner := by
    by_cases same : u = t
    · subst same
      exact mine f inside gaveUp owner
    · obtain ⟨before, count⟩ := others u same owner
      rw [count]
      exact core.rejoin u f (spares.place u same ▸ inside) gaveUp before

theorem Good.spare (good : Good s m) (spares : World.Spares t s v) (same : SameMutex m s.shared v.shared)
    (away : ∀ mtx, s.shared.mutexes m = some mtx → t ∉ mtx.waiting)
    (mine : ∀ mtx f, s.shared.mutexes m = some mtx → v.place t = .inside f → f.GaveUp m →
      mtx.current = some t → mtx.count + 1 < 2 ^ 32) : Good v m := by
  intro mtx found
  rw [same.mutex] at found
  have ok := good mtx found
  have apart : ∀ u ∈ mtx.waiting, u ≠ t := fun u mem same => away mtx found (same ▸ mem)
  have core := ok.toMutexCore.update spares (fun u mem => .inl ⟨apart u mem, mem⟩) ok.bound ok.owned
    (fun u => by rw [locksOf, unlocksOf, same.locks, same.unlocks]; exact ok.tally u)
    (fun _ _ owner => ⟨owner, rfl⟩) (fun f inside gaveUp owner => mine mtx f found inside gaveUp owner)
  refine ⟨core, fun free queue => ?_⟩
  obtain ⟨u, mem, ready⟩ := ok.handover free queue
  exact ⟨u, mem, spares.runnable (apart u mem) ready⟩

theorem good_of_core (found : v.shared.mutexes m = some mtx) (core : MutexCore v m mtx)
    (handover : mtx.current = none → mtx.waiting ≠ [] → ∃ t ∈ mtx.waiting, v.Runnable t) :
    Good v m := by
  intro mtx' found'
  cases some.inj (found.symm.trans found')
  exact ⟨core, handover⟩

theorem Good.give (good : Good s m) (t : T) : Good (s.give t) m := by
  intro mtx found
  have ok := good mtx found
  refine ⟨⟨ok.listed, ok.bound, ok.owned, ok.tally, ok.rejoin⟩, fun free queue => ?_⟩
  obtain ⟨u, mem, ready⟩ := ok.handover free queue
  by_cases same : u = t
  · subst same
    exact ⟨u, mem, by simp [World.Runnable]⟩
  · exact ⟨u, mem, (World.Spares.give s t).runnable same ready⟩

theorem MutexCore.lock {code : Code} (core : MutexCore s m mtx) (away : t ∉ mtx.waiting)
    (mine : mtx.current = none ∨ mtx.current = some t) (below : mtx.count + 1 < 2 ^ 32) :
    Good ((log (.locked t m) (setMutex m { mtx with
      current := some t, count := mtx.incCount } s)).ret t code) m := by
  have up : mtx.incCount = mtx.count + 1 := Nat.mod_eq_of_lt below
  have spares : World.Spares t s ((log (.locked t m)
      (setMutex m { mtx with current := some t, count := mtx.incCount } s)).ret t code) :=
    ((moves_shared _).trans (.ret _ _ _)).toSpares
  have taken : ((log (.locked t m) (setMutex m { mtx with current := some t, count := mtx.incCount } s)).ret
      t code).shared.mutexes m = some { mtx with current := some t, count := mtx.incCount } := by
    simp [log, setMutex]
  refine good_of_core taken (core.update spares (fun u mem =>
    .inl ⟨fun same => away (same ▸ mem), mem⟩) ?_ ?_ ?_ ?_ ?_)
    (fun free => by simp at free)
  · simpa [up] using below
  · simp [up]
  · intro u
    have old := core.tally u
    simp only [locksOf, unlocksOf] at old ⊢
    by_cases same : u = t
    · subst same
      have held : (if mtx.current = some u then mtx.count else 0) = mtx.count := by
        rcases mine with free | owner
        · simp [core.owned.mpr free]
        · simp [owner]
      simp [log, setMutex]
      omega
    · have apart : mtx.current ≠ some u := by
        rcases mine with free | owner
        · simp [free]
        · simp [owner, Ne.symm same]
      simpa [log, setMutex, Ne.symm same, apart] using old
  · intro u other owner
    exact absurd (some.inj owner).symm other
  · intro f inside
    simp at inside

theorem MutexCore.relock {code : Code} (core : MutexCore s m mtx) (away : t ∉ mtx.waiting)
    (owner : mtx.current = some t) (below : mtx.count + 1 < 2 ^ 32) :
    Good ((log (.locked t m) (setMutex m { mtx with count := mtx.incCount } s)).ret t code) m := by
  have same : ({ mtx with count := mtx.incCount } : Mutex T) =
      { mtx with current := some t, count := mtx.incCount } := by rw [owner]
  rw [same]
  exact core.lock away (.inr owner) below

variable {code : Option Code} {current : Option T} {next : Option (Nat × Option Nat)} {rest : List T}

theorem lockLoop_good (found : s.shared.mutexes m = some mtx)
    (core : MutexCore s m mtx) (away : t ∉ mtx.waiting) : Good (lockLoop t m code s) m := by
  have free_below : mtx.current = none → mtx.count + 1 < 2 ^ 32 := fun free => by
    rw [core.owned.mpr free]; omega
  cases taken : mtx.current with
  | none =>
    simp only [lockLoop, found, taken]
    exact core.lock away (.inl taken) (free_below taken)
  | some owner =>
    simp only [lockLoop, found, taken]
    have spares : World.Spares t s ((setMutex m
        { mtx with waiting := mtx.waiting ++ [t], current := some owner } s).sleep t (.lock m code)) :=
      ((moves_shared _).trans (.sleep _ _ _)).toSpares
    have queued : MutexCore ((setMutex m
        { mtx with waiting := mtx.waiting ++ [t], current := some owner } s).sleep t (.lock m code)) m
        { mtx with waiting := mtx.waiting ++ [t], current := some owner } := by
      refine core.update spares (fun u mem => ?_) core.bound ?_ ?_ ?_ ?_
      · rcases List.mem_append.mp mem with old | new
        · exact .inl ⟨fun same => away (same ▸ old), old⟩
        · cases List.mem_singleton.mp new
          exact .inr ⟨rfl, code, by simp⟩
      · simpa [taken] using core.owned
      · intro u
        simpa [locksOf, unlocksOf, setMutex, taken] using core.tally u
      · exact fun _ _ owner => ⟨taken.trans owner, rfl⟩
      · intro f inside gaveUp
        cases (show f = .lock m code by simpa using inside.symm)
        cases gaveUp
    refine good_of_core ?_ queued (fun free => by cases free)
    simp [setMutex]

section

variable (good : Good s m)
include good

section

variable (away : ∀ mtx, s.shared.mutexes m = some mtx → t ∉ mtx.waiting)
include away

section

variable (below : ∀ mtx, s.shared.mutexes m = some mtx → mtx.type = .RECURSIVE → mtx.current = some t →
      mtx.count + 1 < 2 ^ 32)
include below

theorem lock_good : Good (dcePthreadMutexLock t m code s) m := by
  have stays (r : Code) : Good (s.ret t r) m :=
    good.spare (World.Moves.ret s t r).toSpares (.refl _ _) away (fun mtx f _ inside => by simp at inside)
  unfold dcePthreadMutexLock
  split
  · exact stays _
  next mtx found =>
    split
    next owner =>
      split
      next recursive =>
        exact (good mtx found).relock (away mtx found) owner (below mtx found recursive owner)
      · exact stays _
    · exact lockLoop_good found (good mtx found).toMutexCore (away mtx found)

theorem trylock_good : Good (dcePthreadMutexTrylock t m s) m := by
  have stays (r : Code) : Good (s.ret t r) m :=
    good.spare (World.Moves.ret s t r).toSpares (.refl _ _) away (fun mtx f _ inside => by simp at inside)
  unfold dcePthreadMutexTrylock
  split
  · exact stays _
  next mtx found =>
    have core := (good mtx found).toMutexCore
    split
    next free =>
      exact core.lock (away mtx found) (.inl free) (by rw [core.owned.mpr free]; omega)
    next recursive owner =>
      split
      next mine =>
        subst mine
        exact core.relock (away mtx found) owner (below mtx found recursive owner)
      · exact stays _
    · exact stays _

end

omit away in
theorem removeWaiting_core (found : s.shared.mutexes m = some mtx) :
    MutexCore (removeWaiting t m s) m { mtx with waiting := mtx.waiting.filter (· ≠ t) } := by
  have core := (good mtx found).toMutexCore
  have removed : removeWaiting t m s = setMutex m { mtx with waiting := mtx.waiting.filter (· ≠ t) } s := by
    simp only [removeWaiting, found]
  rw [removed]
  exact ⟨fun u mem => core.listed u ((List.mem_filter.mp mem).1), core.bound, core.owned, core.tally, core.rejoin⟩

omit away in
theorem resumeLock_good : Good (lockLoop t m code (removeWaiting t m s)) m := by
  cases found : s.shared.mutexes m with
  | none =>
    have missing : lockLoop t m code (removeWaiting t m s) = s.ret t (code.getD .EINVAL) := by
      simp [lockLoop, removeWaiting, found]
    intro mtx found'
    rw [missing, World.ret_shared, found] at found'
    cases found'
  | some mtx =>
    refine lockLoop_good ?_ (removeWaiting_core good found) (by simp)
    simp [removeWaiting, found, setMutex]

omit good away in
theorem MutexCore.decCount (core : MutexCore s m mtx) (owner : mtx.current = some t) :
    mtx.decCount = mtx.count - 1 ∧ 1 ≤ mtx.count := by
  have positive : mtx.count ≠ 0 := fun zero => by
    have free := core.owned.mp zero
    rw [owner] at free
    cases free
  have bound := core.bound
  unfold Mutex.decCount
  constructor <;> omega

omit good away in
theorem MutexCore.unlock (core : MutexCore s m mtx) (own : ∃ r, s.place t = .own r) (owner : mtx.current = some t)
    (rest : current = if mtx.decCount = 0 then none else some t) :
    MutexCore (log (.unlocked t m) (setMutex m { mtx with count := mtx.decCount, current := current } s))
      m { mtx with count := mtx.decCount, current := current } := by
  obtain ⟨down, positive⟩ := core.decCount owner
  obtain ⟨r, place⟩ := own
  have away : t ∉ mtx.waiting := fun mem => by
    obtain ⟨code, inside⟩ := core.listed t mem
    rw [place] at inside
    cases inside
  have bound := core.bound
  refine core.update (t := t) (moves_shared _).toSpares
    (fun u mem => .inl ⟨fun same => away (same ▸ mem), mem⟩) ?_ ?_ ?_ ?_ ?_
  · change mtx.decCount < 2 ^ 32
    omega
  · by_cases last : mtx.decCount = 0 <;> simp [rest]
  · intro u
    have old := core.tally u
    simp only [locksOf, unlocksOf] at old ⊢
    by_cases same : u = t
    · subst same
      have held : (if current = some u then mtx.decCount else 0) = mtx.count - 1 := by
        by_cases last : mtx.decCount = 0
        · simp [last]
          omega
        · simp [rest, down]
          omega
      simp only [owner] at old
      simp [log, setMutex, old]
      omega
    · have apart : current ≠ some u := by
        by_cases last : mtx.decCount = 0
        · simp [rest, last]
        · simp [rest, Ne.symm same]
      simpa [log, setMutex, Ne.symm same, apart, owner] using old
  · intro u other held
    by_cases last : mtx.decCount = 0
    · simp [rest, last] at held
    · exact absurd (by simpa [rest, last] using held.symm) other
  · intro f inside
    have still : s.place t = .inside f := inside
    rw [place] at still
    cases still

theorem unlockReturn_good {code : Code}
    (below : ∀ mtx, s.shared.mutexes m = some mtx → mtx.current = some t → mtx.count + 1 < 2 ^ 32) :
    Good (unlockReturn t m next code s) m :=
  good.spare (unlockReturn_moves next code).toSpares (unlockReturn_same next code) away
    (fun mtx _ found _ _ owner => below mtx found owner)

end

theorem Good.away (own : ∃ r, s.place t = .own r) : ∀ mtx, s.shared.mutexes m = some mtx → t ∉ mtx.waiting := by
  intro mtx found mem
  obtain ⟨r, place⟩ := own
  obtain ⟨code, inside⟩ := (good mtx found).listed t mem
  rw [place] at inside
  cases inside

end

/-- The state of an unlock just after it gave one lock back. -/
def givenBack (t : T) (m : Nat) (mtx : Mutex T) (current : Option T) (s : W T) : W T :=
  log (.unlocked t m) (setMutex m { mtx with count := mtx.decCount, current := current } s)

section

variable (found : s.shared.mutexes m = some mtx)
include found

theorem unlock_notOwner (other : mtx.current ≠ some t) :
    dcePthreadMutexUnlock t m next s = unlockReturn t m next .EPERM s := by
  simp [dcePthreadMutexUnlock, found, other]

variable (owner : mtx.current = some t)
include owner

theorem unlock_last (last : mtx.decCount = 0) (queue : mtx.waiting = []) :
    dcePthreadMutexUnlock t m next s = unlockReturn t m next .success (givenBack t m mtx none s) := by
  simp [dcePthreadMutexUnlock, found, owner, last, queue, givenBack]

theorem unlock_wakes (last : mtx.decCount = 0) (queue : mtx.waiting = u :: rest) : dcePthreadMutexUnlock t m next s =
      ((givenBack t m mtx none s).wake u).yieldAt t (.unlock m next) := by
  simp [dcePthreadMutexUnlock, found, owner, last, queue, givenBack]

theorem unlock_more (more : mtx.decCount ≠ 0) : dcePthreadMutexUnlock t m next s =
      unlockReturn t m next .success (givenBack t m mtx (some t) s) := by
  simp [dcePthreadMutexUnlock, found, owner, more, givenBack]

end

omit [DecidableEq T] in
theorem givenBack_mutex : (givenBack t m mtx current s).shared.mutexes m =
      some { mtx with count := mtx.decCount, current := current } := by
  simp [givenBack, log, setMutex]

theorem unlock_hands_over (core : MutexCore s m mtx) (own : ∃ r, s.place t = .own r) (away : t ∉ mtx.waiting)
    (alive : ∀ u k, s.place u = .inside k → s.status u ≠ .dead)
    (owner : mtx.current = some t) (last : mtx.decCount = 0) (queue : mtx.waiting = u :: rest) :
    Good (((givenBack t m mtx none s).wake u).yieldAt t (.unlock m next)) m := by
  have given : MutexCore (givenBack t m mtx none s) m
      { mtx with count := mtx.decCount, current := none } := core.unlock own owner (by simp [last])
  have first : u ∈ mtx.waiting := by simp [queue]
  have apart : u ≠ t := fun same => away (same ▸ first)
  obtain ⟨code, inside⟩ := core.listed u first
  have lives : (givenBack t m mtx none s).status u ≠ .dead := alive u _ inside
  have moves : World.Moves t (givenBack t m mtx none s)
      (((givenBack t m mtx none s).wake u).yieldAt t (.unlock m next)) :=
    (World.Moves.wake _ _ _).trans (.yieldAt _ _ _)
  have ready : (((givenBack t m mtx none s).wake u).yieldAt t (.unlock m next)).Runnable u :=
    (World.Moves.yieldAt _ _ _).runnable apart (World.wake_runnable lives)
  have freed : (((givenBack t m mtx none s).wake u).yieldAt t (.unlock m next)).shared.mutexes m =
      some { mtx with count := mtx.decCount, current := none } := by simpa using givenBack_mutex
  refine good_of_core freed ?_ (fun _ _ => ⟨u, first, ready⟩)
  · refine given.update moves.toSpares
      (fun x mem => .inl ⟨fun same => away (same ▸ mem), mem⟩) given.bound given.owned ?_
      (fun _ _ held => ⟨held, rfl⟩) (fun _ _ _ held => by cases held)
    intro x
    simpa [locksOf, unlocksOf] using given.tally x

theorem unlock_good (good : Good s m)
    (own : ∃ r, s.place t = .own r) (alive : ∀ u k, s.place u = .inside k → s.status u ≠ .dead) :
    Good (dcePthreadMutexUnlock t m next s) m := by
  have away := good.away own
  cases found : s.shared.mutexes m with
  | none =>
    have missing : dcePthreadMutexUnlock t m next s = unlockReturn t m next .EINVAL s := by
      simp [dcePthreadMutexUnlock, found]
    rw [missing]
    exact unlockReturn_good good away (fun mtx here => by rw [found] at here; cases here)
  | some mtx =>
    have core := (good mtx found).toMutexCore
    -- what an unlock that wakes nobody leaves behind
    have returns {current : Option T} (given : MutexCore (givenBack t m mtx current s) m
        { mtx with count := mtx.decCount, current := current })
        (handed : current = none → mtx.waiting = []) (below : mtx.decCount + 1 < 2 ^ 32) :
        Good (unlockReturn t m next .success (givenBack t m mtx current s)) m := by
      have here : Good (givenBack t m mtx current s) m :=
        good_of_core givenBack_mutex given (fun free queue => absurd (handed free) queue)
      refine unlockReturn_good here ?_ ?_ <;> intro mtx' found'
      · cases some.inj (givenBack_mutex.symm.trans found')
        exact away mtx found
      · cases some.inj (givenBack_mutex.symm.trans found')
        exact fun _ => below
    by_cases owner : mtx.current = some t
    · obtain ⟨down, positive⟩ := core.decCount owner
      have bound := core.bound
      have below : mtx.decCount + 1 < 2 ^ 32 := by omega
      by_cases last : mtx.decCount = 0
      · cases queue : mtx.waiting with
        | nil =>
          rw [unlock_last found owner last queue]
          exact returns (core.unlock own owner (by simp [last])) (fun _ => queue) below
        | cons u rest =>
          rw [unlock_wakes found owner last queue]
          exact unlock_hands_over core own (away mtx found) alive owner last queue
      · rw [unlock_more found owner last]
        exact returns (core.unlock own owner (by simp [last])) (fun none => by cases none) below
    · rw [unlock_notOwner found owner]
      refine unlockReturn_good good away fun mtx' found' owner' => ?_
      cases some.inj (found.symm.trans found')
      exact absurd owner' owner

end Dce.Pthread
