import Dce.Lib.Coroutine

/- The semaphores of a process, as `dce-semaphore.cc` runs them. A suspended call keeps the
pointer it has found, which is the place of its semaphore in `process->semaphores`. -/

namespace Dce.Sem

open Coroutine

structure Semaphore (T : Type*) where
  sid : Nat
  /-- `uint32_t` -/
  count : Nat
  waiting : List T

/-- `words` is what the program keeps in its `sem_t` objects: the first 32 bits of each. -/
structure Process (T : Type*) where
  semaphores : List (Semaphore T)
  nextSid : Nat
  words : Nat → Nat

inductive Errno
  | EINVAL | EAGAIN | ETIMEDOUT | ENOSYS
  deriving DecidableEq, Repr

inductive Result
  | success
  | failed (err : Errno)
  deriving DecidableEq, Repr

/-- Where a thread can lose control: the `Yield` of a post, and the `Wait` of a wait with and
without a time limit. -/
inductive Frame
  | posted
  | waits (i : Nat)
  | timed (i : Nat)
  deriving DecidableEq, Repr

/-- The semaphore operations on the `sem_t` object `sem`; `abstime` is a simulation time. -/
inductive Op
  | init (sem pshared value : Nat)
  | post (sem : Nat)
  | wait (sem : Nat)
  | trywait (sem : Nat)
  | timedwait (sem abstime : Nat)
  deriving DecidableEq, Repr

abbrev W (T : Type*) := World T Frame Result (Process T)

section

variable {T : Type*}

def setSemaphore (i : Nat) (semaphore : Semaphore T) (w : W T) : W T :=
  { w with shared := { w.shared with semaphores := w.shared.semaphores.set i semaphore } }

/-- A new semaphore, whose id goes to the object `sem`. -/
def addSemaphore (sem value : Nat) (w : W T) : W T :=
  { w with shared :=
      { semaphores := w.shared.semaphores ++ [⟨w.shared.nextSid, value % 2 ^ 32, []⟩]
        nextSid := (w.shared.nextSid + 1) % 2 ^ 32
        words := Function.update w.shared.words sem w.shared.nextSid } }

/-- `SearchSemaphore`: the first semaphore with the id that `sem` holds. -/
def searchSemaphore (sem : Nat) (p : Process T) : Option Nat :=
  p.semaphores.findIdx? fun semaphore => semaphore.sid = p.words sem

/-- `semaphore->count++` on a `uint32_t`. -/
def Semaphore.incCount (semaphore : Semaphore T) : Nat := (semaphore.count + 1) % 2 ^ 32

end

variable {T : Type*} [DecidableEq T]

def semInit (t : T) (sem pshared value : Nat) (w : W T) : W T :=
  if pshared ≠ 0 then w.ret t (.failed .ENOSYS)
  else (addSemaphore sem value w).ret t .success

def semPost (t : T) (sem : Nat) (w : W T) : W T :=
  match searchSemaphore sem w.shared with
  | none => w.ret t (.failed .EINVAL)
  | some i =>
    match w.shared.semaphores[i]? with
    | none => w.ret t (.failed .EINVAL)
    | some semaphore =>
      let w := setSemaphore i { semaphore with count := semaphore.incCount } w
      match semaphore.waiting with
      | [] => w.ret t .success
      | waiting :: _ => (w.wake waiting).yieldAt t .posted

/-- `while (semaphore->count == 0)` of `dce_sem_wait`, up to its `Wait`, and what follows it. -/
def waitLoop (t : T) (i : Nat) (w : W T) : W T :=
  match w.shared.semaphores[i]? with
  | none => w.ret t (.failed .EINVAL)
  | some semaphore =>
    if semaphore.count = 0 then
      (setSemaphore i { semaphore with waiting := semaphore.waiting ++ [t] } w).sleep t (.waits i)
    else (setSemaphore i { semaphore with count := semaphore.count - 1 } w).ret t .success

def semWait (t : T) (sem : Nat) (w : W T) : W T :=
  match searchSemaphore sem w.shared with
  | none => w.ret t (.failed .EINVAL)
  | some i => waitLoop t i w

def semTrywait (t : T) (sem : Nat) (w : W T) : W T :=
  match searchSemaphore sem w.shared with
  | none => w.ret t (.failed .EINVAL)
  | some i =>
    match w.shared.semaphores[i]? with
    | none => w.ret t (.failed .EINVAL)
    | some semaphore =>
      if semaphore.count = 0 then w.ret t (.failed .EAGAIN)
      else (setSemaphore i { semaphore with count := semaphore.count - 1 } w).ret t .success

/-- The loop of `dce_sem_timedwait`, up to its `Wait (timeoutLeft)`, and what follows it. -/
def timedLoop (t : T) (i timeoutLeft : Nat) (w : W T) : W T :=
  match w.shared.semaphores[i]? with
  | none => w.ret t (.failed .EINVAL)
  | some semaphore =>
    if semaphore.count = 0 then
      (setSemaphore i { semaphore with waiting := semaphore.waiting ++ [t] } w).sleepUntil t (.timed i)
      (w.now + timeoutLeft)
    else (setSemaphore i { semaphore with count := semaphore.count - 1 } w).ret t .success

def semTimedwait (t : T) (sem abstime : Nat) (w : W T) : W T :=
  match searchSemaphore sem w.shared with
  | none => w.ret t (.failed .EINVAL)
  | some i =>
    match w.shared.semaphores[i]? with
    | none => w.ret t (.failed .EINVAL)
    | some semaphore =>
      if 0 < semaphore.count then
        (setSemaphore i { semaphore with count := semaphore.count - 1 } w).ret t .success
      else if abstime ≤ w.now then w.ret t (.failed .ETIMEDOUT)
      else timedLoop t i (abstime - w.now) w

/-- `semaphore->waiting.remove (current)` -/
def removeWaiting (t : T) (i : Nat) (w : W T) : W T :=
  match w.shared.semaphores[i]? with
  | none => w
  | some semaphore =>
    setSemaphore i { semaphore with waiting := semaphore.waiting.filter (· ≠ t) } w

def resume (t : T) (frame : Frame) (_ : Unit) (w : W T) : W T :=
  match frame with
  | .posted => w.ret t .success
  | .waits i => waitLoop t i (removeWaiting t i w)
  | .timed i =>
    if w.timeLeft t = 0 then (removeWaiting t i w).ret t (.failed .ETIMEDOUT)
    else timedLoop t i (w.timeLeft t) (removeWaiting t i w)

def enter (t : T) (op : Op) (w : W T) : W T :=
  match op with
  | .init sem pshared value => semInit t sem pshared value w
  | .post sem => semPost t sem w
  | .wait sem => semWait t sem w
  | .trywait sem => semTrywait t sem w
  | .timedwait sem abstime => semTimedwait t sem abstime w

def program (T : Type*) [DecidableEq T] : Program T Frame Result (Process T) Op Unit where
  start p := p.semaphores = []
  enter := enter
  resume := resume

def machine (T : Type*) [DecidableEq T] : Machine (W T) (Act T Op Unit) := (program T).machine

end Dce.Sem

/- Every post wakes one listed thread; while each of them finds one that sleeps, as many
listed threads are awake as the semaphore has to give. -/

namespace Dce.Sem

open Coroutine List

variable {T : Type*}

/-- How many of the listed threads are not asleep. -/
def awake (s : W T) (ts : List T) : Nat := ts.countP fun t => s.status t ≠ .blocked

/-- Some listed thread sleeps. -/
def Asleep (s : W T) (ts : List T) : Prop := ∃ t ∈ ts, s.status t = .blocked

variable {s v : W T} {t u : T} {ts : List T} {i j : Nat}

theorem awake_cons : awake s (u :: ts) = awake s ts + if s.status u = .blocked then 0 else 1 := by
  unfold awake
  by_cases down : s.status u = .blocked <;> simp [down]

theorem awake_mono (asleep : ∀ u ∈ ts, v.status u = .blocked → s.status u = .blocked) : awake s ts ≤ awake v ts := by
  refine countP_mono_left fun u mem up => ?_
  have before : s.status u ≠ .blocked := by simpa using up
  simpa using fun h => before (asleep u mem h)

variable [DecidableEq T]

theorem awake_filter (once : ts.Nodup) : awake s ts ≤ awake s (ts.filter (· ≠ t)) + 1 := by
  induction ts with
  | nil => simp [awake]
  | cons u rest ih =>
    obtain ⟨fresh, once⟩ := nodup_cons.mp once
    by_cases same : u = t
    · subst same
      have others : rest.filter (· ≠ u) = rest :=
        filter_eq_self.mpr fun x inRest => by
          simpa using fun h : x = u => fresh (h ▸ inRest)
      have removed : (u :: rest).filter (· ≠ u) = rest := by
        rw [filter_cons_of_neg (by simp), others]
      rw [removed, awake_cons]
      split <;> omega
    · have tail := ih once
      have kept : (u :: rest).filter (· ≠ t) = u :: rest.filter (· ≠ t) := by
        simp [same]
      rw [kept, awake_cons, awake_cons]
      omega

theorem awake_wake (mem : u ∈ ts) (asleep : s.status u = .blocked) : awake s ts + 1 ≤ awake (s.wake u) ts := by
  induction ts with
  | nil => cases mem
  | cons x rest ih =>
    have others : awake s rest ≤ awake (s.wake u) rest :=
      awake_mono fun y _ h => ((s.wake_status_blocked u y).mp h).2
    rw [awake_cons, awake_cons]
    by_cases same : x = u
    · subst same
      have woken : (s.wake x).status x ≠ .blocked := fun h => ((s.wake_status_blocked x x).mp h).1 rfl
      rw [if_pos asleep, if_neg woken]
      omega
    · have inRest : u ∈ rest := by
        rcases mem_cons.mp mem with h | h
        · exact absurd h.symm same
        · exact h
      have tail := ih inRest
      have head : (s.wake u).status x = .blocked ↔ s.status x = .blocked := by
        rw [s.wake_status_blocked]
        exact ⟨fun h => h.2, fun h => ⟨same, h⟩⟩
      simp only [head]
      omega

/-- What holds of semaphore `i` at every point where a thread runs. -/
structure SemCore (s : W T) (i : Nat) (semaphore : Semaphore T) : Prop where
  once : semaphore.waiting.Nodup
  listed : ∀ t ∈ semaphore.waiting, s.place t = .inside (.waits i) ∨ s.place t = .inside (.timed i)

/-- What holds besides between the steps, while the condition of the run is met: a thread
sleeps on the list only if there are awake ones for all the semaphore has to give. -/
structure SemOk (s : W T) (i : Nat) (semaphore : Semaphore T) : Prop extends SemCore s i semaphore where
  covered : Asleep s semaphore.waiting → semaphore.count ≤ awake s semaphore.waiting

def Good (s : W T) (i : Nat) : Prop :=
  ∀ semaphore, s.shared.semaphores[i]? = some semaphore → SemOk s i semaphore

variable {semaphore new : Semaphore T}

section

omit [DecidableEq T]

theorem good_of_some (found : v.shared.semaphores[i]? = some semaphore) (ok : SemOk v i semaphore) : Good v i := by
  intro semaphore' found'
  cases Option.some.inj (found.symm.trans found')
  exact ok

theorem Good.spare (good : Good s i) (spares : World.Spares t s v)
    (same : v.shared.semaphores[i]? = s.shared.semaphores[i]?)
    (away : ∀ semaphore, s.shared.semaphores[i]? = some semaphore → t ∉ semaphore.waiting) :
    Good v i := by
  intro semaphore found
  rw [same] at found
  have ok := good semaphore found
  have apart : ∀ u ∈ semaphore.waiting, u ≠ t := fun u mem h => away semaphore found (h ▸ mem)
  have asleep : ∀ u ∈ semaphore.waiting, v.status u = .blocked → s.status u = .blocked :=
    fun u mem => spares.asleep u (apart u mem)
  refine ⟨⟨ok.once, fun u mem => ?_⟩, fun ⟨u, mem, down⟩ => ?_⟩
  · rw [spares.place u (apart u mem)]
    exact ok.listed u mem
  · have before := ok.covered ⟨u, mem, asleep u mem down⟩
    have after := awake_mono asleep
    omega

end

theorem Good.give (good : Good s i) : Good (s.give t) i := by
  intro semaphore found
  have ok := good semaphore found
  have asleep : ∀ u ∈ semaphore.waiting, (s.give t).status u = .blocked → s.status u = .blocked := by
    intro u _ down
    by_cases same : u = t
    · subst same; simp at down
    · simpa [same] using down
  refine ⟨⟨ok.once, ok.listed⟩, fun ⟨u, mem, down⟩ => ?_⟩
  exact le_trans (ok.covered ⟨u, mem, asleep u mem down⟩) (awake_mono asleep)

section

omit [DecidableEq T]

theorem Good.away (good : Good s i) (own : ∃ r, s.place t = .own r) :
    ∀ semaphore, s.shared.semaphores[i]? = some semaphore → t ∉ semaphore.waiting := by
  intro semaphore found mem
  obtain ⟨r, place⟩ := own
  rcases (good semaphore found).listed t mem with inside | inside <;> rw [place] at inside <;> cases inside

theorem setSemaphore_self {old : Semaphore T} (found : s.shared.semaphores[i]? = some old) :
    (setSemaphore i new s).shared.semaphores[i]? = some new := by
  obtain ⟨inside, -⟩ := List.getElem?_eq_some_iff.mp found
  simp [setSemaphore, inside]

theorem setSemaphore_other (other : j ≠ i) : (setSemaphore i new s).shared.semaphores[j]? =
    s.shared.semaphores[j]? := by
  simp [setSemaphore, Ne.symm other]

theorem moves_shared (p : Process T) : World.Moves t s { s with shared := p } := .of_eq rfl rfl rfl

theorem SemCore.queue (core : SemCore s i semaphore)
    (away : t ∉ semaphore.waiting) (zero : semaphore.count = 0) (spares : World.Spares t s v)
    (found : v.shared.semaphores[i]? = some { semaphore with waiting := semaphore.waiting ++ [t] })
    (inside : v.place t = .inside (.waits i) ∨ v.place t = .inside (.timed i)) : Good v i := by
  refine good_of_some found ⟨⟨?_, fun u mem => ?_⟩, fun _ => by simp [zero]⟩
  · exact nodup_append.mpr ⟨core.once, by simp, fun a old b new same => by
      rw [mem_singleton.mp new] at same
      exact away (same ▸ old)⟩
  · rcases mem_append.mp mem with old | new
    · rw [spares.place u fun same => away (same ▸ old)]
      exact core.listed u old
    · rw [mem_singleton.mp new]
      exact inside

theorem SemCore.take (core : SemCore s i semaphore) (away : t ∉ semaphore.waiting) (spares : World.Spares t s v)
    (covered : Asleep s semaphore.waiting → semaphore.count ≤ awake s semaphore.waiting + 1)
    (found : v.shared.semaphores[i]? = some { semaphore with count := semaphore.count - 1 }) :
    Good v i := by
  have apart : ∀ u ∈ semaphore.waiting, u ≠ t := fun u mem same => away (same ▸ mem)
  have asleep : ∀ u ∈ semaphore.waiting, v.status u = .blocked → s.status u = .blocked :=
    fun u mem => spares.asleep u (apart u mem)
  refine good_of_some found ⟨⟨core.once, fun u mem => ?_⟩, fun ⟨u, mem, down⟩ => ?_⟩
  · rw [spares.place u (apart u mem)]
    exact core.listed u mem
  · have before := covered ⟨u, mem, asleep u mem down⟩
    have after := awake_mono asleep
    change semaphore.count - 1 ≤ awake v semaphore.waiting
    omega

end

theorem waitLoop_moves : World.Moves t s (waitLoop t i s) := by
  unfold waitLoop
  split
  · exact .ret _ _ _
  · split
    · exact (moves_shared _).trans (.sleep _ _ _)
    · exact (moves_shared _).trans (.ret _ _ _)

section

variable (timeoutLeft : Nat)

theorem timedLoop_moves : World.Moves t s (timedLoop t i timeoutLeft s) := by
  unfold timedLoop
  split
  · exact .ret _ _ _
  · split
    · exact (moves_shared _).trans (.sleepUntil _ _ _ _)
    · exact (moves_shared _).trans (.ret _ _ _)

theorem waitLoop_other (other : j ≠ i) : (waitLoop t i s).shared.semaphores[j]? = s.shared.semaphores[j]? := by
  unfold waitLoop
  split
  · rfl
  · split <;> exact setSemaphore_other other

theorem timedLoop_other (other : j ≠ i) : (timedLoop t i timeoutLeft s).shared.semaphores[j]? =
    s.shared.semaphores[j]? := by
  unfold timedLoop
  split
  · rfl
  · split <;> exact setSemaphore_other other

variable (found : s.shared.semaphores[i]? = some semaphore)
include found

theorem waitLoop_good (core : SemCore s i semaphore) (away : t ∉ semaphore.waiting)
    (covered : Asleep s semaphore.waiting → semaphore.count ≤ awake s semaphore.waiting + 1) :
    Good (waitLoop t i s) i := by
  have moves : World.Moves t s (waitLoop t i s) := waitLoop_moves
  by_cases zero : semaphore.count = 0
  · have queued : waitLoop t i s = (setSemaphore i
        { semaphore with waiting := semaphore.waiting ++ [t] } s).sleep t (.waits i) := by
      simp [waitLoop, found, zero]
    rw [queued] at moves ⊢
    exact core.queue away zero moves.toSpares (setSemaphore_self found) (.inl (by simp))
  · have taken : waitLoop t i s = (setSemaphore i { semaphore with
      count := semaphore.count - 1 } s).ret t .success := by
      simp [waitLoop, found, zero]
    rw [taken] at moves ⊢
    exact core.take away moves.toSpares covered (setSemaphore_self found)

theorem timedLoop_good (core : SemCore s i semaphore) (away : t ∉ semaphore.waiting)
    (covered : Asleep s semaphore.waiting → semaphore.count ≤ awake s semaphore.waiting + 1) :
    Good (timedLoop t i timeoutLeft s) i := by
  have moves : World.Moves t s (timedLoop t i timeoutLeft s) := timedLoop_moves timeoutLeft
  by_cases zero : semaphore.count = 0
  · have queued : timedLoop t i timeoutLeft s = (setSemaphore i
        { semaphore with waiting := semaphore.waiting ++ [t] } s).sleepUntil t (.timed i) (s.now + timeoutLeft) := by
      simp [timedLoop, found, zero]
    rw [queued] at moves ⊢
    exact core.queue away zero moves.toSpares (setSemaphore_self found) (.inr (by simp))
  · have taken : timedLoop t i timeoutLeft s =
        (setSemaphore i { semaphore with count := semaphore.count - 1 } s).ret t .success := by
      simp [timedLoop, found, zero]
    rw [taken] at moves ⊢
    exact core.take away moves.toSpares covered (setSemaphore_self found)

end

/-- The list of a semaphore once `t` has left it. -/
def restOf (t : T) (semaphore : Semaphore T) : Semaphore T :=
  { semaphore with waiting := semaphore.waiting.filter (· ≠ t) }

theorem removeWaiting_core (good : Good s i) (found : s.shared.semaphores[i]? = some semaphore) :
    (removeWaiting t i s).shared.semaphores[i]? = some (restOf t semaphore) ∧
      SemCore (removeWaiting t i s) i (restOf t semaphore) ∧ t ∉ (restOf t semaphore).waiting := by
  have ok := good semaphore found
  have removed : removeWaiting t i s = setSemaphore i (restOf t semaphore) s := by
    simp only [removeWaiting, found, restOf]
  rw [removed]
  exact ⟨setSemaphore_self found, ⟨ok.once.filter _, fun u mem =>
    ok.listed u (mem_filter.mp mem).1⟩, by simp [restOf]⟩

theorem asleep_rest (asleep : Asleep (removeWaiting t i s) (restOf t semaphore).waiting) :
    Asleep s semaphore.waiting := by
  obtain ⟨u, mem, down⟩ := asleep
  have same : (removeWaiting t i s).status = s.status := by
    unfold removeWaiting
    split <;> rfl
  exact ⟨u, (mem_filter.mp mem).1, same ▸ down⟩

theorem awake_rest (once : semaphore.waiting.Nodup) :
    awake s semaphore.waiting ≤ awake (removeWaiting t i s) (restOf t semaphore).waiting + 1 := by
  have same : (removeWaiting t i s).status = s.status := by
    unfold removeWaiting
    split <;> rfl
  unfold awake
  rw [same]
  exact awake_filter once

end Dce.Sem
