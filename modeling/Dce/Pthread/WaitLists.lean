import Dce.Pthread.CondWakeup
import Dce.Pthread.MutexSteps

/- Where the sleepers of a process stand. As long as nobody else wakes a thread that waits
on a condition variable, the list of that variable holds just such threads, each of them
once and asleep. -/

namespace Dce.Pthread

open Coroutine List

variable {T : Type*}

/-- `mtx->waiting`; empty where no mutex is found. -/
def queueOf (s : W T) (m : Nat) : List T :=
  match s.shared.mutexes m with
  | none => []
  | some mtx => mtx.waiting

theorem Wakes.listed {s : W T} {u : T} {c : Nat} {a : Act T Op Unit} (wakes : Wakes s u c a) :
    u ∈ waitingOf s c := by
  cases wakes with
  | signal _ first => exact mem_of_mem_head? first
  | broadcast _ mem => exact mem

/-- Every list holds threads that are at the wait it is for. -/
structure Settled (s : W T) : Prop where
  listed : ∀ c u, u ∈ waitingOf s c → s.status u = .blocked ∧
    ∃ m timeout, s.place u = .inside (.condWait c m timeout)
  once : ∀ c, (waitingOf s c).Nodup
  queued : ∀ m u, u ∈ queueOf s m → ∃ code, s.place u = .inside (.lock m code)

/-- A thread in a condition wait is woken by nothing but a signal or a broadcast. -/
def NotWokenBesides (s : W T) : Act T Op Unit → Prop
  | .wake t | .expire t => ∀ c m timeout, s.place t ≠ .inside (.condWait c m timeout)
  | _ => True

/-- From `s` to `v` no list grows and no thread changes its status. -/
structure Trims (s v : W T) : Prop where
  conditions : v.shared.conditions = s.shared.conditions
  queue : ∀ m u, u ∈ queueOf v m → u ∈ queueOf s m
  status : v.status = s.status

/-- What the code that `t` runs does to the lists, unless it signals: it can put `t` at
the end of one of them, and wake a thread that waits for a mutex. -/
structure Enlists (t : T) (s v : W T) : Prop where
  known : ∀ c, (v.shared.conditions c).isSome = (s.shared.conditions c).isSome
  waiting : ∀ c, waitingOf v c = waitingOf s c ∨ waitingOf v c = waitingOf s c ++ [t] ∧ v.status t = .blocked ∧
      ∃ m timeout, v.place t = .inside (.condWait c m timeout)
  queue : ∀ m u, u ∈ queueOf v m → u ∈ queueOf s m ∨ u = t ∧ ∃ code, v.place t = .inside (.lock m code)
  asleep : ∀ u, u ≠ t → s.status u = .blocked → v.status u = .blocked ∨ ∃ m, u ∈ queueOf s m

/-- What a signal or a broadcast does to the lists: the threads it takes off are those it wakes. -/
structure Serves (a : Act T Op Unit) (s v : W T) : Prop where
  known : ∀ c, (v.shared.conditions c).isSome = (s.shared.conditions c).isSome
  waiting : ∀ c, (waitingOf v c).Sublist (waitingOf s c)
  gone : ∀ c u, (waitingOf s c).Nodup → Wakes s u c a → u ∉ waitingOf v c
  mutexes : v.shared.mutexes = s.shared.mutexes
  asleep : ∀ u, s.status u = .blocked → v.status u = .blocked ∨ ∃ c, Wakes s u c a

theorem queueOf_congr {s v : W T} {m : Nat} (same : v.shared.mutexes = s.shared.mutexes) :
    queueOf v m = queueOf s m := by
  unfold queueOf; rw [same]

theorem mem_queueOf_setMutex {s : W T} {mtx : Mutex T} {m n : Nat} {u : T} :
    u ∈ queueOf (setMutex m mtx s) n ↔ (n = m ∧ u ∈ mtx.waiting) ∨ (n ≠ m ∧ u ∈ queueOf s n) := by
  by_cases same : n = m
  · subst same; simp [queueOf, setMutex]
  · simp [queueOf, setMutex, same]

theorem Trims.refl (s : W T) : Trims s s := ⟨rfl, fun _ _ => id, rfl⟩

theorem Trims.update {s : W T} {m : Nat} {mtx mtx' : Mutex T} (found : s.shared.mutexes m = some mtx)
    (same : ∀ u, u ∈ mtx'.waiting → u ∈ mtx.waiting) : Trims s (setMutex m mtx' s) where
  conditions := rfl
  queue n u mem := by
    rcases mem_queueOf_setMutex.mp mem with ⟨rfl, here⟩ | ⟨-, there⟩
    · simpa [queueOf, found] using same u here
    · exact there
  status := rfl

theorem Trims.log {s v : W T} (trims : Trims s v) (e : Event T) : Trims s (log e v) :=
  ⟨trims.conditions, trims.queue, trims.status⟩

theorem Trims.enlists {s v x : W T} {t : T} (trims : Trims s v) (then_ : Enlists t v x) : Enlists t s x where
  known c := by rw [then_.known c, trims.conditions]
  waiting c := by
    rw [← waitingOf_congr trims.conditions]
    exact then_.waiting c
  queue m u mem := (then_.queue m u mem).imp_left (trims.queue m u)
  asleep u other asleep :=
    (then_.asleep u other (trims.status ▸ asleep)).imp_right fun ⟨m, mem⟩ => ⟨m, trims.queue m u mem⟩

variable [DecidableEq T] {s v : W T} {t u : T} {c d m : Nat} {a : Act T Op Unit}

theorem Enlists.ret (s : W T) (t : T) (r : Code) : Enlists t s (s.ret t r) where
  known _ := rfl
  waiting _ := .inl rfl
  queue _ _ := .inl
  asleep _ _ := .inl

theorem lockLoop_enlists (code : Option Code) : Enlists t s (lockLoop t m code s) := by
  unfold lockLoop
  split
  · exact .ret s t _
  next mtx found =>
    split
    next =>
      refine ⟨fun _ => rfl, fun _ => .inl rfl, fun n u mem => ?_, fun u other asleep => .inl ?_⟩
      · rcases mem_queueOf_setMutex.mp mem with ⟨rfl, here⟩ | ⟨-, there⟩
        · rcases mem_append.mp here with old | new
          · exact .inl (by simpa [queueOf, found] using old)
          · exact .inr ⟨mem_singleton.mp new, code, by simp⟩
        · exact .inl there
      · simpa [setMutex, other] using asleep
    next => exact ((Trims.update found (by simp)).log _).enlists (.ret _ t _)

theorem lock_enlists (code : Option Code) : Enlists t s (dcePthreadMutexLock t m code s) := by
  unfold dcePthreadMutexLock
  split
  · exact .ret s t _
  next mtx found =>
    split
    · split
      · exact ((Trims.update found (by simp)).log _).enlists (.ret _ t _)
      · exact .ret s t _
    · exact lockLoop_enlists code

theorem trylock_enlists : Enlists t s (dcePthreadMutexTrylock t m s) := by
  unfold dcePthreadMutexTrylock
  split
  · exact .ret s t _
  next mtx found =>
    split
    · exact ((Trims.update found (by simp)).log _).enlists (.ret _ t _)
    · split
      · exact ((Trims.update found (by simp)).log _).enlists (.ret _ t _)
      · exact .ret s t _
    · exact .ret s t _

theorem condEnqueue_sleeps {condition : Condition T} (found : s.shared.conditions c = some condition)
    (timeout : Option Nat) :
    (condEnqueue t c m timeout s).shared =
    (setCondition c { condition with waiting := condition.waiting ++ [t] } s).shared ∧
      (condEnqueue t c m timeout s).status = Function.update s.status t .blocked ∧
      (condEnqueue t c m timeout s).place t = .inside (.condWait c m timeout) := by
  unfold condEnqueue
  rw [found]
  dsimp only
  split <;> exact ⟨rfl, rfl, by simp⟩

theorem condEnqueue_enlists (timeout : Option Nat) : Enlists t s (condEnqueue t c m timeout s) := by
  cases found : s.shared.conditions c with
  | none =>
    have missing : condEnqueue t c m timeout s = s.ret t .EINVAL := by simp [condEnqueue, found]
    rw [missing]
    exact .ret s t _
  | some condition =>
    obtain ⟨shared, status, place⟩ := condEnqueue_sleeps (t := t) (m := m) found timeout
    refine ⟨fun d => ?_, fun d => ?_, fun n u mem => .inl ?_, fun u other asleep => .inl ?_⟩
    · by_cases same : d = c
      · subst same; simp [shared, setCondition, found]
      · simp [shared, setCondition, same]
    · by_cases same : d = c
      · subst same
        refine .inr ⟨?_, by simp [status], m, timeout, place⟩
        simp [waitingOf, shared, setCondition, found]
      · exact .inl (by simp [waitingOf, shared, setCondition, same])
    · rwa [queueOf_congr (s := s) (by rw [shared]; rfl)] at mem
    · simpa [status, other] using asleep

theorem unlockReturn_enlists (next : Option (Nat × Option Nat)) (r : Code) :
    Enlists t s (unlockReturn t m next r s) := by
  unfold unlockReturn
  split
  · exact .ret s t _
  · exact condEnqueue_enlists _

theorem unlock_enlists (next : Option (Nat × Option Nat)) : Enlists t s (dcePthreadMutexUnlock t m next s) := by
  unfold dcePthreadMutexUnlock
  split
  · exact unlockReturn_enlists next _
  next mtx found =>
    split
    · exact unlockReturn_enlists next _
    · split
      · have given : Trims s (log (.unlocked t m)
          (setMutex m { mtx with count := mtx.decCount, current := none } s)) :=
          (Trims.update found (by simp)).log _
        split
        · exact given.enlists (unlockReturn_enlists next _)
        next first rest queue =>
          refine given.enlists ⟨fun _ => by simp, fun d => .inl (waitingOf_congr (by simp)),
            fun n u mem => .inl ?_, fun u other asleep => ?_⟩
          · simpa only [queueOf, World.yieldAt_shared, World.wake_shared] using mem
          · by_cases same : u = first
            · exact .inr ⟨m, by simp [queueOf, log, setMutex, same, queue]⟩
            · refine .inl ?_
              simp only [World.yieldAt_status, Function.update_of_ne other]
              exact (World.wake_status_blocked _ first u).mpr ⟨same, asleep⟩
      · exact ((Trims.update found (by simp)).log _).enlists (unlockReturn_enlists next _)

theorem Serves.ret (s : W T) (t : T) (r : Code) (none : ∀ c u, ¬ Wakes s u c a) : Serves a s (s.ret t r) where
  known _ := rfl
  waiting _ := Sublist.refl _
  gone c u _ wakes := absurd wakes (none c u)
  mutexes := rfl
  asleep _ := .inl

theorem signal_serves : Serves (.call t (.condSignal d)) s (dcePthreadCondSignal t d s) := by
  unfold dcePthreadCondSignal
  split
  next missing =>
    refine .ret s t _ fun c u wakes => ?_
    cases wakes with
    | signal _ first => simp [waitingOf, missing] at first
  next condition found =>
    split
    next empty =>
      refine .ret s t _ fun c u wakes => ?_
      cases wakes with
      | signal _ first => simp [waitingOf, found, empty] at first
    next thread rest queue =>
      have before : waitingOf s d = thread :: rest := by simp [waitingOf, found, queue]
      refine ⟨fun c => ?_, fun c => ?_, fun c u once wakes => ?_, by simp [setCondition], fun u asleep => ?_⟩
      · by_cases same : c = d
        · subst same; simp [setCondition, found]
        · simp [setCondition, same]
      · by_cases same : c = d
        · subst same; rw [before]; simp [waitingOf, setCondition]
        · simp [waitingOf, setCondition, same]
      · cases wakes with
        | signal _ first =>
          rw [before] at first once
          cases Option.some.inj first
          simpa [waitingOf, setCondition] using (nodup_cons.mp once).1
      · by_cases same : u = thread
        · exact .inr ⟨d, .signal t (by rw [before, same, head?_cons])⟩
        · exact .inl ((World.wake_status_blocked s thread u).mpr ⟨same, asleep⟩)

theorem broadcast_serves : Serves (.call t (.condBroadcast d)) s (dcePthreadCondBroadcast t d s) := by
  unfold dcePthreadCondBroadcast
  split
  next missing =>
    refine .ret s t _ fun c u wakes => ?_
    cases wakes with
    | broadcast _ mem => simp [waitingOf, missing] at mem
  next condition found =>
    have before : waitingOf s d = condition.waiting := by simp [waitingOf, found]
    refine ⟨fun c => ?_, fun c => ?_, fun c u _ wakes => ?_, by simp [setCondition], fun u asleep => ?_⟩
    · by_cases same : c = d
      · subst same; simp [setCondition, found]
      · simp [setCondition, same]
    · by_cases same : c = d
      · subst same; simp [waitingOf, setCondition]
      · simp [waitingOf, setCondition, same]
    · cases wakes with
      | broadcast _ mem => simp [waitingOf, setCondition]
    · by_cases mem : u ∈ condition.waiting
      · exact .inr ⟨d, .broadcast t (before ▸ mem)⟩
      · exact .inl ((World.wakeAll_status_blocked s u condition.waiting).mpr ⟨mem, asleep⟩)

theorem enter_lists (op : Op) : (Enlists t s (enter t op s) ∧ ∀ c u, ¬ Wakes s u c (.call t op)) ∨
      Serves (.call t op) s (enter t op s) := by
  cases op with
  | lock m => exact .inl ⟨lock_enlists none, (by rintro _ _ ⟨⟩)⟩
  | trylock m => exact .inl ⟨trylock_enlists, (by rintro _ _ ⟨⟩)⟩
  | unlock m => exact .inl ⟨unlock_enlists none, (by rintro _ _ ⟨⟩)⟩
  | condWait d m =>
    refine .inl ⟨?_, (by rintro _ _ ⟨⟩)⟩
    rw [enter, dcePthreadCondWait]
    split
    · exact .ret s t _
    · exact unlock_enlists _
  | condTimedwait d m abstime =>
    refine .inl ⟨?_, (by rintro _ _ ⟨⟩)⟩
    rw [enter, dcePthreadCondTimedwait]
    split
    · exact .ret s t _
    · exact unlock_enlists _
  | condSignal d => exact .inr signal_serves
  | condBroadcast d => exact .inr broadcast_serves

theorem removeWaiting_trims : Trims s (removeWaiting t m s) := by
  unfold removeWaiting
  split
  · exact .refl s
  next mtx found => exact .update found fun u mem => (mem_filter.mp mem).1

theorem removeWaiting_queue : t ∉ queueOf (removeWaiting t m s) m := by
  unfold removeWaiting
  split
  next missing => simp [queueOf, missing]
  next mtx found => simp [queueOf, setMutex]

theorem resume_lists (frame : Frame) (e : Unit) : ∃ x, Trims s x ∧ Enlists t x (resume t frame e s) ∧
      ∀ m code, frame = .lock m code → t ∉ queueOf x m := by
  cases frame with
  | lock m code =>
    refine ⟨_, removeWaiting_trims, lockLoop_enlists code, fun n code' same => ?_⟩
    cases same
    exact removeWaiting_queue
  | unlock m next => exact ⟨s, .refl s, unlockReturn_enlists next _, nofun⟩
  | condWait c m timeout => exact ⟨s, .refl s, lock_enlists _, nofun⟩

section

variable (settled : Settled s)
include settled

section

omit [DecidableEq T]

theorem Settled.turn {x : W T} (place : ∀ u, u ≠ t → v.place u = s.place u)
    (trims : Trims s x) (off : ∀ c, t ∉ waitingOf s c) (out : ∀ m, t ∉ queueOf x m)
    (enlists : Enlists t x v) : Settled v where
  listed c u mem := by
    have old : u ∈ waitingOf s c → v.status u = .blocked ∧
        ∃ m timeout, v.place u = .inside (.condWait c m timeout) := by
      intro before
      obtain ⟨blocked, m, timeout, inside⟩ := settled.listed c u before
      have other : u ≠ t := fun same => off c (same ▸ before)
      refine ⟨?_, m, timeout, (place u other).trans inside⟩
      rcases enlists.asleep u other (trims.status ▸ blocked) with still | ⟨n, queue⟩
      · exact still
      · obtain ⟨code, waits⟩ := settled.queued n u (trims.queue n u queue)
        rw [inside] at waits
        cases waits
    have same : waitingOf x c = waitingOf s c := waitingOf_congr trims.conditions
    rcases enlists.waiting c with kept | ⟨grown, blocked, here⟩
    · exact old (same ▸ kept ▸ mem)
    · rw [grown, same] at mem
      rcases mem_append.mp mem with before | new
      · exact old before
      · rw [mem_singleton.mp new]
        exact ⟨blocked, here⟩
  once c := by
    have same : waitingOf x c = waitingOf s c := waitingOf_congr trims.conditions
    rcases enlists.waiting c with kept | ⟨grown, -⟩
    · rw [kept, same]
      exact settled.once c
    · rw [grown, same]
      exact nodup_append.mpr ⟨settled.once c, by simp, fun u mem _ new same =>
        off c (mem_singleton.mp new ▸ same ▸ mem)⟩
  queued m u mem := by
    rcases enlists.queue m u mem with before | ⟨rfl, here⟩
    · have other : u ≠ t := fun same => out m (same ▸ before)
      rw [place u other]
      exact settled.queued m u (trims.queue m u before)
    · exact here

theorem Settled.serves (serves : Serves a s v) (place : ∀ u k, s.place u = .inside k → v.place u = .inside k) :
    Settled v where
  listed c u mem := by
    have before := (serves.waiting c).subset mem
    obtain ⟨blocked, m, timeout, inside⟩ := settled.listed c u before
    refine ⟨?_, m, timeout, place u _ inside⟩
    rcases serves.asleep u blocked with still | ⟨d, wakes⟩
    · exact still
    · obtain ⟨-, n, limit, waits⟩ := settled.listed d u wakes.listed
      have same : c = d := by rw [inside] at waits; cases waits; rfl
      exact absurd mem (serves.gone c u (settled.once c) (same ▸ wakes))
  once c := (settled.once c).sublist (serves.waiting c)
  queued m u mem := by
    rw [queueOf_congr serves.mutexes] at mem
    obtain ⟨code, inside⟩ := settled.queued m u mem
    exact ⟨code, place u _ inside⟩

end

theorem Settled.give (awake : s.status t ≠ .blocked) : Settled (s.give t) where
  listed c u mem := by
    obtain ⟨blocked, inside⟩ := settled.listed c u mem
    have other : u ≠ t := fun same => awake (same ▸ blocked)
    exact ⟨by simpa [other] using blocked, inside⟩
  once := settled.once
  queued := settled.queued

theorem Settled.step (careful : NotWokenBesides s a) (run : (machine T).step s a = some v) : Settled v := by
  rcases Program.step_kinds run with
    ⟨t, op, r, rfl, -, own, rfl⟩ | ⟨t, e, frame, rfl, -, active, inside, rfl⟩ | ⟨idle, unwoken⟩
  · have off : ∀ c, t ∉ waitingOf s c := fun c mem => by
      obtain ⟨-, m, timeout, inside⟩ := settled.listed c t mem
      rw [own] at inside
      cases inside
    have out : ∀ m, t ∉ queueOf s m := fun m mem => by
      obtain ⟨code, inside⟩ := settled.queued m t mem
      rw [own] at inside
      cases inside
    have place := ((program_cooperative T).enter t op s).place
    rcases enter_lists (t := t) (s := s) op with ⟨enlists, -⟩ | serves
    · exact settled.turn place (.refl s) off out enlists
    · refine settled.serves serves fun u k inside => ?_
      have other : u ≠ t := fun same => by rw [same, own] at inside; cases inside
      exact (place u other).trans inside
  · have awake : s.status t ≠ .blocked := by simp [active]
    have ready := settled.give awake
    have off : ∀ c, t ∉ waitingOf s c := fun c mem => awake (settled.listed c t mem).1
    obtain ⟨x, trims, enlists, removed⟩ := resume_lists (t := t) (s := s.give t) frame e
    refine ready.turn ((program_cooperative T).resume t frame e (s.give t)).place trims off (fun m mem => ?_) enlists
    obtain ⟨code, waits⟩ := settled.queued m t (trims.queue m t mem)
    rw [inside] at waits
    cases waits
    exact removed m code rfl mem
  · have waiting : ∀ c, waitingOf v c = waitingOf s c := fun c =>
      waitingOf_congr (congrArg Process.conditions idle.shared)
    refine ⟨fun c u mem => ?_, fun c => (waiting c).symm ▸ settled.once c, fun m u mem => ?_⟩
    · obtain ⟨blocked, m, timeout, inside⟩ := settled.listed c u (waiting c ▸ mem)
      refine ⟨?_, m, timeout, idle.place ▸ inside⟩
      rcases unwoken u _ inside blocked with still | rfl | rfl
      · exact still
      · exact absurd inside (careful c m timeout)
      · exact absurd inside (careful c m timeout)
    · rw [queueOf_congr (congrArg Process.mutexes idle.shared)] at mem
      exact idle.place ▸ settled.queued m u mem

theorem Settled.served (run : (machine T).step s a = some v) (wakes : Wakes s u c a) : u ∉ waitingOf v c := by
  cases wakes with
  | signal t first =>
    obtain ⟨-, -, rfl⟩ := Program.step_call run
    exact signal_serves.gone c u (settled.once c) (.signal t first)
  | broadcast t mem =>
    obtain ⟨-, -, rfl⟩ := Program.step_call run
    exact broadcast_serves.gone c u (settled.once c) (.broadcast t mem)

end

variable (run : (machine T).step s a = some v)
include run

theorem listed_before (call : ∀ op, a ≠ .call u op)
    (resume : ∀ e, a ≠ .dispatch u e) (mem : u ∈ waitingOf v c) : u ∈ waitingOf s c := by
  have from_list {x : W T} {t : T} (same : waitingOf x c = waitingOf s c) (enlists : Enlists t x v)
      (other : u ≠ t) : u ∈ waitingOf s c := by
    rcases enlists.waiting c with kept | ⟨grown, -⟩
    · exact same ▸ kept ▸ mem
    · rcases mem_append.mp (grown ▸ mem) with before | new
      · exact same ▸ before
      · exact absurd (mem_singleton.mp new) other
  rcases Program.step_cases run with
    ⟨t, op, r, rfl, -, -, rfl⟩ | ⟨t, e, frame, rfl, -, -, -, rfl⟩ | idle
  · rcases enter_lists (t := t) (s := s) op with ⟨enlists, -⟩ | serves
    · exact from_list rfl enlists fun same => call op (by rw [same])
    · exact (serves.waiting c).subset mem
  · obtain ⟨x, trims, enlists, -⟩ := resume_lists (t := t) (s := s.give t) frame e
    exact from_list (waitingOf_congr trims.conditions) enlists fun same => resume e (by rw [same])
  · rwa [waitingOf_congr (congrArg Process.conditions idle.shared)] at mem

theorem known_kept (c : Nat) : (v.shared.conditions c).isSome = (s.shared.conditions c).isSome := by
  rcases Program.step_cases run with
    ⟨t, op, r, rfl, -, -, rfl⟩ | ⟨t, e, frame, rfl, -, -, -, rfl⟩ | idle
  · rcases enter_lists (t := t) (s := s) op with ⟨enlists, -⟩ | serves
    · exact enlists.known c
    · exact serves.known c
  · obtain ⟨x, trims, enlists, -⟩ := resume_lists (t := t) (s := s.give t) frame e
    rw [show (program T).resume t frame e (s.give t) = resume t frame e (s.give t) from rfl, enlists.known c,
      trims.conditions]
    rfl
  · rw [idle.shared]

end Dce.Pthread
