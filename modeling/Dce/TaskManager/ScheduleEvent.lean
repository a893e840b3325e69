import Dce.TaskManager.Representation

namespace Dce.TaskManager

variable {κ : Type*}

/-- A `Schedule` event is pending in the simulator. -/
def SchedulePending (s : Manager κ) : Prop := ∃ e ∈ s.pending, e.callback = .Schedule

/-- What the event ids that the manager keeps stand for, while their events are pending. -/
structure Events (s : Manager κ) : Prop where
  fresh : ∀ e ∈ s.pending, e.uid < s.nextUid
  once : ∀ e ∈ s.pending, ∀ e' ∈ s.pending, e.uid = e'.uid → e = e'
  next : ∀ u, s.nextSchedule = some u → u < s.nextUid ∧ ∀ e ∈ s.pending, e.uid = u → e.callback = .Schedule
  timer : ∀ k task u, s.tasks k = some task → task.waitTimer = some u →
    u < s.nextUid ∧ ∀ e ∈ s.pending, e.uid = u → e.callback ≠ .Schedule

/-- A run queue that is not empty is going to be scheduled. -/
structure Asked (s : Manager κ) : Prop where
  main : s.control = .main → s.active ≠ [] → SchedulePending s
  back : ∀ t, s.control = .back t → s.active ≠ [] → s.reSchedule = true

variable {s v : Manager κ} {k j t : κ} {task : Task}

theorem Events.mono (events : Events s) (pending : ∀ e ∈ v.pending, e ∈ s.pending)
    (uids : v.nextUid = s.nextUid) (next : v.nextSchedule = s.nextSchedule)
    (timers : ∀ k task u, v.tasks k = some task → task.waitTimer = some u →
      ∃ k' task', s.tasks k' = some task' ∧ task'.waitTimer = some u) : Events v where
  fresh e mem := uids ▸ events.fresh e (pending e mem)
  once e mem e' member' same := events.once e (pending e mem) e' (pending e' member') same
  next u known := by
    obtain ⟨bound, kind⟩ := events.next u (next ▸ known)
    exact ⟨uids ▸ bound, fun e mem => kind e (pending e mem)⟩
  timer k task u found known := by
    obtain ⟨k', task', found', known'⟩ := timers k task u found known
    obtain ⟨bound, kind⟩ := events.timer k' task' u found' known'
    exact ⟨uids ▸ bound, fun e mem => kind e (pending e mem)⟩

theorem Events.post (events : Events s) (delay : Nat) (callback : Callback κ) : Events (post delay callback s) := by
  have old : ∀ e ∈ (TaskManager.post delay callback s).pending,
      e ∈ s.pending ∨ e = ⟨s.nextUid, s.now + delay, callback⟩ := fun e mem => by
    simpa [TaskManager.post] using mem
  refine ⟨fun e mem => ?_, fun e mem e' member' same => ?_, fun u known => ?_, fun k task u found known => ?_⟩
  · change e.uid < s.nextUid + 1
    rcases old e mem with before | rfl
    · have bound := events.fresh e before
      omega
    · simp
  · rcases old e mem with before | rfl
    · have bound := events.fresh e before
      rcases old e' member' with before' | rfl
      · exact events.once e before e' before' same
      · simp only at same; omega
    · rcases old e' member' with before' | rfl
      · have bound := events.fresh e' before'
        simp only at same; omega
      · rfl
  · obtain ⟨bound, kind⟩ := events.next u known
    refine ⟨Nat.lt_succ_of_lt bound, fun e mem same => ?_⟩
    rcases old e mem with before | rfl
    · exact kind e before same
    · simp only at same; omega
  · obtain ⟨bound, kind⟩ := events.timer k task u found known
    refine ⟨Nat.lt_succ_of_lt bound, fun e mem same => ?_⟩
    rcases old e mem with before | rfl
    · exact kind e before same
    · simp only at same; omega

theorem Events.newest (events : Events s) {delay : Nat} {callback : Callback κ} :
    ∀ e ∈ (TaskManager.post delay callback s).pending, e.uid = s.nextUid → e.callback = callback := by
  intro e mem same
  have old : e ∈ s.pending ∨ e = ⟨s.nextUid, s.now + delay, callback⟩ := by
    simpa [TaskManager.post] using mem
  rcases old with before | rfl
  · have bound := events.fresh e before
    omega
  · rfl

theorem post_pending {delay : Nat} {callback : Callback κ} (asked : SchedulePending s) :
    SchedulePending (post delay callback s) := by
  obtain ⟨e, mem, kind⟩ := asked
  exact ⟨e, by simp [post, mem], kind⟩

theorem schedule_posted (delay : Nat) : SchedulePending (post delay .Schedule s) :=
  ⟨⟨s.nextUid, s.now + delay, .Schedule⟩, by simp [post], rfl⟩

theorem cancel_pending {id : Option Nat} (asked : SchedulePending s)
    (other : ∀ u, id = some u → ∀ e ∈ s.pending, e.uid = u → e.callback ≠ .Schedule) :
    SchedulePending (cancel id s) := by
  obtain ⟨e, mem, kind⟩ := asked
  have apart : some e.uid ≠ id := fun same => other e.uid same.symm e mem rfl kind
  exact ⟨e, List.mem_filter.mpr ⟨mem, by simpa using apart⟩, kind⟩

theorem cancel_sub {id : Option Nat} : ∀ e ∈ (cancel id s).pending, e ∈ s.pending :=
  fun _ mem => (List.mem_filter.mp mem).1

variable [DecidableEq κ]

theorem timers_setTask (same : ∀ u, task.waitTimer = some u → ∃ k' task', s.tasks k' = some task' ∧
      task'.waitTimer = some u) :
    ∀ j task' u, (setTask k task s).tasks j = some task' → task'.waitTimer = some u →
      ∃ k' task', s.tasks k' = some task' ∧ task'.waitTimer = some u := by
  intro j task' u found known
  by_cases here : j = k
  · subst here
    have eq : task = task' := by simpa [setTask] using found
    exact same u (eq ▸ known)
  · exact ⟨j, task', by simpa [setTask, here] using found, known⟩

theorem timers_deleteTask : ∀ j task' u, (deleteTask k s).tasks j = some task' → task'.waitTimer = some u →
      ∃ k' task', s.tasks k' = some task' ∧ task'.waitTimer = some u := by
  intro j task' u found known
  by_cases here : j = k
  · subst here; simp [deleteTask] at found
  · exact ⟨j, task', by simpa [deleteTask, here] using found, known⟩

section

variable (events : Events s)
include events

theorem Events.wakeup : Events (wakeup k s) := by
  unfold TaskManager.wakeup
  split
  · exact events
  next task found =>
    split
    · exact events
    · have woken : Events { setTask k { task with state := .ACTIVE } s with active := s.active ++ [k] } :=
        events.mono (fun _ mem => mem) rfl rfl (timers_setTask fun u known => ⟨k, task, found, known⟩)
      dsimp only
      split
      · have posted := woken.post 0 .Schedule
        refine ⟨posted.fresh, posted.once, fun u known => ?_, posted.timer⟩
        cases known
        exact ⟨Nat.lt_succ_self _, woken.newest⟩
      · exact woken

theorem Events.startTimers (queue : List (κ × Nat)) : Events (startTimers s queue) := by
  induction queue generalizing s with
  | nil => exact events.mono (fun _ mem => mem) rfl rfl fun k task _ found known =>
      ⟨k, task, found, known⟩
  | cons sleeper rest ih =>
    obtain ⟨k, timeout⟩ := sleeper
    unfold TaskManager.startTimers
    split
    · exact ih events
    next task found =>
      refine ih ?_
      have posted := events.post timeout (.EndWait k)
      refine ⟨posted.fresh, posted.once, posted.next, fun j task' u found' known => ?_⟩
      by_cases here : j = k
      · subst here
        have eq : task' = { task with waitTimer := some s.nextUid, frames := withTimer s.nextUid task.frames } := by
          simpa [TaskManager.post, setTask] using found'.symm
        have mine : u = s.nextUid := by simpa [eq] using known.symm
        subst mine
        refine ⟨Nat.lt_succ_self _, fun e mem same => ?_⟩
        rw [events.newest e mem same]
        simp
      · exact posted.timer j task' u (by simpa [TaskManager.post, setTask, here] using found') known

omit events in
theorem startTimers_pending (queue : List (κ × Nat)) (asked : SchedulePending s) :
    SchedulePending (startTimers s queue) := by
  induction queue generalizing s with
  | nil => exact asked
  | cons sleeper rest ih =>
    unfold startTimers
    split
    · exact ih asked
    · exact ih (post_pending asked)

theorem Events.deleteTask : Events (TaskManager.deleteTask k (cancel task.waitTimer s)) :=
  events.mono cancel_sub rfl rfl timers_deleteTask

theorem Events.garbageCollect (dead : List κ) : Events (garbageCollect s dead) := by
  induction dead generalizing s with
  | nil => exact events.mono (fun _ mem => mem) rfl rfl fun k task _ found known =>
      ⟨k, task, found, known⟩
  | cons k rest ih =>
    unfold TaskManager.garbageCollect
    split
    · exact ih events
    · exact ih events.deleteTask

theorem garbageCollect_pending (dead : List κ) (asked : SchedulePending s) :
    SchedulePending (garbageCollect s dead) := by
  induction dead generalizing s with
  | nil => exact asked
  | cons k rest ih =>
    unfold garbageCollect
    split
    · exact ih events asked
    next task found =>
      have kept : SchedulePending (cancel task.waitTimer s) :=
        cancel_pending asked fun u known => (events.timer k task u found known).2
      exact ih events.deleteTask kept

theorem Events.tidy : Events (tidy s) := by
  have done := (events.startTimers s.waitQueue).garbageCollect (TaskManager.startTimers s s.waitQueue).deadTasks
  exact done.mono (fun _ mem => mem) rfl rfl fun k task _ found known => ⟨k, task, found, known⟩

theorem tidy_pending (asked : SchedulePending s) : SchedulePending (tidy s) :=
  garbageCollect_pending (events.startTimers s.waitQueue) _ (startTimers_pending _ asked)

theorem Events.setTask (task : Task) {old : Task} (found : s.tasks k = some old)
    (timer : task.waitTimer = old.waitTimer) (tasks : v.tasks = (setTask k task s).tasks)
    (pending : ∀ e ∈ v.pending, e ∈ s.pending) (uids : v.nextUid = s.nextUid)
    (next : v.nextSchedule = s.nextSchedule) : Events v := by
  refine events.mono pending uids next fun j task' u found' known => ?_
  rw [tasks] at found'
  exact timers_setTask (fun u known => ⟨k, old, found, timer ▸ known⟩) j task' u found' known

theorem Events.sleepReturn (found : s.tasks t = some task) : Events (sleepReturn t task s) := by
  unfold TaskManager.sleepReturn
  split
  · exact events
  next rest _ => exact events.setTask { task with frames := rest } found rfl rfl (fun _ mem => mem) rfl rfl
  next timeout expectedEnd _ rest _ =>
    exact events.setTask { task with
      frames := rest
      timeLeft := if timeout ≠ 0 ∧ s.now ≤ expectedEnd then expectedEnd - s.now else 0 }
      found rfl rfl cancel_sub rfl rfl

theorem Events.schedule : Events (schedule s) := by
  unfold TaskManager.schedule
  split
  · exact events.tidy
  next next rest queue =>
    split
    · exact events
    next task found =>
      exact events.setTask { task with state := .RUNNING } found rfl rfl (fun _ mem => mem) rfl rfl

theorem Events.created : Events (TaskManager.setTask k ⟨.BLOCKED, none, [], 0⟩ s) :=
  events.mono (fun _ mem => mem) rfl rfl (timers_setTask (by simp))

theorem Events.start : Events (start k s) := events.created.wakeup

theorem Events.stop : Events (stop k s) := by
  unfold TaskManager.stop
  split
  · exact events
  next task found =>
    split
    · exact events
    · exact events.mono cancel_sub rfl rfl timers_deleteTask

theorem Events.endWait : Events (endWait k task s) := by
  unfold TaskManager.endWait
  split
  · exact events.wakeup
  · exact events

section

omit [DecidableEq κ]

theorem Events.reScheduled : Events (reScheduled s) := by
  unfold TaskManager.reScheduled
  split
  · have same : Events { s with reSchedule := false } :=
      ⟨events.fresh, events.once, events.next, events.timer⟩
    exact same.post _ _
  · exact events

theorem Events.popped (id : Option Nat) (now : Nat) : Events { cancel id s with now := now } :=
  events.mono cancel_sub rfl rfl fun k task _ found known => ⟨k, task, found, known⟩

end

theorem Events.step {a : Act κ} (run : TaskManager.step s a = some v) : Events v := by
  have same {v : Manager κ} (tasks : v.tasks = s.tasks) (pending : v.pending = s.pending)
      (uids : v.nextUid = s.nextUid) (next : v.nextSchedule = s.nextSchedule) : Events v :=
    events.mono (fun _ mem => pending ▸ mem) uids next fun k task _ found known =>
      ⟨k, task, tasks ▸ found, known⟩
  cases step_does run with
  | start k => exact events.start
  | wakeup k => exact events.wakeup
  | stop k => exact events.stop
  | invoke => exact events
  | execOnMain t => exact same rfl rfl rfl rfl
  | execReturn t => exact same rfl rfl rfl rfl
  | sleep t task delay here found =>
    exact events.setTask { task with state := .BLOCKED, frames := .sleep :: task.frames } found rfl rfl
      (fun _ mem => mem) rfl rfl
  | sleepFor t task timeout delay here found =>
    exact events.setTask { task with
      state := .BLOCKED
      frames := .sleepFor timeout (s.now + timeout) none :: task.frames } found rfl rfl (fun _ mem => mem) rfl rfl
  | yield t task delay here found =>
    exact events.setTask { task with state := .ACTIVE } found rfl rfl (fun _ mem => mem) rfl rfl
  | exit t task delay here found =>
    exact events.setTask { task with state := .DEAD } found rfl rfl (fun _ mem => cancel_sub _ mem) rfl rfl
  | sleepReturn t task here found => exact events.sleepReturn found
  | tail t => exact events.reScheduled.tidy
  | schedule e => exact (events.popped _ _).schedule
  | endWait e k task => exact (events.popped _ _).endWait
  | advance => exact same rfl rfl rfl rfl

omit events in
theorem wakeup_control : (wakeup k s).control = s.control := by
  unfold wakeup
  split
  · rfl
  · split
    · rfl
    · dsimp only
      split <;> rfl

theorem wakeup_pending (nobody : s.current = none)
    (before : s.active ≠ [] → SchedulePending s) (queued : (wakeup k s).active ≠ []) :
    SchedulePending (wakeup k s) := by
  revert queued
  unfold wakeup
  split
  · exact before
  next task found =>
    split
    · exact before
    · intro _
      dsimp only
      split
      · exact schedule_posted 0
      next pending =>
        -- the event that `m_nextSchedule` names has not started
        have running : isRunning s s.nextSchedule = true := by
          by_contra idle
          exact pending ⟨nobody, by simpa [isRunning, setTask] using idle⟩
        cases known : s.nextSchedule with
        | none => simp [known, isRunning] at running
        | some u =>
          rw [known] at running
          obtain ⟨e, mem, same⟩ := List.any_eq_true.mp running
          exact ⟨e, mem, (events.next u known).2 e mem (by simpa using same)⟩

theorem asked_wakeup (outside : ∀ t, s.control ≠ .back t) (nobody : s.control = .main → s.current = none)
    (before : s.control = .main → s.active ≠ [] → SchedulePending s) : Asked (wakeup k s) := by
  have control : (wakeup k s).control = s.control := wakeup_control
  refine ⟨fun main queued => ?_, fun t back => absurd (control ▸ back) (outside t)⟩
  have main : s.control = .main := control ▸ main
  exact wakeup_pending events (nobody main) (before main) queued

end

theorem Asked.stop (asked : Asked s) (events : Events s) (outside : ∀ t, s.control ≠ .back t) :
    Asked (stop k s) := by
  unfold TaskManager.stop
  split
  · exact asked
  next task found =>
    split
    · exact asked
    · refine ⟨fun main queued => ?_, fun t back => absurd back (outside t)⟩
      have before : s.active ≠ [] := fun none => by simp [deleteTask, cancel, none] at queued
      have pending : SchedulePending s := asked.main main before
      exact cancel_pending (s := { s with active := s.active.filter (· ≠ k) }) pending
        fun u known => (events.timer k task u found known).2

theorem tidy_control : (tidy s).control = .main := rfl

theorem tidy_active : (tidy s).active = s.active :=
  (garbageCollect_fields (s := startTimers s s.waitQueue) _).2.1.trans (startTimers_fields _).2.1

theorem Asked.tail (asked : Asked s) (events : Events s) (back : s.control = .back t) : Asked (tail s) := by
  refine ⟨fun _ queued => ?_, nofun⟩
  have before : s.active ≠ [] := by
    have same : (TaskManager.tail s).active = s.active := tidy_active.trans reScheduled_fields.2.2.1
    exact same ▸ queued
  have posted : SchedulePending (reScheduled s) := by
    rw [reScheduled, if_pos (asked.back t back before)]
    exact schedule_posted _
  exact tidy_pending events.reScheduled posted

omit [DecidableEq κ] in
theorem Asked.leave (t : κ) (delay : Int) (s : Manager κ) : Asked (leave t delay s) := by
  refine ⟨nofun, fun _ _ queued => ?_⟩
  have before : s.active ≠ [] := queued
  simp [TaskManager.leave, before]

theorem sleepReturn_control : (sleepReturn t task s).control = s.control := (sleepReturn_fields t task s).2.2.2

theorem Asked.schedule (rep : Rep s) : Asked (schedule s) := by
  unfold TaskManager.schedule
  split
  next empty =>
    refine ⟨fun _ queued => ?_, (by rintro _ ⟨⟩)⟩
    exact absurd (tidy_active.trans empty) queued
  next next rest queue =>
    have active := rep.first_active queue
    split
    next found => simp [stateOf, found] at active
    next task found => exact ⟨(by rintro ⟨⟩), (by rintro _ ⟨⟩)⟩

theorem Asked.step {a : Act κ} (asked : Asked s) (events : Events s) (rep : Rep s)
    (run : TaskManager.step s a = some v) : Asked v := by
  have nobody : s.control = .main → s.current = none := fun main => by rw [rep.current, main]; rfl
  cases step_does run with
  | start k outside fresh => exact asked_wakeup events.created outside nobody asked.main
  | wakeup k outside => exact asked_wakeup events outside nobody asked.main
  | stop k outside => exact asked.stop events outside
  | invoke => exact asked
  | execOnMain t => exact ⟨(by rintro ⟨⟩), (by rintro _ ⟨⟩)⟩
  | execReturn t => exact ⟨(by rintro ⟨⟩), (by rintro _ ⟨⟩)⟩
  | sleep t task delay => exact .leave _ _ _
  | sleepFor t task timeout delay => exact .leave _ _ _
  | yield t task delay => exact .leave _ _ _
  | exit t task delay => exact .leave _ _ _
  | sleepReturn t task here =>
    have there : (sleepReturn t task s).control = .task t := sleepReturn_control.trans here
    exact ⟨fun main => by simp [there] at main, fun u back => by simp [there] at back⟩
  | tail t back => exact asked.tail events back
  | schedule e =>
    have popped : Rep { cancel (some e.uid) s with now := e.ts } :=
      rep.congr (fun _ => rfl) rfl rfl rfl rfl
    exact .schedule popped
  | endWait e k task main mem callback found =>
    have popped := events.popped (some e.uid) e.ts
    have before : s.active ≠ [] → SchedulePending { cancel (some e.uid) s with now := e.ts } := by
      intro queued
      refine cancel_pending (asked.main main queued) fun u known e' member' same => ?_
      have here : e = e' := events.once e mem e' member' ((Option.some.inj known).trans same.symm)
      rw [← here, callback]
      simp
    unfold TaskManager.endWait
    split
    · exact asked_wakeup popped (by simp [cancel, main]) nobody fun _ => before
    · refine ⟨fun _ queued => before queued, fun t back => ?_⟩
      cases main.symm.trans back
  | advance main => exact ⟨asked.main, asked.back⟩

omit [DecidableEq κ] in
theorem Start.events (first : Start s) : Events s where
  fresh := by simp [first.pending]
  once := by simp [first.pending]
  next := by simp [first.nextSchedule]
  timer := by simp [first.tasks]

theorem events_of_reach {C : Manager κ → Act κ → Prop} (reach : (machine κ).ReachBy C s) : Events s :=
  reach.invariant (I := Events) (fun _ first => Start.events first) fun _ _ _ events _ run => events.step run

/-- Whenever control is on the main context and the run queue is not empty, a `Schedule`
event is pending in the simulator. -/
theorem schedule_pending (s : Manager κ) (reach : (machine κ).Reach s) (main : s.control = .main)
    (queued : s.active ≠ []) : SchedulePending s := by
  have asked : Asked s := by
    refine reach.invariant' (I := Asked) (fun s first => ?_)
      fun s a v before asked _ run => asked.step (events_of_reach before) (rep_of_reach before) run
    refine ⟨fun _ queued => absurd first.active queued, fun t back => ?_⟩
    rw [first.control] at back
    cases back
  exact asked.main main queued

/-- Two tasks are started, and the first has slept and given control back. -/
def secondWaits : Manager Nat :=
  ((machine Nat).replay noTasks [.start 0, .start 1, .event 0, .sleepFor 5 3, .tail]).getD noTasks

theorem schedule_pending_secondWaits : SchedulePending secondWaits := by
  have run : (machine Nat).replay noTasks [.start 0, .start 1, .event 0, .sleepFor 5 3, .tail] =
    some secondWaits := rfl
  exact schedule_pending secondWaits ((Machine.ReachBy.start noTasks_start).replay (fun _ _ => trivial) run) rfl
    (by decide)

end Dce.TaskManager
