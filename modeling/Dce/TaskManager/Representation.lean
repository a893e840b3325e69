import Dce.TaskManager.Model

namespace Dce.TaskManager

open List

variable {κ : Type*}

/-- The state of a task; none once it is deleted. -/
def stateOf (s : Manager κ) (k : κ) : Option TaskState := (s.tasks k).map Task.state

/-- The task `m_current` has to point to. -/
def Control.holder : Control κ → Option κ
  | .main | .back _ => none
  | .exec t | .task t => some t

variable [DecidableEq κ]

/-- Each task is where its state says: `m_current` is the running one, the run queue has the
active ones and `m_deadTasks` the dead ones, once each. -/
structure Rep (s : Manager κ) : Prop where
  current : s.current = s.control.holder
  running : ∀ k, stateOf s k = some .RUNNING ↔ s.current = some k
  queue : ∀ k, s.active.count k = if stateOf s k = some .ACTIVE then 1 else 0
  dead : ∀ k, s.deadTasks.count k = if stateOf s k = some .DEAD then 1 else 0
  /-- The dead are deleted before anything else happens on the main context. -/
  reaped : (∀ t, s.control ≠ .back t) → s.deadTasks = []

variable {s v : Manager κ} {k j t : κ} {task : Task}

theorem stateOf_setTask : stateOf (setTask k task s) j = if j = k then some task.state else stateOf s j := by
  by_cases same : j = k
  · subst same; simp [stateOf, setTask]
  · simp [stateOf, setTask, same]

theorem stateOf_deleteTask : stateOf (deleteTask k s) j = if j = k then none else stateOf s j := by
  by_cases same : j = k
  · subst same; simp [stateOf, deleteTask]
  · simp [stateOf, deleteTask, same]

omit [DecidableEq κ] in
theorem stateOf_congr (same : v.tasks = s.tasks) : stateOf v j = stateOf s j := by
  unfold stateOf; rw [same]

theorem stateOf_startTimers (queue : List (κ × Nat)) : stateOf (startTimers s queue) j = stateOf s j := by
  induction queue generalizing s with
  | nil => rfl
  | cons sleeper rest ih =>
    obtain ⟨k, timeout⟩ := sleeper
    unfold startTimers
    split
    · exact ih
    next task found =>
      rw [ih]
      have posted : ∀ (s : Manager κ), stateOf (post timeout (.EndWait k) s) j = stateOf s j :=
        fun _ => rfl
      rw [posted, stateOf_setTask]
      by_cases same : j = k
      · subst same; simp [stateOf, found]
      · rw [if_neg same]

theorem startTimers_fields (queue : List (κ × Nat)) :
    (startTimers s queue).current = s.current ∧ (startTimers s queue).active = s.active ∧
      (startTimers s queue).deadTasks = s.deadTasks ∧ (startTimers s queue).control = s.control := by
  induction queue generalizing s with
  | nil => exact ⟨rfl, rfl, rfl, rfl⟩
  | cons sleeper rest ih =>
    unfold startTimers
    split
    · exact ih
    · exact ih

theorem stateOf_garbageCollect (dead : List κ) : stateOf (garbageCollect s dead) j = if j ∈ dead then none
    else stateOf s j := by
  induction dead generalizing s with
  | nil => rfl
  | cons k rest ih =>
    unfold garbageCollect
    split
    next found =>
      rw [ih]
      by_cases same : j = k
      · subst same; simp [stateOf, found]
      · simp [same]
    next task found =>
      rw [ih, stateOf_deleteTask]
      by_cases same : j = k
      · subst same; simp
      · have kept : stateOf (cancel task.waitTimer s) j = stateOf s j := rfl
        simp [same, kept]

theorem garbageCollect_fields (dead : List κ) :
    (garbageCollect s dead).current = s.current ∧ (garbageCollect s dead).active = s.active ∧
      (garbageCollect s dead).deadTasks = [] ∧ (garbageCollect s dead).control = s.control := by
  induction dead generalizing s with
  | nil => exact ⟨rfl, rfl, rfl, rfl⟩
  | cons k rest ih =>
    unfold garbageCollect
    split
    · exact ih
    · exact ih

section

variable (rep : Rep s)
include rep

theorem Rep.congr (states : ∀ k, stateOf v k = stateOf s k) (current : v.current = s.current)
    (active : v.active = s.active)
    (dead : v.deadTasks = s.deadTasks) (control : v.control = s.control) : Rep v where
  current := by rw [current, control]; exact rep.current
  running k := by rw [states, current]; exact rep.running k
  queue k := by rw [states, active]; exact rep.queue k
  dead k := by rw [states, dead]; exact rep.dead k
  reaped outside := by rw [dead]; exact rep.reaped (control ▸ outside)

section

variable (outside : ∀ t, s.control ≠ .back t)
include outside

theorem Rep.not_dead : stateOf s k ≠ some .DEAD := by
  intro corpse
  have count := rep.dead k
  rw [rep.reaped outside] at count
  simp [corpse] at count

omit outside in
theorem Rep.enqueue (blocked : stateOf s k = some .BLOCKED) (state : task.state = .ACTIVE) :
    Rep { setTask k task s with active := s.active ++ [k] } := by
  have states : ∀ j, stateOf { setTask k task s with active := s.active ++ [k] } j =
      if j = k then some .ACTIVE else stateOf s j := fun j => by
    rw [← state]
    exact stateOf_setTask
  have apart : s.current ≠ some k := fun here => by
    have running := (rep.running k).mpr here
    rw [blocked] at running
    cases running
  refine ⟨rep.current, fun j => ?_, fun j => ?_, fun j => ?_, rep.reaped⟩
  · rw [states]
    by_cases same : j = k
    · subst same; simpa [setTask] using apart
    · rw [if_neg same]; exact rep.running j
  · rw [states]
    have count := rep.queue j
    by_cases same : j = k
    · subst same
      rw [blocked] at count
      simpa using count
    · simpa [same, Ne.symm same] using count
  · rw [states]
    have count := rep.dead j
    by_cases same : j = k
    · subst same
      rw [blocked] at count
      simpa [setTask] using count
    · rw [if_neg same]; exact count

theorem Rep.wakeup : Rep (wakeup k s) := by
  unfold TaskManager.wakeup
  split
  · exact rep
  next task found =>
    split
    · exact rep
    · have lives := rep.not_dead (k := k) outside
      have blocked : stateOf s k = some .BLOCKED := by
        cases state : task.state <;> simp_all [stateOf]
      have queued : Rep { setTask k { task with state := .ACTIVE } s with active := s.active ++ [k] } :=
        rep.enqueue blocked rfl
      dsimp only
      split
      · exact queued.congr (fun _ => rfl) rfl rfl rfl rfl
      · exact queued

theorem Rep.start (fresh : s.tasks k = none) : Rep (start k s) := by
  have unknown : stateOf s k = none := by simp [stateOf, fresh]
  have states : ∀ j, stateOf (setTask k ⟨.BLOCKED, none, [], 0⟩ s) j =
      if j = k then some .BLOCKED else stateOf s j := fun j => stateOf_setTask
  have made : Rep (setTask k ⟨.BLOCKED, none, [], 0⟩ s) := by
    refine ⟨rep.current, fun j => ?_, fun j => ?_, fun j => ?_, rep.reaped⟩
    · rw [states]
      have before := rep.running j
      by_cases same : j = k
      · subst same; simpa [unknown, setTask] using before
      · rw [if_neg same]; exact before
    · rw [states]
      have count := rep.queue j
      by_cases same : j = k
      · subst same; simpa [unknown, setTask] using count
      · rw [if_neg same]; exact count
    · rw [states]
      have count := rep.dead j
      by_cases same : j = k
      · subst same; simpa [unknown, setTask] using count
      · rw [if_neg same]; exact count
  exact made.wakeup outside

theorem Rep.stop : Rep (stop k s) := by
  unfold TaskManager.stop
  split
  · exact rep
  next task found =>
    split
    · exact rep
    next other =>
      have states : ∀ j, stateOf (deleteTask k (cancel task.waitTimer
          { s with active := s.active.filter (· ≠ k) })) j = if j = k then none else stateOf s j :=
        fun j => stateOf_deleteTask
      refine ⟨rep.current, fun j => ?_, fun j => ?_, fun j => ?_, rep.reaped⟩
      · rw [states]
        by_cases same : j = k
        · subst same; simpa [deleteTask, cancel] using other
        · rw [if_neg same]; exact rep.running j
      · rw [states]
        by_cases same : j = k
        · subst same
          simp [deleteTask, cancel, count_eq_zero]
        · have kept : (s.active.filter (· ≠ k)).count j = s.active.count j :=
            count_filter (by simpa using same)
          rw [if_neg same, ← rep.queue j, ← kept]
          rfl
      · rw [states]
        have count := rep.dead j
        have none : s.deadTasks = [] := rep.reaped outside
        by_cases same : j = k
        · subst same; simp [deleteTask, cancel, none]
        · rw [if_neg same]; exact count

end

theorem Rep.leave {delay : Int} (st : TaskState) (here : s.control = .task t) (running : st ≠ .RUNNING)
    (states : ∀ j, stateOf v j = if j = t then some st else stateOf s j)
    (queue : v.active = if st = .ACTIVE then s.active ++ [t] else s.active)
    (dead : v.deadTasks = if st = .DEAD then s.deadTasks ++ [t] else s.deadTasks) :
    Rep (TaskManager.leave t delay v) := by
  have mine : s.current = some t := by rw [rep.current, here]; rfl
  have before : stateOf s t = some .RUNNING := (rep.running t).mpr mine
  refine ⟨rfl, fun j => ?_, fun j => ?_, fun j => ?_, fun outside => absurd rfl (outside t)⟩
  · have moved : stateOf (TaskManager.leave t delay v) j = stateOf v j := rfl
    rw [moved, states]
    by_cases same : j = t
    · simpa [same, TaskManager.leave] using running
    · have other := rep.running j
      rw [mine] at other
      simpa [same, TaskManager.leave, Ne.symm same] using other
  · have moved : stateOf (TaskManager.leave t delay v) j = stateOf v j := rfl
    change v.active.count j = _
    rw [moved, states, queue]
    have count := rep.queue j
    by_cases same : j = t
    · subst same
      rw [before] at count
      by_cases active : st = .ACTIVE
      · simpa [active] using count
      · simpa [active] using count
    · rw [if_neg same]
      by_cases active : st = .ACTIVE
      · simpa [active, Ne.symm same] using count
      · simpa [active] using count
  · have moved : stateOf (TaskManager.leave t delay v) j = stateOf v j := rfl
    change v.deadTasks.count j = _
    rw [moved, states, dead]
    have count := rep.dead j
    by_cases same : j = t
    · subst same
      rw [before] at count
      by_cases corpse : st = .DEAD
      · simpa [corpse] using count
      · simpa [corpse] using count
    · rw [if_neg same]
      by_cases corpse : st = .DEAD
      · simpa [corpse, Ne.symm same] using count
      · simpa [corpse] using count

section

variable (here : s.control = .task t)
include here

theorem Rep.sleep (delay : Int) : Rep (sleep t task delay s) :=
  rep.leave .BLOCKED here (by simp) (fun _ => stateOf_setTask) rfl rfl

theorem Rep.sleepFor (timeout : Nat) (delay : Int) : Rep (sleepFor t task timeout delay s) :=
  rep.leave .BLOCKED here (by simp) (fun _ => stateOf_setTask) rfl rfl

theorem Rep.yield (delay : Int) : Rep (yield t task delay s) :=
  rep.leave .ACTIVE here (by simp) (fun _ => stateOf_setTask) rfl rfl

theorem Rep.exit (delay : Int) : Rep (exit t task delay s) :=
  rep.leave .DEAD here (by simp) (fun _ => stateOf_setTask) rfl rfl

end

omit rep in
theorem stateOf_tidy : stateOf (tidy s) j = if j ∈ s.deadTasks then none else stateOf s j := by
  have collected : stateOf (tidy s) j = if j ∈ (startTimers s s.waitQueue).deadTasks then none
      else stateOf (startTimers s s.waitQueue) j := stateOf_garbageCollect _
  rw [collected, stateOf_startTimers, (startTimers_fields s.waitQueue).2.2.1]

theorem Rep.tidy (nobody : s.current = none) : Rep (TaskManager.tidy s) := by
  have timers := startTimers_fields (s := s) s.waitQueue
  have states : ∀ j, stateOf (TaskManager.tidy s) j = if j ∈ s.deadTasks then none else stateOf s j :=
    fun j => stateOf_tidy
  have fields := garbageCollect_fields (s := startTimers s s.waitQueue) (startTimers s s.waitQueue).deadTasks
  have current : (TaskManager.tidy s).current = none := fields.1.trans (timers.1.trans nobody)
  have active : (TaskManager.tidy s).active = s.active := fields.2.1.trans timers.2.1
  have corpse : ∀ j, j ∈ s.deadTasks → stateOf s j = some .DEAD := fun j mem => by
    have count := rep.dead j
    have positive := count_pos_iff.mpr mem
    by_contra other
    simp only [other, if_false] at count
    omega
  refine ⟨current, fun j => ?_, fun j => ?_, fun j => ?_, fun _ => fields.2.2.1⟩
  · rw [states, current]
    have before := rep.running j
    rw [nobody] at before
    by_cases inDead : j ∈ s.deadTasks
    · simp [inDead]
    · simpa [inDead] using before
  · rw [states, active, rep.queue j]
    by_cases inDead : j ∈ s.deadTasks
    · simp [corpse j inDead]
    · simp [inDead]
  · have none : (TaskManager.tidy s).deadTasks = [] := fields.2.2.1
    rw [states, none]
    have count := rep.dead j
    by_cases inDead : j ∈ s.deadTasks
    · simp [inDead]
    · rw [count_eq_zero.mpr inDead] at count
      simpa [inDead] using count

omit rep in
theorem stateOf_sleepReturn (found : s.tasks t = some task) (j : κ) :
    stateOf (sleepReturn t task s) j = stateOf s j := by
  have same : ∀ (v : Manager κ), v.tasks = s.tasks → ∀ (after : Task), after.state = task.state →
      stateOf (setTask t after v) j = stateOf s j := fun v tasks after state => by
    rw [stateOf_setTask, stateOf_congr tasks]
    by_cases here : j = t
    · subst here; simp [stateOf, found, state]
    · rw [if_neg here]
  unfold sleepReturn
  split
  · rfl
  · exact same s rfl _ rfl
  · exact same (cancel task.waitTimer s) rfl _ rfl

omit rep in
theorem sleepReturn_fields (t : κ) (task : Task) (s : Manager κ) :
    (sleepReturn t task s).current = s.current ∧ (sleepReturn t task s).active = s.active ∧
      (sleepReturn t task s).deadTasks = s.deadTasks ∧ (sleepReturn t task s).control = s.control := by
  unfold sleepReturn
  split <;> exact ⟨rfl, rfl, rfl, rfl⟩

theorem Rep.first_active {rest : List κ} (queue : s.active = k :: rest) : stateOf s k = some .ACTIVE := by
  have count := rep.queue k
  by_contra other
  simp [other, queue] at count

theorem Rep.switchTo {rest : List κ} (main : s.control = .main)
    (queue : s.active = t :: rest) : Rep (switchTo t task rest s) := by
  have nobody : s.current = none := by rw [rep.current, main]; rfl
  have active : stateOf s t = some .ACTIVE := rep.first_active queue
  have states : ∀ j, stateOf (TaskManager.switchTo t task rest s) j =
      if j = t then some .RUNNING else stateOf s j := fun j => stateOf_setTask
  refine ⟨rfl, fun j => ?_, fun j => ?_, fun j => ?_, fun _ => rep.reaped (by simp [main])⟩
  · rw [states]
    have before := rep.running j
    rw [nobody] at before
    by_cases same : j = t
    · simp [same, TaskManager.switchTo]
    · simpa [same, TaskManager.switchTo, Ne.symm same] using before
  · rw [states]
    have count := rep.queue j
    rw [queue] at count
    by_cases same : j = t
    · subst same
      rw [active] at count
      simpa [TaskManager.switchTo] using count
    · simpa [TaskManager.switchTo, same, Ne.symm same] using count
  · rw [states]
    have count := rep.dead j
    by_cases same : j = t
    · subst same
      rw [active] at count
      simpa [TaskManager.switchTo, setTask] using count
    · rw [if_neg same]; exact count

theorem Rep.schedule (main : s.control = .main) : Rep (schedule s) := by
  have nobody : s.current = none := by rw [rep.current, main]; rfl
  unfold TaskManager.schedule
  split
  · exact rep.tidy nobody
  next next rest queue =>
    split
    · exact rep
    next task found => exact rep.switchTo main queue

theorem Rep.sleepReturn (found : s.tasks t = some task) : Rep (sleepReturn t task s) := by
  obtain ⟨current, active, dead, control⟩ := sleepReturn_fields t task s
  exact rep.congr (stateOf_sleepReturn found) current active dead control

omit rep in
omit [DecidableEq κ] in
theorem reScheduled_fields : (reScheduled s).tasks = s.tasks ∧ (reScheduled s).current = s.current ∧
    (reScheduled s).active = s.active ∧ (reScheduled s).deadTasks = s.deadTasks ∧
    (reScheduled s).control = s.control := by
  unfold reScheduled
  split <;> exact ⟨rfl, rfl, rfl, rfl, rfl⟩

theorem Rep.tail (nobody : s.current = none) : Rep (tail s) := by
  obtain ⟨tasks, current, active, dead, control⟩ := reScheduled_fields (s := s)
  exact (rep.congr (fun _ => stateOf_congr tasks) current active dead control).tidy (current.trans nobody)

theorem Rep.endWait (main : s.control = .main) : Rep (endWait k task s) := by
  unfold TaskManager.endWait
  split
  · exact rep.wakeup (by simp [main])
  · exact rep

end

/-- What a step does, with what it needs of the state. -/
inductive Does (s : Manager κ) : Act κ → Manager κ → Prop
  | start (k : κ) : (∀ t, s.control ≠ .back t) → s.tasks k = none → Does s (.start k) (start k s)
  | wakeup (k : κ) : (∀ t, s.control ≠ .back t) → Does s (.wakeup k) (wakeup k s)
  | stop (k : κ) : (∀ t, s.control ≠ .back t) → Does s (.stop k) (stop k s)
  | invoke : s.control = .main → Does s .execOnMain s
  | execOnMain (t : κ) : s.control = .task t → Does s .execOnMain { s with control := .exec t }
  | execReturn (t : κ) : s.control = .exec t → Does s .execReturn { s with control := .task t }
  | sleep (t : κ) (task : Task) (delay : Int) : s.control = .task t → s.tasks t = some task →
      Does s (.sleep delay) (sleep t task delay s)
  | sleepFor (t : κ) (task : Task) (timeout : Nat) (delay : Int) : s.control = .task t → s.tasks t = some task →
      Does s (.sleepFor timeout delay) (sleepFor t task timeout delay s)
  | yield (t : κ) (task : Task) (delay : Int) : s.control = .task t → s.tasks t = some task →
      Does s (.yield delay) (yield t task delay s)
  | exit (t : κ) (task : Task) (delay : Int) : s.control = .task t → s.tasks t = some task →
      Does s (.exit delay) (exit t task delay s)
  | sleepReturn (t : κ) (task : Task) : s.control = .task t → s.tasks t = some task →
      Does s .sleepReturn (sleepReturn t task s)
  | tail (t : κ) : s.control = .back t → Does s .tail (tail s)
  | schedule (e : Event κ) : s.control = .main → e ∈ s.pending → e.callback = .Schedule →
      Does s (.event e.uid) (schedule { cancel (some e.uid) s with now := e.ts })
  | endWait (e : Event κ) (k : κ) (task : Task) : s.control = .main → e ∈ s.pending → e.callback = .EndWait k →
      s.tasks k = some task →
      Does s (.event e.uid) (endWait k task { cancel (some e.uid) s with now := e.ts })
  | advance : s.control = .main → Does s .advance { s with now := s.now + 1 }

omit [DecidableEq κ] in
theorem inTask_eq_some {f : κ → Task → Manager κ} (run : inTask s f = some v) :
    ∃ t task, s.control = .task t ∧ s.tasks t = some task ∧ v = f t task := by
  unfold inTask at run
  split at run
  next t here =>
    obtain ⟨task, found, same⟩ := Option.map_eq_some_iff.mp run
    exact ⟨t, task, here, found, same.symm⟩
  next => cases run

theorem step_does {a : Act κ} (run : step s a = some v) : Does s a v := by
  cases a with
  | start k =>
    simp only [step] at run
    split at run
    · cases run
    next outside =>
      split at run
      next fresh => cases run; exact .start k (fun t h => outside t h) fresh
      next => cases run
  | wakeup k =>
    simp only [step] at run
    split at run
    · cases run
    next outside =>
      split at run
      next => cases run
      next => cases run; exact .wakeup k (fun t h => outside t h)
  | stop k =>
    simp only [step] at run
    split at run
    · cases run
    next outside =>
      split at run
      next => cases run
      next => cases run; exact .stop k (fun t h => outside t h)
  | execOnMain =>
    simp only [step] at run
    split at run
    next main => cases run; exact .invoke main
    next t here => cases run; exact .execOnMain t here
    next => cases run
  | execReturn =>
    simp only [step] at run
    split at run
    next t here => cases run; exact .execReturn t here
    next => cases run
  | sleep delay =>
    obtain ⟨t, task, here, found, rfl⟩ := inTask_eq_some run
    exact .sleep t task delay here found
  | sleepFor timeout delay =>
    obtain ⟨t, task, here, found, rfl⟩ := inTask_eq_some run
    exact .sleepFor t task timeout delay here found
  | yield delay =>
    obtain ⟨t, task, here, found, rfl⟩ := inTask_eq_some run
    exact .yield t task delay here found
  | exit delay =>
    obtain ⟨t, task, here, found, rfl⟩ := inTask_eq_some run
    exact .exit t task delay here found
  | sleepReturn =>
    obtain ⟨t, task, here, found, rfl⟩ := inTask_eq_some run
    exact .sleepReturn t task here found
  | tail =>
    simp only [step] at run
    split at run
    next t here => cases run; exact .tail t here
    next => cases run
  | event uid =>
    simp only [step] at run
    split at run
    next e main found =>
      have mem := mem_of_find?_eq_some found
      have same : e.uid = uid := by simpa using find?_some found
      subst same
      split at run
      next =>
        split at run
        next callback => cases run; exact .schedule e main mem callback
        next k callback =>
          obtain ⟨task, exists_, rfl⟩ := Option.map_eq_some_iff.mp run
          exact .endWait e k task main mem callback exists_
      next => cases run
    next => cases run
  | advance =>
    simp only [step] at run
    split at run
    next main =>
      split at run
      next => cases run; exact .advance main
      next => cases run
    next => cases run

theorem Rep.step {a : Act κ} (rep : Rep s) (run : TaskManager.step s a = some v) : Rep v := by
  cases step_does run with
  | start k outside fresh => exact rep.start outside fresh
  | wakeup k outside => exact rep.wakeup outside
  | stop k outside => exact rep.stop outside
  | invoke => exact rep
  | execOnMain t here =>
    have mine : s.current = some t := by rw [rep.current, here]; rfl
    exact ⟨mine, rep.running, rep.queue, rep.dead, fun _ => rep.reaped (by simp [here])⟩
  | execReturn t here =>
    have mine : s.current = some t := by rw [rep.current, here]; rfl
    exact ⟨mine, rep.running, rep.queue, rep.dead, fun _ => rep.reaped (by simp [here])⟩
  | sleep t task delay here => exact rep.sleep here delay
  | sleepFor t task timeout delay here => exact rep.sleepFor here timeout delay
  | yield t task delay here => exact rep.yield here delay
  | exit t task delay here => exact rep.exit here delay
  | sleepReturn t task here found => exact rep.sleepReturn found
  | tail t here => exact rep.tail (by rw [rep.current, here]; rfl)
  | schedule e main =>
    have popped : Rep { cancel (some e.uid) s with now := e.ts } :=
      rep.congr (fun _ => rfl) rfl rfl rfl rfl
    exact popped.schedule main
  | endWait e k task main =>
    have popped : Rep { cancel (some e.uid) s with now := e.ts } :=
      rep.congr (fun _ => rfl) rfl rfl rfl rfl
    exact popped.endWait main
  | advance => exact rep.congr (fun _ => rfl) rfl rfl rfl rfl

theorem rep_of_reach {C : Manager κ → Act κ → Prop} (reach : (machine κ).ReachBy C s) : Rep s := by
  refine reach.invariant (I := Rep) (fun s first => ?_) fun s a v rep _ run => rep.step run
  have unknown : ∀ k, stateOf s k = none := fun k => by simp [stateOf, first.tasks k]
  refine ⟨?_, fun k => ?_, fun k => ?_, fun k => ?_, fun _ => first.deadTasks⟩
  · rw [first.current, first.control]; rfl
  · simp [unknown, first.current]
  · simp [unknown, first.active]
  · simp [unknown, first.deadTasks]

theorem Rep.deleted {a : Act κ} (rep : Rep s) (run : TaskManager.step s a = some v)
    (corpse : stateOf s k = some .DEAD) : stateOf v k = none := by
  have back : ∃ t, s.control = .back t := by
    by_contra outside
    exact rep.not_dead (fun t h => outside ⟨t, h⟩) corpse
  have listed : k ∈ s.deadTasks := by
    have count := rep.dead k
    rw [if_pos corpse] at count
    exact count_pos_iff.mp (by omega)
  obtain ⟨t, here⟩ := back
  cases step_does run with
  | tail =>
    have same : (reScheduled s).deadTasks = s.deadTasks := reScheduled_fields.2.2.2.1
    rw [TaskManager.tail, stateOf_tidy, if_pos (same ▸ listed)]
  | start k outside => exact absurd here (outside t)
  | wakeup k outside => exact absurd here (outside t)
  | stop k outside => exact absurd here (outside t)
  | _ => simp_all

/-- The representation the manager has to keep in a state `s`. -/
structure Represents (s : Manager κ) : Prop where
  running : ∀ k, stateOf s k = some .RUNNING ↔ s.current = some k
  main : s.control = .main → s.current = none
  queue : ∀ k, s.active.count k = if stateOf s k = some .ACTIVE then 1 else 0
  dead : ∀ k, s.deadTasks.count k = if stateOf s k = some .DEAD then 1 else 0

/-- In every reachable state each task is exactly where its state says, and the next step of
the manager leaves a dead task neither running nor queued: it is still dead or deleted. -/
theorem representation_kept (s : Manager κ) (reach : (machine κ).Reach s) :
    Represents s ∧ ∀ a v k, (machine κ).step s a = some v → stateOf s k = some .DEAD →
      (stateOf v k = some .DEAD ∨ stateOf v k = none) ∧ k ∉ v.active ∧ v.current ≠ some k := by
  have rep := rep_of_reach reach
  refine ⟨⟨rep.running, fun main => ?_, rep.queue, rep.dead⟩, fun a v k run corpse => ?_⟩
  · rw [rep.current, main]; rfl
  · have after : Rep v := rep.step run
    have ended : stateOf v k = some .DEAD ∨ stateOf v k = none := .inr (rep.deleted run corpse)
    refine ⟨ended, fun queued => ?_, fun here => ?_⟩
    · have count := after.queue k
      have positive := count_pos_iff.mpr queued
      rcases ended with state | state <;> simp [state] at count <;> omega
    · have running := (after.running k).mpr here
      rcases ended with state | state <;> rw [state] at running <;> cases running

/-- A node without tasks. -/
def noTasks : Manager Nat where
  tasks _ := none
  current := none
  active := []
  nextSchedule := none
  reSchedule := false
  reScheduleTime := 0
  waitQueue := []
  deadTasks := []
  control := .main
  pending := []
  nextUid := 0
  now := 0

theorem noTasks_start : (machine Nat).init noTasks := ⟨fun _ => rfl, rfl, rfl, rfl, rfl, rfl, rfl, rfl⟩

/-- Two tasks are started; the first runs, sleeps for a while and is followed by the second,
which exits. -/
def oneExited : Manager Nat :=
  ((machine Nat).replay noTasks [.start 0, .start 1, .event 0, .sleepFor 5 0, .tail, .event 1, .exit 0]).getD noTasks

theorem representation_oneExited : Represents oneExited ∧ ∀ a v k,
    (machine Nat).step oneExited a = some v → stateOf oneExited k = some .DEAD →
      (stateOf v k = some .DEAD ∨ stateOf v k = none) ∧ k ∉ v.active ∧ v.current ≠ some k := by
  have run : (machine Nat).replay noTasks [.start 0, .start 1, .event 0, .sleepFor 5 0, .tail,
      .event 1, .exit 0] = some oneExited := rfl
  exact representation_kept oneExited ((Machine.ReachBy.start noTasks_start).replay (fun _ _ => trivial) run)

example : stateOf oneExited 1 = some .DEAD ∧ oneExited.deadTasks = [1] := ⟨rfl, rfl⟩

end Dce.TaskManager
