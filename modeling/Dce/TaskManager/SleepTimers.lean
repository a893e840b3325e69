import Dce.TaskManager.ScheduleEvent

/- The timers of the sleeps. A task has one slot for them, `m_waitTimer`, for all the sleeps on its stack. -/

namespace Dce.TaskManager

open Function List Option

variable {κ : Type*} {s v : Manager κ} {k j t : κ} {task task' : Task} {queued : Option κ}
    {timeout expectedEnd : Nat}

/-- The innermost sleep is a `Sleep (timeout)`. -/
def InTimedSleep (task : Task) : Prop :=
  ∃ timeout expectedEnd timer rest, task.frames = .sleepFor timeout expectedEnd timer :: rest

/-- What the slot of a task says, and what the timer of a blocked task is for. In the task `queued` the timer is not
scheduled yet. -/
structure Timed (queued : Option κ) (s : Manager κ) : Prop where
  slot : ∀ k task e, s.tasks k = some task → e ∈ s.pending → task.waitTimer = some e.uid → e.callback = .EndWait k
  named : ∀ k, ∀ e ∈ s.pending, e.callback = .EndWait k → ∃ task, s.tasks k = some task ∧ task.waitTimer = some e.uid
  own : ∀ k task e, s.tasks k = some task → task.state = .BLOCKED → e ∈ s.pending → e.callback = .EndWait k →
    ∃ timeout expectedEnd rest, task.frames = .sleepFor timeout expectedEnd (some e.uid) :: rest
  armed : ∀ k task timeout expectedEnd timer rest, some k ≠ queued → s.tasks k = some task → task.state = .BLOCKED →
    task.frames = .sleepFor timeout expectedEnd timer :: rest → timeout ≠ 0 →
    ∃ e ∈ s.pending, e.callback = .EndWait k ∧ e.ts = expectedEnd ∧ timer = some e.uid
  idle : ∀ k task, s.tasks k = some task → ¬ InTimedSleep task → ∀ e ∈ s.pending, task.waitTimer ≠ some e.uid

/-- A task after a step in which no sleep begins: it keeps its slot, and has its sleeps as before or is in no
sleep. -/
structure Carried (v : Manager κ) (task task' : Task) : Prop where
  slot : task'.waitTimer = task.waitTimer
  frames : task'.frames = task.frames ∨ ∀ e ∈ v.pending, task'.waitTimer ≠ some e.uid
  blocked : task'.state = .BLOCKED → task.state = .BLOCKED ∧ task'.frames = task.frames

variable {id : Option Nat} {e : Event κ} {rest : List Frame}

theorem isRunning_eq_false : isRunning s id = false ↔ ∀ e ∈ s.pending, id ≠ some e.uid := by
  cases id with
  | none => exact iff_of_true rfl fun e _ => nofun
  | some uid =>
    simp only [isRunning, List.any_eq_false, decide_eq_true_eq, ne_eq, some.injEq]
    exact forall₂_congr fun e _ => not_congr eq_comm

/-- The event was pending in `s`, or it is a `Schedule` that was posted since. -/
def Posted (s : Manager κ) (e : Event κ) : Prop := e ∈ s.pending ∨ e.callback = .Schedule ∧ s.nextUid ≤ e.uid

theorem posted_post {delay : Nat} : ∀ e ∈ (post delay .Schedule s).pending, Posted s e := fun e mem => by
  rcases mem_append.mp mem with old | new
  · exact .inl old
  · cases mem_singleton.mp new
    exact .inr ⟨rfl, le_rfl⟩

theorem Posted.old_of_endWait (posted : Posted s e) (callback : e.callback = .EndWait k) : e ∈ s.pending := by
  rcases posted with old | ⟨schedule, -⟩
  · exact old
  · rw [schedule] at callback
    cases callback

theorem Posted.old_of_slot (posted : Posted s e) (events : Events s) (found : s.tasks k = some task)
    (slot : task.waitTimer = some e.uid) : e ∈ s.pending := by
  rcases posted with old | ⟨-, new⟩
  · exact old
  · have bound := (events.timer k task e.uid found slot).1
    omega

theorem Timed.owned (timed : Timed queued s) (mem : e ∈ s.pending) (callback : e.callback = .EndWait k) :
    s.tasks k ≠ none := by
  obtain ⟨owner, found, -⟩ := timed.named k e mem callback
  rw [found]
  exact some_ne_none _

theorem Timed.change {queued' : Option κ} (timed : Timed queued s) (events : Events s)
    (posted : ∀ e ∈ v.pending, Posted s e)
    (tasks : ∀ k task', v.tasks k = some task' → (∃ task, s.tasks k = some task ∧ Carried v task task') ∨
      s.tasks k = none ∧ task'.waitTimer = none ∧ task'.frames = [])
    (gone : ∀ k, ∀ e ∈ v.pending, e.callback = .EndWait k → v.tasks k ≠ none)
    (kept : ∀ k task', some k ≠ queued' → v.tasks k = some task' → task'.state = .BLOCKED →
      some k ≠ queued ∧ ∀ e ∈ s.pending, e.callback = .EndWait k → e ∈ v.pending) : Timed queued' v where
  slot k task' e found mem known := by
    rcases tasks k task' found with ⟨task, before, carried⟩ | ⟨-, none', -⟩
    · have known' : task.waitTimer = some e.uid := carried.slot.symm.trans known
      exact timed.slot k task e before ((posted e mem).old_of_slot events before known') known'
    · rw [none'] at known
      cases known
  named k e mem callback := by
    have old : e ∈ s.pending := (posted e mem).old_of_endWait callback
    obtain ⟨task', found⟩ := ne_none_iff_exists'.mp (gone k e mem callback)
    rcases tasks k task' found with ⟨same, before', carried⟩ | ⟨fresh, -⟩
    · obtain ⟨task, before, known⟩ := timed.named k e old callback
      cases before.symm.trans before'
      exact ⟨task', found, carried.slot.trans known⟩
    · exact absurd fresh (timed.owned old callback)
  own k task' e found blocked mem callback := by
    have old : e ∈ s.pending := (posted e mem).old_of_endWait callback
    rcases tasks k task' found with ⟨task, before, carried⟩ | ⟨fresh, -⟩
    · obtain ⟨blocked', frames⟩ := carried.blocked blocked
      rw [frames]
      exact timed.own k task e before blocked' old callback
    · exact absurd fresh (timed.owned old callback)
  armed k task' timeout expectedEnd timer rest other found blocked frames positive := by
    rcases tasks k task' found with ⟨task, before, carried⟩ | ⟨-, -, unslept⟩
    · obtain ⟨blocked', same⟩ := carried.blocked blocked
      obtain ⟨other', stays⟩ := kept k task' other found blocked
      obtain ⟨e, mem, callback, facts⟩ :=
        timed.armed k task timeout expectedEnd timer rest other' before blocked' (same ▸ frames) positive
      exact ⟨e, stays e mem callback, callback, facts⟩
    · rw [unslept] at frames
      cases frames
  idle k task' found apart e mem := by
    rcases tasks k task' found with ⟨task, before, carried⟩ | ⟨-, none', -⟩
    · rcases carried.frames with same | idle
      · have apart' : ¬ InTimedSleep task := by
          unfold InTimedSleep at apart ⊢
          rwa [← same]
        intro known
        have known' : task.waitTimer = some e.uid := carried.slot.symm.trans known
        exact timed.idle k task before apart' e ((posted e mem).old_of_slot events before known') known'
      · exact idle e mem
    · rw [none']
      nofun

theorem Carried.same : Carried v task task := ⟨rfl, .inl rfl, fun blocked => ⟨blocked, rfl⟩⟩

theorem Carried.awake {state : TaskState} (awake : state ≠ .BLOCKED) : Carried v task { task with state := state } :=
  ⟨rfl, .inl rfl, fun blocked => absurd blocked awake⟩

theorem Timed.settled (timed : Timed (some k) s)
    (mine : ∀ task timeout expectedEnd timer rest, s.tasks k = some task → task.state = .BLOCKED →
      task.frames = .sleepFor timeout expectedEnd timer :: rest → timeout ≠ 0 →
      ∃ e ∈ s.pending, e.callback = .EndWait k ∧ e.ts = expectedEnd ∧ timer = some e.uid) : Timed none s :=
  { timed with
    armed := fun j task timeout expectedEnd timer rest _ found => by
      by_cases same : j = k
      · subst same
        exact mine task timeout expectedEnd timer rest found
      · exact timed.armed j task timeout expectedEnd timer rest (fun here => same (some.inj here)) found }

theorem Timed.mem_cancel (timed : Timed queued s) (found : s.tasks t = some task) (mem : e ∈ s.pending)
    (callback : e.callback = .EndWait k) (other : k ≠ t) : e ∈ (cancel task.waitTimer s).pending := by
  refine mem_filter.mpr ⟨mem, decide_eq_true fun same => other ?_⟩
  have mine := timed.slot t task e found mem same.symm
  rw [callback] at mine
  exact Callback.EndWait.inj mine

theorem idle_cancel : ∀ e ∈ (cancel id s).pending, id ≠ some e.uid := fun _ mem same =>
  of_decide_eq_true (mem_filter.mp mem).2 same.symm

variable [DecidableEq κ]

theorem tasks_here (tasks : v.tasks = (setTask t task s).tasks) : v.tasks t = some task := by
  rw [tasks]
  exact update_self ..

theorem tasks_there (tasks : v.tasks = (setTask t task s).tasks) (other : k ≠ t) : v.tasks k = s.tasks k := by
  rw [tasks]
  exact update_of_ne other ..

theorem Timed.rewritten (timed : Timed queued s) (events : Events s) (found : s.tasks t = some task)
    (tasks : v.tasks = (setTask t task' s).tasks) (carried : Carried v task task') (awake : task'.state ≠ .BLOCKED)
    (posted : ∀ e ∈ v.pending, Posted s e)
    (kept : ∀ k, k ≠ t → ∀ e ∈ s.pending, e.callback = .EndWait k → e ∈ v.pending) : Timed queued v := by
  have here := tasks_here tasks
  refine timed.change events posted (fun k after known => ?_) (fun k e mem callback => ?_)
    fun k after other known blocked => ⟨other, ?_⟩
  · by_cases same : k = t
    · subst same
      cases here.symm.trans known
      exact .inl ⟨task, found, carried⟩
    · exact .inl ⟨after, (tasks_there tasks same).symm.trans known, .same⟩
  · by_cases same : k = t
    · rw [same, here]
      exact some_ne_none _
    · rw [tasks_there tasks same]
      exact timed.owned ((posted e mem).old_of_endWait callback) callback
  · by_cases same : k = t
    · rw [same, here] at known
      cases known
      exact absurd blocked awake
    · exact kept k same

theorem Timed.wakeup (timed : Timed queued s) (events : Events s) : Timed queued (wakeup k s) := by
  unfold TaskManager.wakeup
  split
  · exact timed
  next task found =>
    split
    · exact timed
    · dsimp only
      split
      · exact timed.rewritten events found rfl (.awake nofun) nofun posted_post fun j other e mem _ =>
          mem_append_left _ mem
      · exact timed.rewritten events found rfl (.awake nofun) nofun (fun e mem =>
          .inl mem) fun j other e mem _ => mem

theorem wakeup_awake : ∀ task, (wakeup k s).tasks k = some task → task.state ≠ .BLOCKED := by
  intro task
  unfold wakeup
  split
  next absent =>
    rw [absent]
    nofun
  next old found =>
    split
    next awake =>
      rw [found]
      rintro ⟨⟩ blocked
      simp [blocked] at awake
    · dsimp only
      split <;> simp [setTask, post] <;> rintro rfl <;> simp

theorem wakeup_waitQueue : (wakeup k s).waitQueue = s.waitQueue := by
  unfold wakeup
  split
  · rfl
  · split
    · rfl
    · dsimp only
      split <;> rfl

theorem Timed.asleep (timed : Timed none s) (found : s.tasks t = some task)
    (free : isRunning s task.waitTimer = false)
    (tasks : v.tasks = (setTask t task' s).tasks) (slot : task'.waitTimer = task.waitTimer)
    (pending : v.pending = s.pending) :
    Timed (some t) v := by
  have idle := isRunning_eq_false.mp free
  have here := tasks_here tasks
  have there : ∀ k, k ≠ t → v.tasks k = s.tasks k := fun k => tasks_there tasks
  have apart : ∀ k e, e ∈ s.pending → e.callback = .EndWait k → k ≠ t := fun k e mem callback same => by
    obtain ⟨owner, exists_, known⟩ := timed.named k e mem callback
    rw [same, found] at exists_
    cases exists_
    exact idle e mem known
  refine ⟨fun k after e known mem owns => ?_, fun k e mem callback => ?_,
    fun k after e known blocked mem callback => ?_,
    fun k after timeout expectedEnd timer rest other known blocked => ?_, fun k after known unslept e mem => ?_⟩
  · rw [pending] at mem
    by_cases same : k = t
    · rw [same, here] at known
      cases known
      exact absurd (slot.symm.trans owns) (idle e mem)
    · exact timed.slot k after e ((there k same).symm.trans known) mem owns
  · rw [pending] at mem
    rw [there k (apart k e mem callback)]
    exact timed.named k e mem callback
  · rw [pending] at mem
    exact timed.own k after e ((there k (apart k e mem callback)).symm.trans known) blocked mem callback
  · rw [pending]
    exact timed.armed k after timeout expectedEnd timer rest nofun
      ((there k fun same => other (congrArg some same)).symm.trans known) blocked
  · rw [pending] at mem
    by_cases same : k = t
    · rw [same, here] at known
      cases known
      rw [slot]
      exact idle e mem
    · exact timed.idle k after ((there k same).symm.trans known) unslept e mem

theorem Timed.armedNow (timed : Timed (some t) s) (events : Events s) (found : s.tasks t = some task)
    (frames : task.frames = .sleepFor timeout expectedEnd none :: rest) (ending : expectedEnd = s.now + timeout)
    (none' : ∀ e ∈ s.pending, e.callback ≠ .EndWait t) : Timed none (startTimers s [(t, timeout)]) := by
  let timer : Event κ := ⟨s.nextUid, s.now + timeout, .EndWait t⟩
  let after : Task := { task with waitTimer := some s.nextUid, frames := withTimer s.nextUid task.frames }
  have result : startTimers s [(t, timeout)] = { post timeout (.EndWait t) (setTask t after s) with
    waitQueue := [] } := by
    simp only [startTimers, found]
    rfl
  have pending : ∀ e, e ∈ (startTimers s [(t, timeout)]).pending ↔ e ∈ s.pending ∨ e = timer := fun e => by
    rw [result]
    exact mem_append.trans (or_congr .rfl mem_singleton)
  have here : (startTimers s [(t, timeout)]).tasks t = some after := by
    rw [result]
    exact update_self ..
  have there : ∀ k, k ≠ t → (startTimers s [(t, timeout)]).tasks k = s.tasks k := fun k other => by
    rw [result]
    exact update_of_ne other ..
  have innermost : after.frames = .sleepFor timeout expectedEnd (some s.nextUid) :: rest := by
    change withTimer s.nextUid task.frames = _
    rw [frames]
    rfl
  have older : ∀ k owner, s.tasks k = some owner → owner.waitTimer ≠ some timer.uid := fun k owner known slot => by
    have bound := (events.timer k owner _ known slot).1
    exact absurd bound (lt_irrefl _)
  refine ⟨fun k owner e known mem slot => ?_, fun k e mem callback => ?_,
    fun k owner e known blocked mem callback => ?_,
    fun k owner timeout' expectedEnd' timer' rest' _ known blocked sleeps positive => ?_,
    fun k owner known unslept e mem => ?_⟩
  · rcases (pending e).mp mem with old | rfl
    · by_cases same : k = t
      · rw [same, here] at known
        cases known
        have bound := events.fresh e old
        have uid : s.nextUid = e.uid := some.inj slot
        omega
      · exact timed.slot k owner e ((there k same).symm.trans known) old slot
    · by_cases same : k = t
      · rw [same]
      · exact absurd slot (older k owner ((there k same).symm.trans known))
  · rcases (pending e).mp mem with old | rfl
    · have other : k ≠ t := fun same => none' e old (same ▸ callback)
      rw [there k other]
      exact timed.named k e old callback
    · cases callback
      exact ⟨after, here, rfl⟩
  · rcases (pending e).mp mem with old | rfl
    · have other : k ≠ t := fun same => none' e old (same ▸ callback)
      exact timed.own k owner e ((there k other).symm.trans known) blocked old callback
    · cases callback
      cases here.symm.trans known
      exact ⟨timeout, expectedEnd, rest, innermost⟩
  · by_cases same : k = t
    · subst same
      cases here.symm.trans known
      rw [innermost] at sleeps
      cases sleeps
      exact ⟨timer, (pending timer).mpr (.inr rfl), rfl, ending.symm, rfl⟩
    · obtain ⟨e, mem, facts⟩ := timed.armed k owner timeout' expectedEnd' timer' rest'
        (fun other => same (some.inj other)) ((there k same).symm.trans known) blocked sleeps positive
      exact ⟨e, (pending e).mpr (.inl mem), facts⟩
  · by_cases same : k = t
    · subst same
      cases here.symm.trans known
      exact absurd ⟨timeout, expectedEnd, some s.nextUid, rest, innermost⟩ unslept
    · rcases (pending e).mp mem with old | rfl
      · exact timed.idle k owner ((there k same).symm.trans known) unslept e old
      · exact older k owner ((there k same).symm.trans known)

theorem Timed.deleted (timed : Timed queued s) (events : Events s) (found : s.tasks t = some task)
    (tasks : v.tasks = (deleteTask t s).tasks) (pending : v.pending = (cancel task.waitTimer s).pending) :
    Timed queued v := by
  have here : v.tasks t = none := by rw [tasks]; exact update_self ..
  have there : ∀ k, k ≠ t → v.tasks k = s.tasks k := fun k other => by rw [tasks]; exact update_of_ne other ..
  refine timed.change events (fun e mem => .inl (cancel_sub e (pending ▸ mem))) (fun k after known => ?_)
    (fun k e mem callback => ?_) fun k after other known blocked => ⟨other, fun e mem callback => ?_⟩
  · by_cases same : k = t
    · rw [same, here] at known
      cases known
    · exact .inl ⟨after, (there k same).symm.trans known, .same⟩
  · rw [pending] at mem
    obtain ⟨owner, exists_, slot⟩ := timed.named k e (cancel_sub e mem) callback
    by_cases same : k = t
    · subst same
      cases found.symm.trans exists_
      exact absurd slot (idle_cancel e mem)
    · rw [there k same, exists_]
      exact some_ne_none _
  · by_cases same : k = t
    · rw [same, here] at known
      cases known
    · exact pending ▸ timed.mem_cancel found mem callback same

theorem Timed.garbageCollect (timed : Timed queued s) (events : Events s) (dead : List κ) :
    Timed queued (garbageCollect s dead) := by
  induction dead generalizing s with
  | nil => exact { timed with }
  | cons k rest ih =>
    unfold TaskManager.garbageCollect
    split
    · exact ih timed events
    next task found => exact ih (timed.deleted events found rfl rfl) events.deleteTask

theorem Timed.stop (timed : Timed queued s) (events : Events s) : Timed queued (stop k s) := by
  unfold TaskManager.stop
  split
  · exact timed
  next task found =>
    split
    · exact timed
    · exact timed.deleted events found rfl rfl

theorem Timed.start (timed : Timed none s) (events : Events s) (fresh : s.tasks k = none) :
    Timed none (start k s) := by
  have here : (setTask k ⟨.BLOCKED, none, [], 0⟩ s).tasks k = some ⟨.BLOCKED, none, [], 0⟩ := update_self ..
  have there : ∀ j, j ≠ k → (setTask k ⟨.BLOCKED, none, [], 0⟩ s).tasks j = s.tasks j := fun j => tasks_there rfl
  have made : Timed none (setTask k ⟨.BLOCKED, none, [], 0⟩ s) := by
    refine timed.change events (fun e mem => .inl mem) (fun j after known => ?_) (fun j e mem callback => ?_)
      fun j after other known blocked => ⟨other, fun e mem _ => mem⟩
    · by_cases same : j = k
      · rw [same, here] at known
        cases known
        exact .inr ⟨same ▸ fresh, rfl, rfl⟩
      · exact .inl ⟨after, (there j same).symm.trans known, .same⟩
    · have other : j ≠ k := fun same => timed.owned mem callback (same ▸ fresh)
      rw [there j other]
      exact timed.owned mem callback
  exact made.wakeup events.created

theorem Timed.sleepReturn (timed : Timed none s) (events : Events s) (found : s.tasks t = some task)
    (running : task.state = .RUNNING) : Timed none (sleepReturn t task s) := by
  have awake : task.state ≠ .BLOCKED := by simp [running]
  unfold TaskManager.sleepReturn
  split
  · exact timed
  next rest frames =>
    have unslept : ¬ InTimedSleep task := by
      rintro ⟨timeout, expectedEnd, timer, others, timedFrames⟩
      rw [frames] at timedFrames
      cases timedFrames
    exact timed.rewritten events found rfl ⟨rfl, .inr (timed.idle t task found unslept), fun blocked =>
      absurd blocked awake⟩
      awake (fun e mem => .inl mem) fun k other e mem _ => mem
  next timeout expectedEnd timer rest frames =>
    exact timed.rewritten events found rfl ⟨rfl, .inr idle_cancel, fun blocked => absurd blocked awake⟩ awake
      (fun e mem => .inl (cancel_sub e mem)) fun k other e mem callback => timed.mem_cancel found mem callback other

omit [DecidableEq κ] in
theorem Timed.reScheduled (timed : Timed queued s) (events : Events s) : Timed queued (reScheduled s) := by
  unfold TaskManager.reScheduled
  split
  · exact timed.change events posted_post (fun k task found => .inl ⟨task, found, .same⟩)
      (fun k e mem callback => timed.owned ((posted_post e mem).old_of_endWait callback) callback)
      fun k task other found blocked => ⟨other, fun e mem _ => mem_append_left _ mem⟩
  · exact timed

/-- The task that an event may wake. -/
def Callback.waiter : Callback κ → Option κ
  | .Schedule => none
  | .EndWait k => some k

omit [DecidableEq κ] in
theorem Timed.popped (timed : Timed none s) (events : Events s) (mem : e ∈ s.pending) (now : Nat) :
    Timed e.callback.waiter { cancel (some e.uid) s with now := now } := by
  refine timed.change events (fun e' member' => .inl (cancel_sub e' member')) (fun k task found =>
    .inl ⟨task, found, .same⟩)
    (fun k e' member' callback => timed.owned (cancel_sub e' member') callback)
    fun k task other found blocked => ⟨nofun, fun e' member' callback => ?_⟩
  refine mem_filter.mpr ⟨member', decide_eq_true fun same => other ?_⟩
  have one := events.once e' member' e mem (some.inj same)
  rw [← one, callback]
  rfl

theorem startTimers_waitQueue (queue : List (κ × Nat)) : (startTimers s queue).waitQueue = [] := by
  induction queue generalizing s with
  | nil => rfl
  | cons sleeper rest ih =>
    unfold startTimers
    split
    · exact ih
    · exact ih

theorem garbageCollect_waitQueue (dead : List κ) : (garbageCollect s dead).waitQueue = s.waitQueue := by
  induction dead generalizing s with
  | nil => rfl
  | cons k rest ih =>
    unfold garbageCollect
    split
    · exact ih
    · exact ih

theorem tidy_waitQueue : (tidy s).waitQueue = [] := (garbageCollect_waitQueue _).trans (startTimers_waitQueue _)

theorem stop_waitQueue : (stop k s).waitQueue = s.waitQueue := by
  unfold stop
  split
  · rfl
  · split <;> rfl

omit [DecidableEq κ] in
theorem Timed.congr (timed : Timed queued s) (tasks : v.tasks = s.tasks) (pending : v.pending = s.pending) :
    Timed queued v := by
  obtain ⟨slot, named, own, armed, idle⟩ := timed
  constructor <;> rw [pending] <;> rwa [tasks]

theorem Timed.tidy (timed : Timed queued (startTimers s s.waitQueue)) (events : Events s) : Timed queued (tidy s) :=
  (timed.garbageCollect (events.startTimers _) _).congr rfl rfl

theorem Timed.schedule (timed : Timed none s) (events : Events s) (queue : s.waitQueue = []) :
    Timed none (schedule s) := by
  unfold TaskManager.schedule
  split
  · refine Timed.tidy ?_ events
    rw [queue]
    exact timed.congr rfl rfl
  next next rest _ =>
    split
    · exact timed
    next task found =>
      exact timed.rewritten events found rfl (.awake nofun) nofun (fun e mem => .inl mem) fun k other e mem _ => mem

theorem schedule_waitQueue (queue : s.waitQueue = []) : (schedule s).waitQueue = [] := by
  unfold schedule
  split
  · exact tidy_waitQueue
  · split <;> exact queue

theorem Timed.endWait (timed : Timed (some k) s) (events : Events s) (found : s.tasks k = some task) :
    Timed none (endWait k task s) := by
  unfold TaskManager.endWait
  split
  · exact (timed.wakeup events).settled fun task _ _ _ _ found blocked => absurd blocked (wakeup_awake task found)
  next awake =>
    refine timed.settled fun task _ _ _ _ found' blocked => ?_
    cases found.symm.trans found'
    exact absurd blocked awake

theorem endWait_waitQueue : (endWait k task s).waitQueue = s.waitQueue := by
  unfold endWait
  split
  · exact wakeup_waitQueue
  · rfl

theorem sleepReturn_waitQueue : (sleepReturn t task s).waitQueue = s.waitQueue := by
  unfold sleepReturn
  split <;> rfl

/-- Outside the return to the main context no sleep waits for its timer to be scheduled. -/
theorem waitQueue_of_reach {C : Manager κ → Act κ → Prop} (reach : (machine κ).ReachBy C s)
    (away : ∀ t, s.control ≠ .back t) :
    s.waitQueue = [] := by
  refine reach.invariant (I := fun s => (∀ t, s.control ≠ .back t) → s.waitQueue = []) (fun s first _ =>
    Start.waitQueue first)
    (fun s a v queue _ run => ?_) away
  have inside : ∀ {t}, s.control = .task t → s.waitQueue = [] :=
    fun here => queue fun u back => by cases here.symm.trans back
  have onMain : s.control = .main → s.waitQueue = [] := fun main => queue fun u back => by cases main.symm.trans back
  cases step_does run with
  | start k outside | wakeup k outside => exact fun _ => wakeup_waitQueue.trans (queue outside)
  | stop k outside => exact fun _ => stop_waitQueue.trans (queue outside)
  | invoke => exact queue
  | execOnMain t here => exact fun _ => inside here
  | execReturn t here => exact fun _ => queue fun u back => by cases here.symm.trans back
  | sleep | sleepFor | yield | exit => exact fun outside => absurd rfl (outside _)
  | sleepReturn t task here => exact fun _ => sleepReturn_waitQueue.trans (inside here)
  | tail => exact fun _ => tidy_waitQueue
  | schedule e main => exact fun _ => schedule_waitQueue (onMain main)
  | endWait e k task main => exact fun _ => endWait_waitQueue.trans (onMain main)
  | advance main => exact fun _ => onMain main

/-- The state around the sleeps: outside the return to the main context no sleep waits for its timer to be scheduled,
and in it that of the task which has just left may. -/
inductive SleepState (s : Manager κ) : Prop
  | settled : s.waitQueue = [] → Timed none s → SleepState s
  | leaving {t : κ} {task : Task} {timeout : Nat} {rest : List Frame} : s.control = .back t →
      s.waitQueue = [(t, timeout)] →
      s.tasks t = some task → task.frames = .sleepFor timeout (s.now + timeout) none :: rest →
      (∀ e ∈ s.pending, e.callback ≠ .EndWait t) → Timed (some t) s → SleepState s

/-- No task begins to sleep while the timer in its slot is still running. -/
def FreeSlot (s : Manager κ) : Act κ → Prop
  | .sleep _ | .sleepFor _ _ => ∀ t task, s.control = .task t → s.tasks t = some task →
      isRunning s task.waitTimer = false
  | _ => True

section

variable (state : SleepState s)
include state

section

omit [DecidableEq κ]

theorem SleepState.outside (away : ∀ t, s.control ≠ .back t) : s.waitQueue = [] ∧ Timed none s := by
  cases state with
  | settled queue timed => exact ⟨queue, timed⟩
  | leaving back => exact absurd back (away _)

theorem SleepState.inside (here : s.control = .task t) : s.waitQueue = [] ∧ Timed none s :=
  state.outside fun u back => by cases here.symm.trans back

theorem SleepState.onMain (main : s.control = .main) : s.waitQueue = [] ∧ Timed none s :=
  state.outside fun u back => by cases main.symm.trans back

end

omit state in
omit [DecidableEq κ] in
theorem reScheduled_waitQueue : (reScheduled s).waitQueue = s.waitQueue ∧ (reScheduled s).now = s.now ∧
    ∀ e ∈ (reScheduled s).pending, e ∈ s.pending ∨ e.callback = .Schedule := by
  unfold reScheduled
  split
  · refine ⟨rfl, rfl, fun e mem => ?_⟩
    rcases mem_append.mp mem with old | new
    · exact .inl old
    · cases mem_singleton.mp new
      exact .inr rfl
  · exact ⟨rfl, rfl, fun e mem => .inl mem⟩

theorem SleepState.tail (events : Events s) : SleepState (tail s) := by
  obtain ⟨same, now, posted⟩ := reScheduled_waitQueue (s := s)
  refine .settled tidy_waitQueue (Timed.tidy ?_ events.reScheduled)
  rw [same]
  cases state with
  | settled queue timed =>
    rw [queue]
    exact (timed.reScheduled events).congr rfl rfl
  | leaving back queue found frames unarmed timed =>
    have tasks : (TaskManager.reScheduled s).tasks = s.tasks := reScheduled_fields.1
    rw [queue]
    refine (timed.reScheduled events).armedNow events.reScheduled (tasks ▸ found) frames
      (by rw [now]) fun e mem callback => ?_
    rcases posted e mem with old | schedule
    · exact unarmed e old callback
    · rw [schedule] at callback
      cases callback

end

omit [DecidableEq κ] in
theorem Timed.unarmed (timed : Timed none s) (found : s.tasks t = some task)
    (free : isRunning s task.waitTimer = false) :
    ∀ e ∈ s.pending, e.callback ≠ .EndWait t := fun e mem callback => by
  obtain ⟨owner, exists_, known⟩ := timed.named t e mem callback
  cases found.symm.trans exists_
  exact isRunning_eq_false.mp free e mem known

theorem Rep.running_of_task (rep : Rep s) (here : s.control = .task t) (found : s.tasks t = some task) :
    task.state = .RUNNING := by
  have mine : s.current = some t := by rw [rep.current, here]; rfl
  have running : stateOf s t = some .RUNNING := (rep.running t).mpr mine
  rw [stateOf, found] at running
  exact some.inj running

theorem SleepState.step {a : Act κ} (state : SleepState s) (events : Events s) (rep : Rep s) (free : FreeSlot s a)
    (run : TaskManager.step s a = some v) : SleepState v := by
  cases step_does run with
  | start k away fresh =>
    obtain ⟨queue, timed⟩ := state.outside away
    exact .settled (wakeup_waitQueue.trans queue) (timed.start events fresh)
  | wakeup k away =>
    obtain ⟨queue, timed⟩ := state.outside away
    exact .settled (wakeup_waitQueue.trans queue) (timed.wakeup events)
  | stop k away =>
    obtain ⟨queue, timed⟩ := state.outside away
    exact .settled (stop_waitQueue.trans queue) (timed.stop events)
  | invoke main => exact state
  | execOnMain t here =>
    obtain ⟨queue, timed⟩ := state.inside here
    exact .settled queue (timed.congr rfl rfl)
  | execReturn t here =>
    obtain ⟨queue, timed⟩ := state.outside fun u back => by cases here.symm.trans back
    exact .settled queue (timed.congr rfl rfl)
  | sleep t task delay here found =>
    obtain ⟨queue, timed⟩ := state.inside here
    have asleep : Timed (some t) (sleep t task delay s) := timed.asleep found (free t task here found) rfl rfl rfl
    refine .settled queue (asleep.settled fun after timeout expectedEnd timer rest found' _ frames => ?_)
    cases (update_self ..).symm.trans found'
    cases frames
  | sleepFor t task timeout delay here found =>
    obtain ⟨queue, timed⟩ := state.inside here
    have slot := free t task here found
    have asleep : Timed (some t) (sleepFor t task timeout delay s) := timed.asleep found slot rfl rfl rfl
    by_cases forever : timeout = 0
    · have same : (sleepFor t task timeout delay s).waitQueue = [] := (if_pos forever).trans queue
      refine .settled same (asleep.settled fun after limit expectedEnd timer rest found' _ frames positive => ?_)
      cases (update_self ..).symm.trans found'
      cases frames
      exact absurd forever positive
    · have waits : (sleepFor t task timeout delay s).waitQueue = [(t, timeout)] := by
        refine (if_neg forever).trans ?_
        rw [queue]
        rfl
      exact .leaving rfl waits (update_self ..) rfl (timed.unarmed found slot) asleep
  | yield t task delay here found =>
    obtain ⟨queue, timed⟩ := state.inside here
    exact .settled queue (timed.rewritten events found rfl (.awake nofun) nofun (fun e mem => .inl mem)
      fun k other e mem _ => mem)
  | exit t task delay here found =>
    obtain ⟨queue, timed⟩ := state.inside here
    exact .settled queue (timed.rewritten events found rfl (.awake nofun) nofun
      (fun e mem => .inl (cancel_sub e mem)) fun k other e mem callback => timed.mem_cancel found mem callback other)
  | sleepReturn t task here found =>
    obtain ⟨queue, timed⟩ := state.inside here
    exact .settled (sleepReturn_waitQueue.trans queue)
      (timed.sleepReturn events found (rep.running_of_task here found))
  | tail t back => exact state.tail events
  | schedule e main mem callback =>
    obtain ⟨queue, timed⟩ := state.onMain main
    have popped := timed.popped events mem e.ts
    rw [callback] at popped
    exact .settled (schedule_waitQueue queue) (popped.schedule (events.popped _ _) queue)
  | endWait e k task main mem callback found =>
    obtain ⟨queue, timed⟩ := state.onMain main
    have popped := timed.popped events mem e.ts
    rw [callback] at popped
    exact .settled (endWait_waitQueue.trans queue) (popped.endWait (events.popped _ _) found)
  | advance main =>
    obtain ⟨queue, timed⟩ := state.onMain main
    exact .settled queue (timed.congr rfl rfl)

theorem sleepState_of_reach (reach : (machine κ).ReachBy FreeSlot s) : SleepState s := by
  refine reach.invariant' (I := SleepState) (fun s first => ?_) fun s a v before state free run =>
    state.step (events_of_reach before) (rep_of_reach before) free run
  refine .settled first.waitQueue ⟨?_, ?_, ?_, ?_, ?_⟩ <;> simp [first.tasks, first.pending]

/-- The timers belong to their sleeps. The timer that may wake a blocked task is that of the sleep it is in; a task
in a `Sleep (timeout)` has its timer for the end of the timeout, once the main context has control; and the sleep
returns 0 if its end is reached, and otherwise what is left. -/
structure SleepsRight (s : Manager κ) : Prop where
  own : ∀ k task e, s.tasks k = some task → task.state = .BLOCKED → e ∈ s.pending → e.callback = .EndWait k →
    ∃ timeout expectedEnd rest, task.frames = .sleepFor timeout expectedEnd (some e.uid) :: rest
  armed : (∀ t, s.control ≠ .back t) → ∀ k task timeout expectedEnd timer rest, s.tasks k = some task →
    task.state = .BLOCKED →
    task.frames = .sleepFor timeout expectedEnd timer :: rest → timeout ≠ 0 →
    ∃ e ∈ s.pending, e.callback = .EndWait k ∧ e.ts = expectedEnd ∧ timer = some e.uid
  returns : ∀ t task timeout expectedEnd timer rest, s.control = .task t → s.tasks t = some task →
    task.frames = .sleepFor timeout expectedEnd timer :: rest → timeout ≠ 0 →
    ∃ v task', TaskManager.step s .sleepReturn = some v ∧ v.tasks t = some task' ∧ task'.frames = rest ∧
      (task'.timeLeft = 0 ↔ expectedEnd ≤ s.now) ∧ (s.now < expectedEnd → task'.timeLeft = expectedEnd - s.now)

theorem sleepReturn_timeLeft {timer : Option Nat} (here : s.control = .task t) (found : s.tasks t = some task)
    (frames : task.frames = .sleepFor timeout expectedEnd timer :: rest) (positive : timeout ≠ 0) :
    ∃ v task', TaskManager.step s .sleepReturn = some v ∧ v.tasks t = some task' ∧ task'.frames = rest ∧
      (task'.timeLeft = 0 ↔ expectedEnd ≤ s.now) ∧ (s.now < expectedEnd → task'.timeLeft = expectedEnd - s.now) := by
  let left := if timeout ≠ 0 ∧ s.now ≤ expectedEnd then expectedEnd - s.now else 0
  let after : Task := { task with frames := rest, timeLeft := left }
  have result : TaskManager.step s .sleepReturn = some (setTask t after (cancel task.waitTimer s)) := by
    simp only [TaskManager.step, inTask, here, found, map_some, TaskManager.sleepReturn, frames]
    rfl
  have early : s.now ≤ expectedEnd → left = expectedEnd - s.now := fun before => if_pos ⟨positive, before⟩
  have late : ¬ s.now ≤ expectedEnd → left = 0 := fun passed => if_neg fun both => passed both.2
  refine ⟨_, after, result, update_self .., rfl, ?_, fun before => early before.le⟩
  change left = 0 ↔ _
  omega

/-- In the runs in which no task begins to sleep while the timer in its slot is running, the timers belong to their
sleeps. -/
theorem sleepsRight_of_freeSlot (s : Manager κ) (reach : (machine κ).ReachBy FreeSlot s) : SleepsRight s where
  own := by
    cases sleepState_of_reach reach with
    | settled _ timed => exact timed.own
    | leaving _ _ _ _ _ timed => exact timed.own
  armed away k task timeout expectedEnd timer rest :=
    ((sleepState_of_reach reach).outside away).2.armed k task timeout expectedEnd timer rest nofun
  returns _ _ _ _ _ _ here found frames positive := sleepReturn_timeLeft here found frames positive

theorem sleepsRight_asleep : SleepsRight secondWaits := by
  refine sleepsRight_of_freeSlot secondWaits (Machine.ReachBy.start noTasks_start |>.next (a := .start 0) trivial rfl
    |>.next (a := .start 1) trivial rfl |>.next (a := .event 0) trivial rfl |>.next (a := .sleepFor 5 3) ?_ rfl
    |>.next (a := .tail) trivial rfl)
  intro t task here found
  cases here
  cases found
  rfl

/-- A task sleeps for 10 and is woken at 1 for a signal, whose handler sleeps for 2; at 3 both sleeps return, and the
task sleeps for 100. -/
def outlived : Manager Nat :=
  ((machine Nat).replay noTasks [.start 0, .event 0, .sleepFor 10 0, .tail, .advance, .wakeup 0, .event 2,
    .sleepFor 2 0, .tail,
    .event 3, .event 4, .sleepReturn, .sleepReturn, .sleepFor 100 0, .tail]).getD noTasks

/-- The timer of the first sleep is still scheduled, and wakes the task from the last one at 10. -/
theorem not_sleepsRight : (machine Nat).Reach outlived ∧ ¬ SleepsRight outlived ∧
    outlived.tasks 0 = some ⟨.BLOCKED, some 5, [.sleepFor 100 103 (some 5)], 7⟩ ∧
    ∃ v, step outlived (.event 1) = some v ∧ stateOf v 0 = some .ACTIVE ∧ v.now = 10 := by
  have run : (machine Nat).replay noTasks [.start 0, .event 0, .sleepFor 10 0, .tail, .advance, .wakeup 0, .event 2,
    .sleepFor 2 0,
      .tail, .event 3, .event 4, .sleepReturn, .sleepReturn, .sleepFor 100 0, .tail] = some outlived := rfl
  have asleep : outlived.tasks 0 = some ⟨.BLOCKED, some 5, [.sleepFor 100 103 (some 5)], 7⟩ := rfl
  refine ⟨(Machine.ReachBy.start noTasks_start).replay (fun _ _ => trivial) run, fun right => ?_, asleep, _,
    rfl, rfl, rfl⟩
  obtain ⟨_, _, _, frames⟩ := right.own 0 _ ⟨1, 10, .EndWait 0⟩ asleep rfl (by decide) rfl
  cases frames

end Dce.TaskManager
