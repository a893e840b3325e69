import Dce.Lib.Machine
import Mathlib.Data.List.Basic

/- The task manager of a node with the round-robin scheduler, as `task-manager.cc` and
`rr-task-scheduler.cc` run it, together with its events in the simulator. A pointer to a
task is a `κ`; a deleted task is `none`. -/

namespace Dce.TaskManager

inductive TaskState
  | ACTIVE | RUNNING | BLOCKED | DEAD
  deriving DecidableEq, Repr

/-- The frame of a `Sleep ()` or of a `Sleep (timeout)` that has not returned. The source does not keep `timer`, the
event that was scheduled for the sleep. -/
inductive Frame
  | sleep
  | sleepFor (timeout expectedEnd : Nat) (timer : Option Nat)
  deriving DecidableEq, Repr

/-- `frames` are those on the task's stack, the innermost first: the handlers of signals run in the switch to a task,
before the sleep it was in has returned, and may sleep. `timeLeft` is what a `Sleep (timeout)` returned last. -/
structure Task where
  state : TaskState
  waitTimer : Option Nat
  frames : List Frame
  timeLeft : Nat
  deriving DecidableEq, Repr

inductive Callback (κ : Type*)
  | Schedule
  | EndWait (task : κ)
  deriving DecidableEq, Repr

structure Event (κ : Type*) where
  uid : Nat
  ts : Nat
  callback : Callback κ
  deriving DecidableEq, Repr

/-- Where control is. `back t` is the main context just after `t` has switched to it, in the
middle of `Schedule`; `exec t` is the main context while it runs an event for `t`. -/
inductive Control (κ : Type*)
  | main
  | back (t : κ)
  | exec (t : κ)
  | task (t : κ)
  deriving DecidableEq, Repr

structure Manager (κ : Type*) where
  tasks : κ → Option Task
  current : Option κ
  active : List κ
  nextSchedule : Option Nat
  reSchedule : Bool
  reScheduleTime : Int
  waitQueue : List (κ × Nat)
  deadTasks : List κ
  control : Control κ
  /-- The events of the simulator that have neither started nor been cancelled. -/
  pending : List (Event κ)
  nextUid : Nat
  now : Nat

/-- `sleep`, `sleepFor`, `yield` and `exit` are calls of the running task, or of a handler it runs, with the delay
that the delay model will give for its slice. `sleepReturn` is the return of the innermost sleep, `tail` is the rest
of `Schedule` after a task has switched back to it, `event` runs a pending event and `advance` runs some other
event. -/
inductive Act (κ : Type*)
  | start (k : κ)
  | wakeup (k : κ)
  | stop (k : κ)
  | execOnMain
  | execReturn
  | sleep (delay : Int)
  | sleepFor (timeout : Nat) (delay : Int)
  | yield (delay : Int)
  | exit (delay : Int)
  | sleepReturn
  | tail
  | event (uid : Nat)
  | advance
  deriving DecidableEq, Repr

section

variable {κ : Type*}

def isRunning (s : Manager κ) : Option Nat → Bool
  | none => false
  | some uid => s.pending.any fun e => e.uid = uid

/-- `Simulator::Schedule` -/
def post (delay : Nat) (callback : Callback κ) (s : Manager κ) : Manager κ :=
  { s with
    pending := s.pending ++ [⟨s.nextUid, s.now + delay, callback⟩]
    nextUid := s.nextUid + 1 }

def cancel (id : Option Nat) (s : Manager κ) : Manager κ :=
  { s with pending := s.pending.filter fun e => some e.uid ≠ id }

/-- `Schedule` where there is something to schedule from. -/
def leave (t : κ) (delay : Int) (s : Manager κ) : Manager κ :=
  { s with
    reSchedule := if s.active = [] then s.reSchedule else true
    reScheduleTime := if s.active = [] then s.reScheduleTime else delay
    current := none
    control := .back t }

end

variable {κ : Type*} [DecidableEq κ]

def setTask (k : κ) (task : Task) (s : Manager κ) : Manager κ :=
  { s with tasks := Function.update s.tasks k (some task) }

/-- `delete task` -/
def deleteTask (k : κ) (s : Manager κ) : Manager κ :=
  { s with tasks := Function.update s.tasks k none }

def wakeup (k : κ) (s : Manager κ) : Manager κ :=
  match s.tasks k with
  | none => s
  | some task =>
    if task.state = .ACTIVE ∨ task.state = .RUNNING then s
    else
      let s := { setTask k { task with state := .ACTIVE } s with active := s.active ++ [k] }
      if s.current = none ∧ isRunning s s.nextSchedule = false then
        { post 0 .Schedule s with nextSchedule := some s.nextUid }
      else s

def start (k : κ) (s : Manager κ) : Manager κ := wakeup k (setTask k ⟨.BLOCKED, none, [], 0⟩ s)

/-- A stop of the running task by itself is ignored. -/
def stop (k : κ) (s : Manager κ) : Manager κ :=
  match s.tasks k with
  | none => s
  | some task =>
    if s.current = some k then s
    else deleteTask k (cancel task.waitTimer { s with active := s.active.filter (· ≠ k) })

def sleep (t : κ) (task : Task) (delay : Int) (s : Manager κ) : Manager κ :=
  leave t delay (setTask t { task with state := .BLOCKED, frames := .sleep :: task.frames } s)

def sleepFor (t : κ) (task : Task) (timeout : Nat) (delay : Int) (s : Manager κ) : Manager κ :=
  leave t delay
    { setTask t { task with
      state := .BLOCKED, frames := .sleepFor timeout (s.now + timeout) none :: task.frames } s with
      waitQueue := if timeout = 0 then s.waitQueue else s.waitQueue ++ [(t, timeout)] }

def yield (t : κ) (task : Task) (delay : Int) (s : Manager κ) : Manager κ :=
  leave t delay { setTask t { task with state := .ACTIVE } s with active := s.active ++ [t] }

def exit (t : κ) (task : Task) (delay : Int) (s : Manager κ) : Manager κ :=
  leave t delay (cancel task.waitTimer { setTask t { task with state := .DEAD } s with
    deadTasks := s.deadTasks ++ [t] })

/-- The innermost sleep has its timer. -/
def withTimer (uid : Nat) : List Frame → List Frame
  | .sleepFor timeout expectedEnd _ :: rest => .sleepFor timeout expectedEnd (some uid) :: rest
  | frames => frames

/-- The drain of `m_waitQueue`: each sleeper gets its timer. -/
def startTimers (s : Manager κ) : List (κ × Nat) → Manager κ
  | [] => { s with waitQueue := [] }
  | (k, timeout) :: rest =>
    match s.tasks k with
    | none => startTimers s rest
    | some task =>
      startTimers (post timeout (.EndWait k) (setTask k
        { task with waitTimer := some s.nextUid, frames := withTimer s.nextUid task.frames } s)) rest

/-- `GarbageCollectDeadTasks` -/
def garbageCollect (s : Manager κ) : List κ → Manager κ
  | [] => { s with deadTasks := [] }
  | k :: rest =>
    match s.tasks k with
    | none => garbageCollect s rest
    | some task => garbageCollect (deleteTask k (cancel task.waitTimer s)) rest

/-- What `Schedule` does last on the main context. -/
def tidy (s : Manager κ) : Manager κ :=
  let s := startTimers s s.waitQueue
  let s := garbageCollect s s.deadTasks
  { s with control := .main }

/-- What is left of a sleep when control is back with it. -/
def sleepReturn (t : κ) (task : Task) (s : Manager κ) : Manager κ :=
  match task.frames with
  | [] => s
  | .sleep :: rest => setTask t { task with frames := rest } s
  | .sleepFor timeout expectedEnd _ :: rest =>
    let timeLeft := if timeout ≠ 0 ∧ s.now ≤ expectedEnd then expectedEnd - s.now else 0
    setTask t { task with frames := rest, timeLeft := timeLeft } (cancel task.waitTimer s)

/-- `DequeueNext` and the switch to `next`. -/
def switchTo (next : κ) (task : Task) (rest : List κ) (s : Manager κ) : Manager κ :=
  { setTask next { task with state := .RUNNING } s with
    active := rest
    current := some next
    control := .task next }

/-- `Schedule` where there is nothing to schedule from, up to its switch to the next task. -/
def schedule (s : Manager κ) : Manager κ :=
  match s.active with
  | [] => tidy s
  | next :: rest =>
    match s.tasks next with
    | none => s
    | some task => switchTo next task rest s

/-- `if (m_reSchedule)`; a delay that is not positive is none. -/
def reScheduled (s : Manager κ) : Manager κ :=
  if s.reSchedule then post s.reScheduleTime.toNat .Schedule { s with reSchedule := false } else s

/-- The rest of `Schedule` after a task has switched back to the main context. -/
def tail (s : Manager κ) : Manager κ := tidy (reScheduled s)

def endWait (k : κ) (task : Task) (s : Manager κ) : Manager κ :=
  if task.state = .BLOCKED then wakeup k s else s

/-- The events run in the order of their time stamps, and of their ids where these agree. -/
def isNext (s : Manager κ) (e : Event κ) : Bool :=
  s.pending.all fun other => e.ts < other.ts ∨ e.ts = other.ts ∧ e.uid ≤ other.uid

/-- A call of the running task. -/
def inTask (s : Manager κ) (f : κ → Task → Manager κ) : Option (Manager κ) :=
  match s.control with
  | .task t => (s.tasks t).map (f t)
  | _ => none

def step (s : Manager κ) : Act κ → Option (Manager κ)
  | .start k =>
    match s.control with
    | .back _ => none
    | _ => if s.tasks k = none then some (start k s) else none
  | .wakeup k =>
    match s.control with
    | .back _ => none
    | _ => if s.tasks k = none then none else some (wakeup k s)
  | .stop k =>
    match s.control with
    | .back _ => none
    | _ => if s.tasks k = none then none else some (stop k s)
  | .execOnMain =>
    match s.control with
    | .main => some s
    | .task t => some { s with control := .exec t }
    | _ => none
  | .execReturn =>
    match s.control with
    | .exec t => some { s with control := .task t }
    | _ => none
  | .sleep delay => inTask s fun t task => sleep t task delay s
  | .sleepFor timeout delay => inTask s fun t task => sleepFor t task timeout delay s
  | .yield delay => inTask s fun t task => yield t task delay s
  | .exit delay => inTask s fun t task => exit t task delay s
  | .sleepReturn => inTask s fun t task => sleepReturn t task s
  | .tail =>
    match s.control with
    | .back _ => some (tail s)
    | _ => none
  | .event uid =>
    match s.control, s.pending.find? fun e => e.uid = uid with
    | .main, some e =>
      if isNext s e then
        let s := { cancel (some uid) s with now := e.ts }
        match e.callback with
        | .Schedule => some (schedule s)
        | .EndWait k => (s.tasks k).map fun task => endWait k task s
      else none
    | _, _ => none
  | .advance =>
    match s.control with
    | .main => if s.pending.all fun e => s.now < e.ts then some { s with now := s.now + 1 } else none
    | _ => none

/-- A task manager before its first task. -/
structure Start (s : Manager κ) : Prop where
  tasks : ∀ k, s.tasks k = none
  current : s.current = none
  active : s.active = []
  nextSchedule : s.nextSchedule = none
  waitQueue : s.waitQueue = []
  deadTasks : s.deadTasks = []
  control : s.control = .main
  pending : s.pending = []

def machine (κ : Type*) [DecidableEq κ] : Machine (Manager κ) (Act κ) where
  init := Start
  step := step

end Dce.TaskManager
