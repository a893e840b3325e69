import Dce.TaskManager.SleepTimers

/- The calls of `dce.cc` that sleep for some time. -/

namespace Dce.TaskManager

inductive Errno
  | EFAULT | EINVAL | EINTR
  deriving DecidableEq, Repr

structure Timespec where
  tv_sec : Int
  tv_nsec : Int
  deriving DecidableEq, Repr

/-- A time of the simulator counts units of its resolution. -/
abbrev Time := Int64

/-- The conversions of the simulator with `perSecond` units in a second. They round down, and count right where the
result fits into a `Time`. -/
structure TimeUnits where
  perSecond : Nat
  Seconds : Nat → Time
  MicroSeconds : Nat → Time
  NanoSeconds : Nat → Time
  GetNanoSeconds : Time → Int
  seconds_toInt : ∀ n, n * perSecond < 2 ^ 63 → (Seconds n).toInt = (n * perSecond : Nat)
  microSeconds_toInt : ∀ n, n * perSecond / 1000000 < 2 ^ 63 →
    (MicroSeconds n).toInt = (n * perSecond / 1000000 : Nat)
  nanoSeconds_toInt : ∀ n, n * perSecond / 1000000000 < 2 ^ 63 →
    (NanoSeconds n).toInt = (n * perSecond / 1000000000 : Nat)

/-- What a call returns, with the errno and what it leaves in `rem`. -/
structure Result where
  ret : Int
  err : Option Errno
  rem : Option Timespec
  deriving DecidableEq, Repr

/-- A call up to its `Wait (timeout)`, and what it makes of the time that was left. -/
inductive SleepCall
  | returns (result : Result)
  | Wait (timeout : Time) (after : Time → Result)

inductive Request
  | sleep (seconds : Nat)
  | usleep (usec : Nat)
  | nanosleep (req : Option Timespec) (rem : Bool)

/-- `nanosleep` does not take the request. -/
def Request.Refused : Request → Prop
  | .sleep _ | .usleep _ => False
  | .nanosleep none _ => True
  | .nanosleep (some req) _ => req.tv_sec < 0 ∨ req.tv_nsec < 0 ∨ 999999999 < req.tv_nsec

section

variable (units : TimeUnits)

def UtilsTimespecToTime (tm : Timespec) : Time := units.Seconds tm.tv_sec.toNat + units.NanoSeconds tm.tv_nsec.toNat

def UtilsTimeToTimespec (time : Time) : Timespec :=
  let n := units.GetNanoSeconds time
  ⟨n.tdiv 1000000000, n.tmod 1000000000⟩

def dce_sleep (seconds : Nat) : SleepCall := .Wait (units.Seconds seconds) fun _ => ⟨0, none, none⟩

def dce_usleep (usec : Nat) : SleepCall := .Wait (units.MicroSeconds usec) fun _ => ⟨0, none, none⟩

def dce_nanosleep (req : Option Timespec) (rem : Bool) : SleepCall :=
  match req with
  | none => .returns ⟨-1, some .EFAULT, none⟩
  | some req =>
    if req.tv_sec < 0 ∨ req.tv_nsec < 0 ∨ 999999999 < req.tv_nsec then .returns ⟨-1, some .EINVAL, none⟩
    else .Wait (UtilsTimespecToTime units req) fun remTime =>
      if remTime = 0 then ⟨0, none, none⟩
      else ⟨-1, some .EINTR, if rem then some (UtilsTimeToTimespec units remTime) else none⟩

def call : Request → SleepCall
  | .sleep seconds => dce_sleep units seconds
  | .usleep usec => dce_usleep units usec
  | .nanosleep req rem => dce_nanosleep units req rem

/-- The duration that is asked for, in whole units. -/
def asked : Request → Nat
  | .sleep seconds => seconds * units.perSecond
  | .usleep usec => usec * units.perSecond / 1000000
  | .nanosleep none _ => 0
  | .nanosleep (some req) _ =>
    req.tv_sec.toNat * units.perSecond + req.tv_nsec.toNat * units.perSecond / 1000000000

end

variable {κ : Type*} [DecidableEq κ] {s v w : Manager κ} {t : κ} {task : Task} {timeout : Nat} {delay : Int}

/-- The task is blocked, and the timer of the sleep it is in is scheduled for `ts`. -/
def WakesAt (w : Manager κ) (t : κ) (ts : Nat) : Prop :=
  ∃ task timeout expectedEnd uid rest, w.tasks t = some task ∧ task.state = .BLOCKED ∧ task.waitTimer = some uid ∧
    task.frames = .sleepFor timeout expectedEnd (some uid) :: rest ∧ ⟨uid, ts, .EndWait t⟩ ∈ w.pending

/-- A request of the running task: the call returns at once, or the `Time` that it waits for is the duration asked
for and the task is blocked with a timer for it, at a time that the simulator has, when the main context has control
again. -/
def Ends (units : TimeUnits) (request : Request) (t : κ) (delay : Int) (s : Manager κ) : Prop :=
  match call units request with
  | .returns _ => True
  | .Wait timeout _ => timeout.toInt = asked units request ∧ s.now + asked units request < 2 ^ 63 ∧
    ∃ v w, step s (.sleepFor (asked units request) delay) = some v ∧ step v .tail = some w ∧
      WakesAt w t (s.now + asked units request)

/-- A request that is not refused comes to some time, and the simulator can count to its end. -/
def TakesTime (units : TimeUnits) (now : Nat) (request : Request) : Prop :=
  ¬ request.Refused → 0 < asked units request ∧ now + asked units request < 2 ^ 63

theorem tidy_single (dead : s.deadTasks = []) (queue : s.waitQueue = [(t, timeout)])
    (found : s.tasks t = some task) :
    (tidy s).tasks t = some { task with waitTimer := some s.nextUid, frames := withTimer s.nextUid task.frames } ∧
      (tidy s).pending = s.pending ++ [⟨s.nextUid, s.now + timeout, .EndWait t⟩] := by
  simp [tidy, queue, startTimers, found, post, setTask, dead, garbageCollect]

theorem tidy_none (dead : s.deadTasks = []) (queue : s.waitQueue = []) : (tidy s).tasks = s.tasks := by
  simp only [tidy, queue, startTimers, dead, garbageCollect]

theorem sleepFor_fields (task : Task) (timeout : Nat) (delay : Int) (reach : (machine κ).Reach s)
    (here : s.control = .task t) :
    (reScheduled (sleepFor t task timeout delay s)).tasks t =
        some { task with state := .BLOCKED, frames := .sleepFor timeout (s.now + timeout) none :: task.frames } ∧
      (reScheduled (sleepFor t task timeout delay s)).deadTasks = [] ∧
      (reScheduled (sleepFor t task timeout delay s)).waitQueue = (if timeout = 0 then [] else [(t, timeout)]) ∧
      (reScheduled (sleepFor t task timeout delay s)).now = s.now := by
  have away : ∀ u, s.control ≠ .back u := fun u back => by cases here.symm.trans back
  obtain ⟨tasks, -, -, dead, -⟩ := reScheduled_fields (s := sleepFor t task timeout delay s)
  obtain ⟨queue, now, -⟩ := reScheduled_waitQueue (s := sleepFor t task timeout delay s)
  refine ⟨?_, ?_, ?_, now⟩
  · rw [tasks]
    exact Function.update_self ..
  · rw [dead]
    exact (rep_of_reach reach).reaped away
  · rw [queue]
    simp [sleepFor, leave, waitQueue_of_reach reach away]

theorem wakesAt_iff (task : Task) (delay : Int) (reach : (machine κ).Reach s) (here : s.control = .task t) :
    WakesAt (tail (sleepFor t task timeout delay s)) t (s.now + timeout) ↔ timeout ≠ 0 := by
  obtain ⟨blocked, dead, queue, now⟩ := sleepFor_fields task timeout delay reach here
  by_cases forever : timeout = 0
  · rw [if_pos forever] at queue
    refine iff_of_false ?_ fun positive => positive forever
    rintro ⟨after, limit, expectedEnd, uid, rest, after_eq, -, -, frames, -⟩
    rw [tail, tidy_none dead queue, blocked] at after_eq
    cases after_eq
    cases frames
  · rw [if_neg forever] at queue
    obtain ⟨armed, pending⟩ := tidy_single dead queue blocked
    refine iff_of_true ⟨_, _, _, _, _, armed, rfl, rfl, rfl, ?_⟩ forever
    rw [tail, pending, now]
    exact List.mem_append_right _ (List.mem_singleton.mpr rfl)

theorem wait_iff (reach : (machine κ).Reach s) (here : s.control = .task t) :
    (∃ v w, step s (.sleepFor timeout delay) = some v ∧ step v .tail = some w ∧ WakesAt w t (s.now + timeout)) ↔
    timeout ≠ 0 := by
  have rep := rep_of_reach reach
  have mine : s.current = some t := by rw [rep.current, here]; rfl
  obtain ⟨task, found, -⟩ := Option.map_eq_some_iff.mp ((rep.running t).mpr mine)
  have sleeps : step s (.sleepFor timeout delay) = some (sleepFor t task timeout delay s) := by
    simp [step, inTask, here, found]
  have tidies : step (sleepFor t task timeout delay s) .tail = some (tail (sleepFor t task timeout delay s)) := rfl
  rw [← wakesAt_iff task delay reach here]
  constructor
  · rintro ⟨v, w, first, second, wakes⟩
    cases sleeps.symm.trans first
    cases tidies.symm.trans second
    exact wakes
  · exact fun wakes => ⟨_, _, sleeps, tidies, wakes⟩

theorem toInt_UtilsTimespecToTime (units : TimeUnits) (req : Timespec)
    (fits : asked units (.nanosleep (some req) false) < 2 ^ 63) :
    (UtilsTimespecToTime units req).toInt = (asked units (.nanosleep (some req) false) : Nat) := by
  simp only [asked] at fits ⊢
  have seconds := units.seconds_toInt req.tv_sec.toNat (by omega)
  have nanos := units.nanoSeconds_toInt req.tv_nsec.toNat (by omega)
  rw [UtilsTimespecToTime, Int64.toInt_add, seconds, nanos, ← Nat.cast_add]
  exact Int.bmod_eq_of_le (by omega) (by omega)

/-- The conversion of a request that waits is right wherever the duration fits. -/
theorem call_wait {units : TimeUnits} {request : Request} (taken : ¬ request.Refused) :
    ∃ timeout after, call units request = .Wait timeout after ∧
      (asked units request < 2 ^ 63 → timeout.toInt = asked units request) := by
  cases request with
  | sleep seconds => exact ⟨_, _, rfl, units.seconds_toInt seconds⟩
  | usleep usec => exact ⟨_, _, rfl, units.microSeconds_toInt usec⟩
  | nanosleep req rem =>
    cases req with
    | none => exact absurd trivial taken
    | some req => exact ⟨_, _, if_neg taken, toInt_UtilsTimespecToTime units req⟩

theorem call_returns {units : TimeUnits} {request : Request} (refused : request.Refused) :
    ∃ result, call units request = .returns result := by
  cases request with
  | sleep | usleep => exact refused.elim
  | nanosleep req rem =>
    cases req with
    | none => exact ⟨_, rfl⟩
    | some req => exact ⟨_, if_pos refused⟩

instance (request : Request) : Decidable request.Refused :=
  match request with
  | .sleep _ | .usleep _ => instDecidableFalse
  | .nanosleep none _ => instDecidableTrue
  | .nanosleep (some _) _ => inferInstanceAs (Decidable (_ ∨ _))

/-- The calls that sleep end, but for those that come to no time, for which their task waits for ever, and those that
the simulator cannot count. -/
theorem ends_iff_takesTime (units : TimeUnits) (request : Request) (s : Manager κ) (t : κ) (delay : Int)
    (reach : (machine κ).Reach s) (here : s.control = .task t) :
    Ends units request t delay s ↔ TakesTime units s.now request := by
  by_cases refused : request.Refused
  · obtain ⟨result, returns⟩ := @call_returns units request refused
    unfold Ends
    rw [returns]
    exact iff_of_true trivial fun taken => absurd refused taken
  · obtain ⟨timeout, after, waits, right⟩ := @call_wait units request refused
    unfold Ends
    rw [waits]
    constructor
    · rintro ⟨-, bound, sleeps⟩ -
      exact ⟨Nat.pos_of_ne_zero ((wait_iff reach here).mp sleeps), bound⟩
    · intro takes
      obtain ⟨some_, bound⟩ := takes refused
      exact ⟨right (by omega), bound, (wait_iff reach here).mpr (Nat.ne_of_gt some_)⟩

/-- A resolution of a nanosecond. -/
def nanoseconds : TimeUnits where
  perSecond := 1000000000
  Seconds n := .ofInt (n * 1000000000 : Nat)
  MicroSeconds n := .ofInt (n * 1000 : Nat)
  NanoSeconds n := .ofInt n
  GetNanoSeconds time := time.toInt
  seconds_toInt n fits := Int64.toInt_ofInt_of_le (by omega) (by omega)
  microSeconds_toInt n fits := by
    have whole : n * 1000000000 / 1000000 = n * 1000 := by omega
    rw [whole] at fits ⊢
    exact Int64.toInt_ofInt_of_le (by omega) (by omega)
  nanoSeconds_toInt n fits := by
    have whole : n * 1000000000 / 1000000000 = n := by omega
    rw [whole] at fits ⊢
    exact Int64.toInt_ofInt_of_le (by omega) (by omega)

/-- A task in control. -/
def firstRuns : Manager Nat := ((machine Nat).replay noTasks [.start 0, .event 0]).getD noTasks

theorem firstRuns_reach : (machine Nat).Reach firstRuns := by
  have run : (machine Nat).replay noTasks [.start 0, .event 0] = some firstRuns := rfl
  exact (Machine.ReachBy.start noTasks_start).replay (fun _ _ => trivial) run

theorem ends_usleep : Ends nanoseconds (.usleep 5) 0 0 firstRuns :=
  (ends_iff_takesTime nanoseconds (.usleep 5) firstRuns 0 0 firstRuns_reach rfl).mpr fun _ => by decide

/-- After `sleep (0)` the task is blocked, and no event is left that could wake it. -/
theorem not_ends : ¬ Ends nanoseconds (.sleep 0) 0 0 firstRuns ∧ ∃ w, (machine Nat).replay firstRuns
    [.sleepFor 0 0, .tail] = some w ∧
    stateOf w 0 = some .BLOCKED ∧ w.pending = [] := by
  refine ⟨?_, _, rfl, rfl, rfl⟩
  rintro ⟨-, -, v, w, first, second, task, timeout, expectedEnd, uid, rest, -, -, -, -, timer⟩
  cases first
  cases second
  cases timer

/-- A time that would be negative is none that the call could wait for. -/
example : (UtilsTimespecToTime nanoseconds ⟨10000000000, 0⟩).toInt < 0 := by decide

end Dce.TaskManager
