import Dce.Lib.Coroutine

/- The mutexes and condition variables of a process, as `dce-pthread-mutex.cc` and
`dce-pthread-cond.cc` run them: each definition below takes the code from one call
of the task manager that can switch threads to the next. -/

namespace Dce.Pthread

open Coroutine

inductive MutexType
  | NORMAL | RECURSIVE
  deriving DecidableEq, Repr

structure Mutex (T : Type*) where
  type : MutexType
  /-- `uint32_t` -/
  count : Nat
  waiting : List T
  current : Option T

structure Condition (T : Type*) where
  waiting : List T

/-- History, not in the source: when a lock takes effect and when an unlock does. -/
inductive Event (T : Type*)
  | locked (t : T) (m : Nat)
  | unlocked (t : T) (m : Nat)
  deriving DecidableEq, Repr

/-- The objects of a process by their ids; `none` is an id that no search finds. -/
structure Process (T : Type*) where
  mutexes : Nat → Option (Mutex T)
  conditions : Nat → Option (Condition T)
  history : List (Event T)

inductive Code
  | success | EPERM | EBUSY | EINVAL | EDEADLK | ETIMEDOUT
  deriving DecidableEq, Repr

/-- Where a thread can lose control. A lock made by a condition wait carries the code
that wait is going to return; an unlock made by one carries the condition variable to
go on with and the time limit of the wait. -/
inductive Frame
  | lock (m : Nat) (code : Option Code)
  | unlock (m : Nat) (next : Option (Nat × Option Nat))
  | condWait (c m : Nat) (timeout : Option Nat)
  deriving DecidableEq, Repr

inductive Op
  | lock (m : Nat)
  | trylock (m : Nat)
  | unlock (m : Nat)
  | condWait (c m : Nat)
  | condTimedwait (c m : Nat) (abstime : Nat)
  | condSignal (c : Nat)
  | condBroadcast (c : Nat)
  deriving DecidableEq, Repr

abbrev W (T : Type*) := World T Frame Code (Process T)

section

variable {T : Type*}

def setMutex (m : Nat) (mtx : Mutex T) (w : W T) : W T :=
  { w with shared := { w.shared with mutexes := Function.update w.shared.mutexes m (some mtx) } }

def setCondition (c : Nat) (condition : Condition T) (w : W T) : W T :=
  { w with shared :=
      { w.shared with conditions := Function.update w.shared.conditions c (some condition) } }

def log (e : Event T) (w : W T) : W T :=
  { w with shared := { w.shared with history := e :: w.shared.history } }

/-- `mtx->count++` on a `uint32_t`. -/
def Mutex.incCount (mtx : Mutex T) : Nat := (mtx.count + 1) % 2 ^ 32

/-- `mtx->count--` on a `uint32_t`. -/
def Mutex.decCount (mtx : Mutex T) : Nat := (mtx.count + (2 ^ 32 - 1)) % 2 ^ 32

end

variable {T : Type*} [DecidableEq T]

/-- The loop `while (mtx->current != 0)` and what follows it, up to its `Wait`. -/
def lockLoop (t : T) (m : Nat) (code : Option Code) (w : W T) : W T :=
  match w.shared.mutexes m with
  | none => w.ret t (code.getD .EINVAL)
  | some mtx =>
    match mtx.current with
    | some _ => (setMutex m { mtx with waiting := mtx.waiting ++ [t] } w).sleep t (.lock m code)
    | none =>
      (log (.locked t m) (setMutex m { mtx with current := some t, count := mtx.incCount } w)).ret t
      (code.getD .success)

def dcePthreadMutexLock (t : T) (m : Nat) (code : Option Code) (w : W T) : W T :=
  match w.shared.mutexes m with
  | none => w.ret t (code.getD .EINVAL)
  | some mtx =>
    if mtx.current = some t then
      match mtx.type with
      | .RECURSIVE =>
        (log (.locked t m) (setMutex m { mtx with count := mtx.incCount } w)).ret t (code.getD .success)
      | .NORMAL => w.ret t (code.getD .EDEADLK)
    else lockLoop t m code w

def dcePthreadMutexTrylock (t : T) (m : Nat) (w : W T) : W T :=
  match w.shared.mutexes m with
  | none => w.ret t .EINVAL
  | some mtx =>
    match mtx.type, mtx.current with
    | _, none =>
      (log (.locked t m) (setMutex m { mtx with current := some t, count := mtx.incCount } w)).ret t .success
    | .RECURSIVE, some owner =>
      if owner = t then
        (log (.locked t m) (setMutex m { mtx with count := mtx.incCount } w)).ret t .success
      else w.ret t .EBUSY
    | .NORMAL, some _ => w.ret t .EBUSY

/-- `waiting.push_back (current)` of a condition wait and its `Wait`; a time limit of
zero sets no timer. -/
def condEnqueue (t : T) (c m : Nat) (timeout : Option Nat) (w : W T) : W T :=
  match w.shared.conditions c with
  | none => w.ret t .EINVAL
  | some condition =>
    let w := setCondition c { condition with waiting := condition.waiting ++ [t] } w
    match timeout with
    | none => w.sleep t (.condWait c m timeout)
    | some 0 => w.sleep t (.condWait c m timeout)
    | some limit => w.sleepUntil t (.condWait c m timeout) (w.now + limit)

/-- What follows the return of an unlock: a condition wait goes on whatever it returned. -/
def unlockReturn (t : T) (m : Nat) (next : Option (Nat × Option Nat)) (r : Code) (w : W T) : W T :=
  match next with
  | none => w.ret t r
  | some (c, timeout) => condEnqueue t c m timeout w

/-- `waiting.front ()` of an empty list reads as a null pointer here. -/
def dcePthreadMutexUnlock (t : T) (m : Nat) (next : Option (Nat × Option Nat)) (w : W T) : W T :=
  match w.shared.mutexes m with
  | none => unlockReturn t m next .EINVAL w
  | some mtx =>
    if mtx.current ≠ some t then unlockReturn t m next .EPERM w
    else if mtx.decCount = 0 then
      let w := log (.unlocked t m) (setMutex m { mtx with count := mtx.decCount, current := none } w)
      match mtx.waiting with
      | [] => unlockReturn t m next .success w
      | waiting :: _ => (w.wake waiting).yieldAt t (.unlock m next)
    else
      unlockReturn t m next .success (log (.unlocked t m) (setMutex m { mtx with count := mtx.decCount } w))

def dcePthreadCondWait (t : T) (c m : Nat) (w : W T) : W T :=
  match w.shared.conditions c with
  | none => w.ret t .EINVAL
  | some _ => dcePthreadMutexUnlock t m (some (c, none)) w

def dcePthreadCondTimedwait (t : T) (c m abstime : Nat) (w : W T) : W T :=
  match w.shared.conditions c with
  | none => w.ret t .EINVAL
  | some _ => dcePthreadMutexUnlock t m (some (c, some (abstime - w.now))) w

def dcePthreadCondSignal (t : T) (c : Nat) (w : W T) : W T :=
  match w.shared.conditions c with
  | none => w.ret t .EINVAL
  | some condition =>
    match condition.waiting with
    | [] => w.ret t .success
    | thread :: rest => (setCondition c { condition with waiting := rest } (w.wake thread)).ret t .success

def dcePthreadCondBroadcast (t : T) (c : Nat) (w : W T) : W T :=
  match w.shared.conditions c with
  | none => w.ret t .EINVAL
  | some condition =>
    (setCondition c { condition with waiting := [] } (w.wakeAll condition.waiting)).ret t .success

/-- `mtx->waiting.remove (current)` -/
def removeWaiting (t : T) (m : Nat) (w : W T) : W T :=
  match w.shared.mutexes m with
  | none => w
  | some mtx => setMutex m { mtx with waiting := mtx.waiting.filter (· ≠ t) } w

/-- What a condition wait returns once it has the mutex again. -/
def waitCode (timeout : Option Nat) (timeLeft : Nat) : Code :=
  match timeout with
  | none => .success
  | some _ => if timeLeft = 0 then .ETIMEDOUT else .success

def resume (t : T) (frame : Frame) (_ : Unit) (w : W T) : W T :=
  match frame with
  | .lock m code => lockLoop t m code (removeWaiting t m w)
  | .unlock m next => unlockReturn t m next .success w
  | .condWait _ m timeout => dcePthreadMutexLock t m (some (waitCode timeout (w.timeLeft t))) w

def enter (t : T) (op : Op) (w : W T) : W T :=
  match op with
  | .lock m => dcePthreadMutexLock t m none w
  | .trylock m => dcePthreadMutexTrylock t m w
  | .unlock m => dcePthreadMutexUnlock t m none w
  | .condWait c m => dcePthreadCondWait t c m w
  | .condTimedwait c m abstime => dcePthreadCondTimedwait t c m abstime w
  | .condSignal c => dcePthreadCondSignal t c w
  | .condBroadcast c => dcePthreadCondBroadcast t c w

/-- Any objects, just initialised. -/
structure Process.Fresh (p : Process T) : Prop where
  mutexes : ∀ m mtx, p.mutexes m = some mtx → mtx.count = 0 ∧ mtx.waiting = [] ∧ mtx.current = none
  conditions : ∀ c condition, p.conditions c = some condition → condition.waiting = []
  history : p.history = []

def program (T : Type*) [DecidableEq T] : Program T Frame Code (Process T) Op Unit where
  start := Process.Fresh
  enter := enter
  resume := resume

/-- A process whose threads `T` run any interleaving of the operations. -/
def machine (T : Type*) [DecidableEq T] : Machine (W T) (Act T Op Unit) := (program T).machine

end Dce.Pthread
