import Dce.Processes.Model
import Dce.Signals.Model

/- The threads of one process and its signals: `dce-pthread.cc`, `dce-signal.cc`, what `utils.cc` and
`waiter.cc` do with signals, and the turns that `task-manager.cc` gives. -/

namespace Dce.Threads

open Function

open Processes (Handler SignalHandler SetDefaultSigHandler SIGKILL)

open Signals (How sigaddset sigdelset sigismember)

inductive TaskState
  | BLOCKED | ACTIVE | RUNNING
  deriving DecidableEq, Repr

/-- Where `UtilsDoSignal` stands with an entry: before its mask, before the signals of the thread or of
the process, or in the handler that it called for one of them. -/
inductive Stage
  | mask | thread | inThread | process | inProcess
  deriving DecidableEq, Repr

/-- A call that a thread has not returned from: `dce_pthread_join`, `Waiter::Wait`, or `UtilsDoSignal`
at the entry `i` of the vector that is at `storage`. -/
inductive Frame
  | join (thread : Nat)
  | wait (waiter : Nat)
  | signals (storage i : Nat) (stage : Stage)
  deriving DecidableEq, Repr

/-- `task` is `none` for a null pointer. `frames` are the calls that the thread is in, the last one first. -/
structure Thread where
  tid : Nat
  task : Option TaskState
  isDetached : Bool
  hasExitValue : Bool
  exitValue : Nat
  joinWaiter : Option Nat
  signalMask : Finset Nat
  pendingSignals : Finset Nat
  started : Bool
  frames : List Frame
  deriving DecidableEq

/-- What the program dies of. -/
inductive Fault
  | nullTask
  | freed
  | iterator
  | notFunction
  | assertion
  | fatal
  deriving DecidableEq, Repr

/-- Every `Thread` and every `Waiter` has an address of its own. `m_waiting` is that of the waiters, and
`storage` tells the places apart where the vector of the handlers was. -/
structure Process where
  threads : List Nat
  heap : Nat → Option Thread
  nextThread : Nat
  m_waiting : Nat → Option Nat
  nextWaiter : Nat
  signalHandlers : List SignalHandler
  storage : Nat
  pendingSignals : Finset Nat
  deleted : Bool
  fault : Option Fault

inductive Errno
  | EDEADLK | ESRCH | EINVAL
  deriving DecidableEq, Repr

inductive Outcome
  | done
  | failed (err : Errno)
  | joined (thread value : Nat)
  | sleeps
  | returned
  | interrupted
  | crashed
  deriving DecidableEq, Repr

def SIGSTOP : Nat := 19

def SIGPIPE : Nat := 13

def SIG_DFL : Handler := .function 0

def SIG_IGN : Handler := .function 1

/-- `new Thread ()` in `CreateThread` -/
def Thread.new (tid : Nat) : Thread where
  tid := tid
  task := none
  isDetached := false
  hasExitValue := false
  exitValue := 0
  joinWaiter := none
  signalMask := ∅
  pendingSignals := ∅
  started := false
  frames := []

def Process.put (a : Nat) (thread : Thread) (s : Process) : Process :=
  { s with heap := update s.heap a (some thread) }

@[simp]
theorem put_self {a : Nat} {thread : Thread} {s : Process} : (s.put a thread).heap a = some thread :=
  update_self ..

@[simp]
theorem put_other {a b : Nat} {thread : Thread} {s : Process} (ne : b ≠ a) : (s.put a thread).heap b = s.heap b :=
  update_of_ne ne ..

def deref (a : Nat) (s : Process) : Except Fault Thread :=
  match s.heap a with
  | some thread => .ok thread
  | none => .error .freed

def m_state (thread : Thread) : Except Fault TaskState :=
  match thread.task with
  | some state => .ok state
  | none => .error .nullTask

def orFatal {α : Type} : Option α → Except Fault α
  | some v => .ok v
  | none => .error .fatal

/-- The code of the program runs: its own, or a handler. -/
def Thread.inProgram (thread : Thread) : Bool :=
  match thread.frames with
  | [] => true
  | .signals _ _ .inThread :: _ => true
  | .signals _ _ .inProcess :: _ => true
  | _ => false

/-- It waits for something other than the end of a thread. -/
def Thread.waits (thread : Thread) : Bool :=
  match thread.frames with
  | .wait _ :: _ => true
  | _ => false

def Wakeup (a : Nat) (s : Process) : Except Fault Process := do
  let thread ← deref a s
  let state ← m_state thread
  pure (if state = .BLOCKED then s.put a { thread with task := some .ACTIVE } else s)

/-- `if (thread->task->IsBlocked ()) Wakeup (thread)` -/
def wakeIfBlocked (a : Nat) (s : Process) : Except Fault Process := do
  let thread ← deref a s
  let state ← m_state thread
  if state = .BLOCKED then Wakeup a s else pure s

def AllocateTid (s : Process) : Option Nat :=
  (List.range 0xffff).find? fun tid => s.threads.all fun a => (s.heap a).all fun thread => thread.tid ≠ tid

def SearchThread (tid : Nat) (s : Process) : Option Nat :=
  s.threads.find? fun a => (s.heap a).any fun thread => thread.tid = tid

def CreateThread (s : Process) : Except Fault (Nat × Process) := do
  let tid ← orFatal (AllocateTid s)
  pure (s.nextThread, { s.put s.nextThread (.new tid) with
    threads := s.threads ++ [s.nextThread]
    nextThread := s.nextThread + 1 })

def DeleteThread (a : Nat) (s : Process) : Except Fault Process := do
  let _ ← deref a s
  pure { s with threads := s.threads.erase a, heap := update s.heap a none }

/-- `DeleteProcess`, as far as the threads go. -/
def teardown (s : Process) : Process :=
  { s with threads := [], heap := fun a => if a ∈ s.threads then none else s.heap a, deleted := true }

/-- The stack of the new thread is as large as that of the first one. -/
def dce_pthread_create (current : Nat) (s : Process) : Except Fault Process := do
  let (thread, s) ← CreateThread s
  let first ← deref (s.threads.headD thread) s
  let _ ← m_state first
  let new ← deref thread s
  let s := s.put thread { new with task := some .ACTIVE }
  let self ← deref current s
  -- `Yield`
  pure (s.put current { self with task := some .ACTIVE })

def wakeJoiner (joinWaiter : Option Nat) (s : Process) : Except Fault Process :=
  match joinWaiter with
  | some waiter => Wakeup waiter s
  | none => pure s

def dce_pthread_exit (current value : Nat) (s : Process) : Except Fault Process :=
  if s.threads.length = 1 then pure (teardown s)
  else do
    let self ← deref current s
    if self.isDetached then DeleteThread current s
    else
      let s := s.put current { self with hasExitValue := true, exitValue := value }
      let s ← wakeJoiner self.joinWaiter s
      let self ← deref current s
      pure (s.put current { self with task := none, frames := [] })

/-- The loop of `dce_pthread_join`, up to its end or to the next `Wait`. -/
def joinLoop (current target : Nat) (s : Process) : Except Fault (Process × Outcome) := do
  let thread ← deref target s
  if thread.hasExitValue then
    if thread.isDetached then .error .assertion
    else
      let s ← DeleteThread target (s.put target { thread with isDetached := true })
      pure (s, .joined target thread.exitValue)
  else
    let s := s.put target { thread with joinWaiter := some current }
    let self ← deref current s
    pure (s.put current { self with task := some .BLOCKED, frames := .join target :: self.frames }, .sleeps)

def dce_pthread_join (current tid : Nat) (s : Process) : Except Fault (Process × Outcome) := do
  let self ← deref current s
  if self.tid = tid then pure (s, .failed .EDEADLK)
  else
    match SearchThread tid s with
    | none => pure (s, .failed .ESRCH)
    | some target =>
      let thread ← deref target s
      if thread.isDetached ∨ thread.joinWaiter ≠ none then pure (s, .failed .EINVAL)
      else joinLoop current target s

def dce_pthread_detach (tid : Nat) (s : Process) : Except Fault (Process × Outcome) :=
  match SearchThread tid s with
  | none => pure (s, .failed .ESRCH)
  | some target => do
    let thread ← deref target s
    if thread.isDetached then pure (s, .failed .EINVAL)
    else if thread.joinWaiter ≠ none then pure (s, .done)
    else pure (s.put target { thread with isDetached := true }, .done)

def dce_pthread_kill (tid sig : Nat) (s : Process) : Except Fault (Process × Outcome) :=
  match SearchThread tid s with
  | none => pure (s, .failed .ESRCH)
  | some target => do
    let thread ← deref target s
    let s := s.put target { thread with pendingSignals := sigaddset thread.pendingSignals sig }
    if sigismember thread.signalMask sig ≠ 0 then pure (s, .done)
    else
      let s ← wakeIfBlocked target s
      pure (s, .done)

/-- The loop of `UtilsSendSignal` over the threads. -/
def wakeCandidate (signum : Nat) : List Nat → Process → Except Fault Process
  | [], s => pure s
  | i :: rest, s => do
    let thread ← deref i s
    if sigismember thread.signalMask signum ≠ 0 then wakeCandidate signum rest s
    else
      let state ← m_state thread
      if state = .BLOCKED then Wakeup i s else wakeCandidate signum rest s

def UtilsSendSignal (signum : Nat) (s : Process) : Except Fault Process :=
  wakeCandidate signum s.threads { s with pendingSignals := sigaddset s.pendingSignals signum }

def HasPendingSignal (s : Process) : Bool := s.pendingSignals ≠ ∅

/-- `UtilsDoSignal` begins. -/
def scan (s : Process) : Frame := .signals s.storage 0 .mask

/-- Where the innermost call of a thread is next. -/
def goto (current : Nat) (self : Thread) (frames : List Frame) (s : Process) : Except Fault Process :=
  pure (s.put current { self with frames := frames })

/-- The call of the handler of an entry. -/
def invoke (current : Nat) (self : Thread) (frames : List Frame) (s : Process) : Handler → Except Fault Process
  | .SigkillHandler => pure (teardown s)
  | .SigabrtHandler => pure (teardown s)
  | .function address =>
    if Handler.function address = SIG_DFL ∨ Handler.function address = SIG_IGN then .error .notFunction
    else goto current self frames s

/-- From one point of a turn for an entry to the next one. -/
def deliver (current : Nat) (self : Thread) (rest : List Frame) (storage i : Nat) (s : Process)
    (entry : SignalHandler) :
    Stage → Except Fault Process
  | .mask =>
    if entry.signal ∈ self.signalMask ∧ entry.signal ≠ SIGKILL ∧ entry.signal ≠ SIGSTOP then
      goto current self (.signals storage (i + 1) .mask :: rest) s
    else goto current self (.signals storage i .thread :: rest) s
  | .thread =>
    if entry.signal ∈ self.pendingSignals then
      invoke current self (.signals storage i .inThread :: rest) s entry.handler
    else goto current self (.signals storage i .process :: rest) s
  | .inThread =>
    let pendingSignals := sigdelset self.pendingSignals entry.signal
    goto current { self with pendingSignals := pendingSignals } (.signals storage i .process :: rest) s
  | .process =>
    if entry.signal ∈ s.pendingSignals then
      invoke current self (.signals storage i .inProcess :: rest) s entry.handler
    else goto current self (.signals storage (i + 1) .mask :: rest) s
  | .inProcess =>
    let pendingSignals := sigdelset s.pendingSignals entry.signal
    goto current self (.signals storage (i + 1) .mask :: rest) { s with pendingSignals := pendingSignals }

/-- The loop of `UtilsDoSignal` goes on in `current`. -/
def UtilsDoSignal (current : Nat) (self : Thread) (rest : List Frame) (storage i : Nat) (stage : Stage)
    (s : Process) :
    Except Fault Process :=
  if storage ≠ s.storage then .error .iterator
  else
    match s.signalHandlers[i]? with
    | none => goto current self rest s
    | some entry => deliver current self rest storage i s entry stage

/-- A `set` that is `none` is a null pointer. -/
def dce_sigprocmask (current : Nat) (how : How) (set : Option (Finset Nat))
    (s : Process) : Except Fault (Process × Outcome) := do
  let self ← deref current s
  if how = .other then pure (s, .failed .EINVAL)
  else
    match set with
    | none => pure (s, .done)
    | some set => pure (s.put current { self with signalMask := Signals.newMask how set self.signalMask }, .done)

def setHandler (signum flags : Nat) (mask : Finset Nat) (handler : Handler) : List SignalHandler → List SignalHandler
  | [] => [⟨signum, flags, mask, handler⟩]
  | entry :: rest =>
    if entry.signal = signum then ⟨signum, flags, mask, handler⟩ :: rest
    else entry :: setHandler signum flags mask handler rest

/-- `moves` says that there is no room for one more entry where the vector is. -/
def dce_sigaction (signum flags : Nat) (mask : Finset Nat) (handler : Handler) (moves : Bool)
    (s : Process) : Process :=
  { s with
    signalHandlers := setHandler signum flags mask handler s.signalHandlers
    storage := if moves ∧ ∀ entry ∈ s.signalHandlers, entry.signal ≠ signum then s.storage + 1 else s.storage }

/-- `Waiter::Wait` of a new waiter, up to its `Wait`. -/
def wait (current : Nat) (s : Process) : Except Fault Process := do
  let self ← deref current s
  let s := { s with m_waiting := update s.m_waiting s.nextWaiter (some current), nextWaiter := s.nextWaiter + 1 }
  pure (s.put current { self with task := some .BLOCKED, frames := .wait (s.nextWaiter - 1) :: self.frames })

/-- `Waiter::WaitDoSignal` from there on. -/
def waitReturns (current : Nat) (self : Thread) (rest : List Frame) (waiter : Nat)
    (s : Process) : Process × Outcome :=
  let s := { s with m_waiting := update s.m_waiting waiter none }
  if HasPendingSignal s then (s.put current { self with frames := scan s :: rest }, .interrupted)
  else (s.put current { self with frames := rest }, .returned)

/-- `Waiter::Wakeup` -/
def wakeupWaiter (waiter : Nat) (s : Process) : Except Fault Process :=
  match s.m_waiting waiter with
  | none => pure s
  | some a => wakeIfBlocked a s

/-- What a thread that runs does next in its innermost call, whose handler has returned where it is in one. -/
def proceed (current : Nat) (self : Thread) (s : Process) : List Frame → Option (Except Fault (Process × Outcome))
  | [] => none
  | .join target :: rest => some do
    let s := s.put current { self with frames := rest }
    let thread ← deref target s
    joinLoop current target (s.put target { thread with joinWaiter := none })
  | .wait waiter :: rest => some (pure (waitReturns current self rest waiter s))
  | .signals storage i stage :: rest => some do
    let s ← UtilsDoSignal current self rest storage i stage s
    pure (s, .done)

/-- Calls of a thread, which is the first argument, and what comes from elsewhere: a signal to the
process, the wakeup of a waiter and the end of the time of a wait. -/
inductive Label
  | schedule (a : Nat)
  | proceed (a : Nat)
  | create (a : Nat)
  | exit (a value : Nat)
  | dce_exit (a : Nat)
  | join (a tid : Nat)
  | detach (a tid : Nat)
  | kill (a tid sig : Nat)
  | sigprocmask (a : Nat) (how : How) (set : Option (Finset Nat))
  | sigaction (a signum flags : Nat) (mask : Finset Nat) (handler : Handler) (moves : Bool)
  | sigpipe (a : Nat)
  | wait (a : Nat)
  | yield (a : Nat)
  | signal (signum : Nat)
  | wakeup (waiter : Nat)
  | timeout (a : Nat)
  deriving DecidableEq

def running (a : Nat) (s : Process) : Option Thread := (s.heap a).filter fun thread => thread.task = some .RUNNING

/-- The thread that makes a call. -/
def caller (a : Nat) (s : Process) : Option Thread := (running a s).filter Thread.inProgram

/-- No thread of the process is in the middle of a call. -/
def Interruptible (s : Process) : Prop :=
  ∀ a ∈ s.threads, ∀ thread ∈ running a s, thread.inProgram = true

instance (s : Process) : Decidable (Interruptible s) :=
  inferInstanceAs (Decidable (∀ a ∈ s.threads, ∀ thread ∈ running a s, thread.inProgram = true))

def silently (r : Except Fault Process) : Except Fault (Process × Outcome) := r.map fun s => (s, .done)

/-- What a label does where it is enabled. `SwitchNotifEatSignal` begins a scan whenever a thread comes back. -/
def call (s : Process) : Label → Option (Except Fault (Process × Outcome))
  | .schedule a => do
    let thread ← s.heap a
    if thread.task = some .ACTIVE ∧ ∀ b ∈ s.threads, running b s = none then
      some (pure (s.put a { thread with
        task := some .RUNNING
        started := true
        frames := if thread.started then scan s :: thread.frames else thread.frames }, .done))
    else none
  | .proceed a => do
    let self ← running a s
    proceed a self s self.frames
  | .create a => (caller a s).map fun _ => silently (dce_pthread_create a s)
  | .exit a value => (caller a s).map fun _ => silently (dce_pthread_exit a value s)
  | .dce_exit a => (caller a s).map fun _ => pure (teardown s, .done)
  | .join a tid => (caller a s).map fun _ => dce_pthread_join a tid s
  | .detach a tid => (caller a s).map fun _ => dce_pthread_detach tid s
  | .kill a tid sig => (caller a s).map fun _ => dce_pthread_kill tid sig s
  | .sigprocmask a how set => (caller a s).map fun _ => dce_sigprocmask a how set s
  | .sigaction a signum flags mask handler moves =>
    (caller a s).map fun _ => pure (dce_sigaction signum flags mask handler moves s, .done)
  | .sigpipe a => (caller a s).map fun _ => do
    let s ← UtilsSendSignal SIGPIPE s
    let self ← deref a s
    silently (goto a self (scan s :: self.frames) s)
  | .wait a => (caller a s).map fun _ => (wait a s).map fun s => (s, .sleeps)
  | .yield a => (caller a s).map fun self => pure (s.put a { self with task := some .ACTIVE }, .done)
  | .signal signum => if Interruptible s then some (silently (UtilsSendSignal signum s)) else none
  | .wakeup waiter => if Interruptible s then some (silently (wakeupWaiter waiter s)) else none
  | .timeout a => do
    let thread ← s.heap a
    if thread.task = some .BLOCKED ∧ thread.waits = true then
      some (silently (Wakeup a s))
    else none

def settle (s : Process) : Except Fault (Process × Outcome) → Process × Outcome
  | .ok result => result
  | .error fault => ({ s with fault := some fault }, .crashed)

/-- A step with its outcome. After a fault, and after the end of the process, there is none. -/
def respond (s : Process) (label : Label) : Option (Process × Outcome) :=
  if s.deleted = true ∨ s.fault ≠ none then none else (call s label).map (settle s)

/-- A process that `Start` has made. -/
def start : Process where
  threads := [0]
  heap := update (fun _ => none) 0 (some { Thread.new 0 with task := some .ACTIVE })
  nextThread := 1
  m_waiting := fun _ => none
  nextWaiter := 0
  signalHandlers := SetDefaultSigHandler []
  storage := 0
  pendingSignals := ∅
  deleted := false
  fault := none

def machine : Machine Process Label where
  init s := s = start
  step s label := (respond s label).map Prod.fst

end Dce.Threads
