import Dce.Descriptors.Model
import Dce.Processes.Credentials
import Mathlib.Data.Finset.Sort

/- The processes that `dce-manager.cc` starts, forks and ends, and `dce-wait.cc`. -/

namespace Dce.Processes

inductive Handler
  | SigkillHandler
  | SigabrtHandler
  | function (address : Nat)
  deriving DecidableEq, Repr

structure SignalHandler where
  signal : Nat
  flags : Nat
  mask : Finset Nat
  handler : Handler
  deriving DecidableEq

def SIGKILL : Nat := 9

def SIGABRT : Nat := 6

def SetDefaultSigHandler (signalHandlers : List SignalHandler) : List SignalHandler :=
  signalHandlers ++ [⟨SIGKILL, 0, ∅, .SigkillHandler⟩, ⟨SIGABRT, 0, ∅, .SigabrtHandler⟩]

/-- A call of `dce_waitpid` that sleeps: its argument `pid`, whether it was given a place for the
status, and whether it was woken. -/
structure Waiter where
  pid : Int
  status : Bool
  woken : Bool
  deriving DecidableEq, Repr

structure Thread where
  tid : Nat
  signalMask : Finset Nat
  childWaiter : Option Waiter
  deriving DecidableEq

/-- `loaded` says that there are `loader` and `alloc`. A process without them is a zombie. -/
structure Process where
  ids : Ids
  ppid : Nat
  pid : Nat
  pgid : Nat
  name : String
  cwd : String
  signalHandlers : List SignalHandler
  pendingSignals : Finset Nat
  nextMid : Nat
  nextSid : Nat
  nextCid : Nat
  uMask : Nat
  nodeId : Nat
  exitValue : BitVec 32
  children : Finset Nat
  threads : List Thread
  loaded : Bool
  deriving DecidableEq

structure DceManager (β : Type) where
  m_processes : Nat → Option Process
  m_nextPid : Nat
  files : Descriptors.System β

inductive WaitErrno
  | EINVAL | ECHILD | EINTR
  deriving DecidableEq, Repr

def Process.new : Process where
  ids := ⟨0, 0, 0, 0, 0, 0⟩
  ppid := 0
  pid := 0
  pgid := 0
  name := ""
  cwd := ""
  signalHandlers := []
  pendingSignals := ∅
  nextMid := 0
  nextSid := 0
  nextCid := 0
  uMask := 0
  nodeId := 0
  exitValue := 0
  children := ∅
  threads := []
  loaded := false

variable {β : Type}

def DceManager.set (pid : Nat) (process : Option Process) (s : DceManager β) : DceManager β :=
  { s with m_processes := Function.update s.m_processes pid process }

/-- `none` is a fatal error: there are too many processes. -/
def AllocatePid (s : DceManager β) : Option (Nat × DceManager β) := do
  let candidatePid ← ((List.range 0xffff).map fun i => (s.m_nextPid + i) % 2 ^ 16).find?
    fun candidatePid : Nat => 1 < candidatePid ∧ (s.m_processes candidatePid).isNone
  pure (candidatePid, { s with m_nextPid := (candidatePid + 1) % 2 ^ 16 })

def AllocateTid (process : Process) : Option Nat :=
  (List.range 0xffff).find? fun tid => process.threads.all fun thread => thread.tid ≠ tid

def CreateThread (process : Process) : Option Process := do
  let tid ← AllocateTid process
  pure { process with threads := process.threads ++ [⟨tid, ∅, none⟩] }

/-- Only the last thread of a process is left in another way. -/
def DeleteThread (tid : Nat) (process : Process) : Process :=
  { process with threads := process.threads.eraseP fun thread => thread.tid = tid }

/-- `Start`, with what `CreateProcess` does. -/
def Start (name : String) (nodeId : Nat) (uid euid gid egid : UInt32) (s : DceManager β) :
    Option (Nat × DceManager β) := do
  let (pid, s) ← AllocatePid s
  let process ← CreateThread { Process.new with
    ids := ⟨uid, euid, 0, gid, egid, 0⟩
    pid := pid
    name := name
    cwd := "/"
    signalHandlers := SetDefaultSigHandler []
    nextMid := 3
    nextSid := 3
    nextCid := 3
    uMask := 0o22
    nodeId := nodeId
    loaded := true }
  pure (pid, s.set pid (some process))

/-- The record of the child, and that of its parent with the child among the children. -/
def Clone (parent : Nat) (s : DceManager β) : Option (Nat × DceManager β) := do
  let process ← s.m_processes parent
  let (pid, s) ← AllocatePid s
  let clone ← CreateThread { Process.new with
    ids := ⟨0, 0, 0, 0, 0, 0⟩
    exitValue := 0
    name := process.name
    ppid := process.pid
    pgid := process.pgid
    pid := pid
    pendingSignals := ∅
    signalHandlers := SetDefaultSigHandler []
    nextMid := process.nextMid
    nextSid := process.nextSid
    nextCid := process.nextCid
    cwd := process.cwd
    loaded := true }
  let s := s.set parent (some { process with children := insert pid process.children })
  -- the map of a new process has no descriptors
  if ∀ key ∈ s.files.openFiles.keys, key.1 ≠ pid then
    pure (pid, { s.set pid (some clone) with files := Descriptors.clone parent pid s.files })
  else none

/-- A `__W_EXITCODE` with the signal that is in the old value. -/
def exitCode (status old : BitVec 32) : BitVec 32 := status <<< 8 ||| (old &&& 0x7f)

def WakeupChildWaiters (process : Process) : Process :=
  { process with
    threads := process.threads.map fun thread =>
      { thread with childWaiter := thread.childWaiter.map fun waiter => { waiter with woken := true } } }

/-- `none` is a failed assertion. -/
def ChildFinished (pid : Nat) (s : DceManager β) : Option (DceManager β) := do
  let child ← s.m_processes pid
  let parent ← s.m_processes child.ppid
  pure (s.set child.ppid (some (WakeupChildWaiters parent)))

inductive ProcessEndCause
  | PEC_EXIT | PEC_NS3_STOP
  deriving DecidableEq, Repr

/-- One turn of the loop that gives the children of a process away. -/
def reparent (s : DceManager β) (it : Nat) : DceManager β :=
  match s.m_processes it with
  | none => s
  | some child =>
    if 1 < child.pid ∧ child.loaded = false then s.set child.pid none
    else s.set it (some { child with ppid := 1 })

/-- The end of `DeleteProcess`, for a process whose parent was `ppid`: it becomes a zombie or goes. -/
def unload (pid ppid : Nat) (s : DceManager β) : Option (DceManager β) := do
  let process ← s.m_processes pid
  let s := s.set pid (some { process with loaded := false })
  if 1 < ppid then ChildFinished pid s else pure (s.set pid none)

def closeFiles (pid : Nat) (s : Descriptors.System β) : ProcessEndCause → Descriptors.System β
  | .PEC_EXIT => Descriptors.exit pid s
  | .PEC_NS3_STOP => Descriptors.stop pid s

def DeleteProcess (pid : Nat) (type : ProcessEndCause) (s : DceManager β) : Option (DceManager β) := do
  let process ← s.m_processes pid
  let s := { s with files := closeFiles pid s.files type }
  let s := s.set pid (some { process with threads := [], children := ∅ })
  unload pid process.ppid (process.children.sort.foldl reparent s)

def dce_exit (pid : Nat) (status : BitVec 32) (s : DceManager β) : Option (DceManager β) := do
  let process ← s.m_processes pid
  DeleteProcess pid .PEC_EXIT (s.set pid (some { process with exitValue := exitCode status process.exitValue }))

/-- A process that is not there is not stopped. -/
def Stop (pid : Nat) (s : DceManager β) : Option (DceManager β) :=
  if (s.m_processes pid).isNone then pure s else DeleteProcess pid .PEC_NS3_STOP s

def FinishChild (pid : Nat) (s : DceManager β) : DceManager β := s.set pid none

/-- The loop over the children: the first zombie that the call may return, or the number of those
that it may wait for. -/
def seek (s : DceManager β) (pid : Int) : List Nat → Nat → Process ⊕ Nat
  | [], childCount => .inr childCount
  | it :: rest, childCount =>
    match if 1 < it then s.m_processes it else none with
    | none => seek s pid rest childCount
    | some p =>
      if pid = -1 ∨ pid = p.pid then
        if p.loaded then seek s pid rest (childCount + 1) else .inl p
      else seek s pid rest childCount

/-- What a call of `dce_waitpid` comes to. -/
inductive Outcome
  | child (pid : Nat) (status : Option (BitVec 32))
  | zero
  | failed (err : WaitErrno)
  | sleeps
  | done
  deriving DecidableEq, Repr

def WNOHANG : BitVec 32 := 1

def WUNTRACED : BitVec 32 := 2

def WCONTINUED : BitVec 32 := 8

def setWaiter (tid : Nat) (waiter : Option Waiter) (process : Process) : Process :=
  { process with
    threads := process.threads.map fun thread =>
      if thread.tid = tid then { thread with childWaiter := waiter } else thread }

/-- One turn of the loop of `dce_waitpid` in the thread `tid` of `parent`. -/
def waitTurn (parent tid : Nat) (pid : Int) (status hang : Bool) (s : DceManager β) :
    Option (DceManager β × Outcome) := do
  let process ← s.m_processes parent
  match seek s pid process.children.sort 0 with
  | .inl p =>
    let s := s.set parent (some { process with children := process.children.erase p.pid })
    pure (FinishChild p.pid s, .child p.pid (if status then some p.exitValue else none))
  | .inr childCount =>
    if childCount = 0 then pure (s, .failed .ECHILD)
    else if hang then pure (s.set parent (some (setWaiter tid (some ⟨pid, status, false⟩) process)), .sleeps)
    else pure (s, .zero)

def dce_waitpid (parent tid : Nat) (pid : Int) (status : Bool) (options : BitVec 32) (s : DceManager β) :
    Option (DceManager β × Outcome) :=
  if options &&& WUNTRACED ≠ 0 ∨ options &&& WCONTINUED ≠ 0 then pure (s, .failed .EINVAL)
  else if pid = 0 ∨ pid < -1 then pure (s, .failed .EINVAL)
  else waitTurn parent tid pid status (options &&& WNOHANG = 0) s

def dce_wait (parent tid : Nat) (status : Bool) (s : DceManager β) : Option (DceManager β × Outcome) :=
  dce_waitpid parent tid (-1) status 0 s

/-- From the return of the wait on. -/
def resumeWait (parent tid : Nat) (interrupted : Bool) (waiter : Waiter) (s : DceManager β) :
    Option (DceManager β × Outcome) := do
  let process ← s.m_processes parent
  let s := s.set parent (some (setWaiter tid none process))
  if interrupted then pure (s, .failed .EINTR)
  else waitTurn parent tid waiter.pid waiter.status true s

/-- What the threads of the processes do, and the simulation. A thread is named by its process and its `tid`. -/
inductive Label
  | start (name : String) (nodeId : Nat) (uid euid gid egid : UInt32)
  | create (pid : Nat)
  | leave (pid tid : Nat)
  | fork (pid tid : Nat)
  | exit (pid tid : Nat) (status : BitVec 32)
  | stop (pid : Nat)
  | waitpid (caller tid : Nat) (pid : Int) (status : Bool) (options : BitVec 32)
  | wakeup (caller tid : Nat)
  | resume (caller tid : Nat) (interrupted : Bool)
  deriving DecidableEq, Repr

def DceManager.thread (pid tid : Nat) (s : DceManager β) : Option Thread := do
  let process ← s.m_processes pid
  process.threads.find? fun thread => thread.tid = tid

/-- The thread can make a call. -/
def Runs (pid tid : Nat) (s : DceManager β) : Prop := ∃ thread ∈ s.thread pid tid, thread.childWaiter = none

instance (pid tid : Nat) (s : DceManager β) : Decidable (Runs pid tid s) :=
  inferInstanceAs (Decidable (∃ thread ∈ s.thread pid tid, thread.childWaiter = none))

def done (s : DceManager β) : DceManager β × Outcome := (s, .done)

/-- A step with its outcome. -/
def respond (s : DceManager β) : Label → Option (DceManager β × Outcome)
  | .start name nodeId uid euid gid egid => (Start name nodeId uid euid gid egid s).map fun started => done started.2
  | .create pid => do
    let process ← s.m_processes pid
    let more ← CreateThread process
    if process.loaded then pure (done (s.set pid (some more))) else none
  | .leave pid tid => do
    let process ← s.m_processes pid
    if Runs pid tid s ∧ 1 < process.threads.length then pure (done (s.set pid (some (DeleteThread tid process))))
    else none
  | .fork pid tid => if Runs pid tid s then (Clone pid s).map fun forked => done forked.2 else none
  | .exit pid tid status => if Runs pid tid s then (dce_exit pid status s).map done else none
  | .stop pid => (Stop pid s).map done
  | .waitpid caller tid pid status options => if Runs caller tid s then dce_waitpid caller tid pid status options s
      else none
  | .wakeup caller tid => do
    let process ← s.m_processes caller
    let thread ← s.thread caller tid
    let waiter ← thread.childWaiter
    pure (done (s.set caller (some (setWaiter tid (some { waiter with woken := true }) process))))
  | .resume caller tid interrupted => do
    let thread ← s.thread caller tid
    let waiter ← thread.childWaiter
    if waiter.woken then resumeWait caller tid interrupted waiter s else none

/-- At the start there is no process. -/
def machine (β : Type) : Machine (DceManager β) Label where
  init s := s.m_processes = fun _ => none
  step s label := (respond s label).map Prod.fst

theorem step_of_respond {s t : DceManager β} {label : Label} {outcome : Outcome}
    (hrespond : respond s label = some (t, outcome)) : (machine β).step s label = some t :=
  congrArg (Option.map Prod.fst) hrespond

end Dce.Processes
