import Dce.Lib.Coroutine
import Dce.Pipe.FifoBuffer

/- The two ends of a pipe and the descriptors of a process for them, as `pipe-fd.cc`,
`unix-fd.cc`, `file-usage.cc` and `dce-fd.cc` run them. The process has no other files. -/

namespace Dce.Pipe

open Coroutine

def pipeCapacity : Nat := 65536

def maxFds : Nat := 1024

inductive End
  | read | write
  deriving DecidableEq, Repr

def End.other : End → End
  | .read => .write
  | .write => .read

/-- `peer` says whether `m_peer` is set; `alive`, whether the object still exists. -/
structure PipeFd where
  alive : Bool
  peer : Bool
  nonblock : Bool
  fdCount : Nat
  deriving DecidableEq, Repr

/-- `users` are the threads that `m_count` counts. -/
structure FileUsage (T : Type*) where
  fd : Nat
  file : End
  users : List T
  closing : Bool
  deriving DecidableEq, Repr

inductive PollEvent
  | POLLIN | POLLOUT | POLLHUP
  deriving DecidableEq, Repr

structure WaitQueueEntry (T : Type*) where
  thread : T
  eventMask : List PollEvent

/-- `waitQueue` is the list of the read end; on the list of the write end only pollers wait.
`fault` records the use of a null `m_peer` or of an end that is gone; `accepted` and
`delivered` are the bytes that writes and reads have copied, not in the source. -/
structure Process (T β : Type*) where
  ends : End → PipeFd
  buf : FifoBuffer pipeCapacity β
  waitQueue : List (WaitQueueEntry T)
  openFiles : List (FileUsage T)
  threads : List T
  /-- SIGPIPE in the pending set of the process, in its handlers and in the masks. -/
  pending : Bool
  handled : Bool
  masked : T → Bool
  fault : Bool
  accepted : List β
  delivered : List β

inductive Errno
  | EBADF | EPIPE | EAGAIN | EINTR | EMFILE
  deriving DecidableEq, Repr

inductive Result (β : Type*)
  | success
  | count (n : Nat)
  | bytes (data : List β)
  | fd (fd : Nat)
  | failed (err : Errno)
  | crashed
  deriving DecidableEq, Repr

/-- The `Wait` in `DoRecvPacket` and the one in `Read`. -/
inductive Frame (β : Type*)
  | write (fd : Nat) (buf : List β)
  | read (fd count : Nat)
  deriving DecidableEq, Repr

inductive Op (β : Type*)
  | write (fd : Nat) (buf : List β)
  | read (fd count : Nat)
  | close (fd : Nat)
  | dup (fd : Nat)
  | setfl (fd : Nat) (nonblock : Bool)
  deriving DecidableEq, Repr

abbrev W (T β : Type*) := World T (Frame β) (Result β) (Process T β)

def writerMask : List PollEvent := [.POLLOUT, .POLLHUP]

def readerMask : List PollEvent := [.POLLIN, .POLLHUP]

section

variable {T β : Type*}

def setPipe (p : Process T β) (w : W T β) : W T β := { w with shared := p }

section

variable (p : Process T β) (w : W T β)

@[simp] theorem setPipe_shared : (setPipe p w).shared = p := rfl
@[simp] theorem setPipe_status : (setPipe p w).status = w.status := rfl
@[simp] theorem setPipe_place : (setPipe p w).place = w.place := rfl
@[simp] theorem setPipe_current : (setPipe p w).current = w.current := rfl

end

def findFd (fd : Nat) (p : Process T β) : Option (FileUsage T) := p.openFiles.find? fun fu => fu.fd = fd

def setEnd (e : End) (pipe : PipeFd) (p : Process T β) : Process T β :=
  { p with ends := Function.update p.ends e pipe }

/-- A change of the entry of `fd`. -/
def mapFd (fd : Nat) (f : FileUsage T → FileUsage T) (p : Process T β) : Process T β :=
  { p with openFiles := p.openFiles.map fun fu => if fu.fd = fd then f fu else fu }

/-- `delete fu`: the last one of an end destroys it. -/
def dropFile (fu : FileUsage T) (p : Process T β) : Process T β :=
  let pipe := p.ends fu.file
  setEnd fu.file { pipe with fdCount := pipe.fdCount - 1, alive := decide (pipe.fdCount - 1 ≠ 0) }
    { p with openFiles := p.openFiles.filter fun other => other.fd ≠ fu.fd }

def addWaitQueue (t : T) (mask : List PollEvent) (p : Process T β) : Process T β :=
  { p with waitQueue := p.waitQueue ++ [⟨t, mask⟩] }

/-- `UtilsAllocateFd` -/
def allocateFd (p : Process T β) : Option Nat :=
  (List.range maxFds).find? fun fd => p.openFiles.all fun fu => fu.fd ≠ fd

/-- `UtilsDoSignal` for SIGPIPE: a handler that may run takes the signal. -/
def doSignal (t : T) (p : Process T β) : Process T β :=
  if p.handled ∧ ¬ p.masked t then { p with pending := false } else p

end

variable {T β : Type*} [DecidableEq T]

/-- The threads that `WakeWaiters (&event)` of the read end wakes. -/
def waiters (event : PollEvent) (p : Process T β) : List T :=
  (p.waitQueue.filter fun entry => event ∈ entry.eventMask).map WaitQueueEntry.thread

def wakeWaiters (event : PollEvent) (w : W T β) : W T β := w.wakeAll (waiters event w.shared)

def removeWaitQueue (t : T) (p : Process T β) : Process T β :=
  { p with waitQueue := p.waitQueue.filter fun entry => entry.thread ≠ t }

/-- A thread stops using `fd`; a descriptor that is closing goes with its last user. -/
def decUsage (t : T) (fd : Nat) (p : Process T β) : Process T β :=
  match findFd fd p with
  | none => p
  | some fu =>
    let fu := { fu with users := fu.users.erase t }
    if fu.users = [] ∧ fu.closing then dropFile fu p else mapFd fd (fun _ => fu) p

/-- The call on `fd` returns. -/
def finish (t : T) (fd : Nat) (r : Result β) (w : W T β) : W T β :=
  (setPipe (decUsage t fd w.shared) w).ret t r

def crash (t : T) (w : W T β) : W T β := (setPipe { w.shared with fault := true } w).ret t .crashed

/-- `UtilsSendSignal`: the first blocked thread that does not mask the signal wakes. -/
def sendSignal (w : W T β) : W T β :=
  let w := setPipe { w.shared with pending := true } w
  match w.shared.threads.find? fun t => w.shared.masked t = false ∧ w.status t = .blocked with
  | none => w
  | some t => w.wake t

/-- The loop of `DoRecvPacket`, up to its `Wait`; the read end exists. -/
def doRecvPacket (t : T) (fd : Nat) (buf : List β) (w : W T β) : W T β :=
  let p := w.shared
  let (fifo, r) := p.buf.write buf
  if 0 < r then
    finish t fd (.count r) (wakeWaiters .POLLIN
      (setPipe { p with buf := fifo, accepted := p.accepted ++ buf.take r } w))
  else if ¬ (p.ends .read).peer ∨ ¬ (p.ends .write).alive then crash t w
  else if (p.ends .write).nonblock then finish t fd (.failed .EAGAIN) w
  else (setPipe (addWaitQueue t writerMask p) w).sleep t (.write fd buf)

/-- `PipeFd::Write` -/
def pipeWrite (t : T) (fd : Nat) (e : End) (buf : List β) (w : W T β) : W T β :=
  let p := w.shared
  if (p.ends e).peer then
    match e with
    | .read => finish t fd (.failed .EBADF) w
    | .write => if (p.ends .read).alive then doRecvPacket t fd buf w else crash t w
  else
    let w := sendSignal w
    finish t fd (.failed .EPIPE) (setPipe (doSignal t w.shared) w)

/-- The loop of `PipeFd::Read`, up to its `Wait`. -/
def readLoop (t : T) (fd count : Nat) (w : W T β) : W T β :=
  let p := w.shared
  let (fifo, data) := p.buf.read count
  if 0 < data.length then
    if (p.ends .read).peer ∧ ¬ (p.ends .write).alive then crash t w
    else
      finish t fd (.bytes data) (wakeWaiters .POLLOUT
        (setPipe { p with buf := fifo, delivered := p.delivered ++ data } w))
  else if ¬ (p.ends .read).peer then finish t fd (.failed .EPIPE) w
  else if (p.ends .read).nonblock then finish t fd (.failed .EAGAIN) w
  else (setPipe (addWaitQueue t readerMask p) w).sleep t (.read fd count)

/-- `PipeFd::Read` -/
def pipeRead (t : T) (fd : Nat) (e : End) (count : Nat) (w : W T β) : W T β :=
  match e with
  | .write => finish t fd (.failed .EBADF) w
  | .read => readLoop t fd count w

def openedFdMethod (t : T) (fd : Nat) (method : End → W T β → W T β) (w : W T β) : W T β :=
  match findFd fd w.shared with
  | none => w.ret t (.failed .EBADF)
  | some fu =>
    if fu.closing then w.ret t (.failed .EBADF)
    else method fu.file (setPipe (mapFd fd (fun fu => { fu with users := t :: fu.users }) w.shared) w)

/-- `PipeFd::Close` of the end `e`; the `p->Close ()` in it comes back to `e` in vain. -/
def pipeClose (e : End) (w : W T β) : W T β × Result β :=
  let p := w.shared
  if (p.ends e).peer then
    let p := setEnd e { p.ends e with peer := false } p
    if (p.ends e.other).alive then
      let hangup := e = .read ∨ (p.ends e.other).peer
      let w := setPipe (setEnd e.other { p.ends e.other with peer := false } p) w
      (if hangup then wakeWaiters .POLLHUP w else w, .success)
    else (setPipe { p with fault := true } w, .crashed)
  else (w, .failed .EBADF)

/-- The end is closed with its last descriptor. -/
def closeLast (e : End) (w : W T β) : W T β × Result β :=
  if (w.shared.ends e).fdCount = 1 then pipeClose e w else (w, .success)

/-- A descriptor that a thread is using is closing until that thread is done. -/
def forget (fu : FileUsage T) (p : Process T β) : Process T β :=
  if fu.users = [] then dropFile fu p else mapFd fu.fd (fun fu => { fu with closing := true }) p

def dceClose (t : T) (fd : Nat) (w : W T β) : W T β :=
  match findFd fd w.shared with
  | none => w.ret t (.failed .EBADF)
  | some fu =>
    let closed := closeLast fu.file w
    (setPipe (forget fu closed.1.shared) closed.1).ret t closed.2

def dceDup (t : T) (oldfd : Nat) (w : W T β) : W T β :=
  match findFd oldfd w.shared with
  | none => w.ret t (.failed .EBADF)
  | some fu =>
    if fu.closing then w.ret t (.failed .EBADF)
    else
      match allocateFd w.shared with
      | none => w.ret t (.failed .EMFILE)
      | some fd =>
        let p := w.shared
        let pipe := p.ends fu.file
        let p := setEnd fu.file { pipe with fdCount := pipe.fdCount + 1 }
          { p with openFiles := p.openFiles ++ [⟨fd, fu.file, [], false⟩] }
        (setPipe p w).ret t (.fd fd)

/-- `Fcntl (F_SETFL)` -/
def setStatusFlags (t : T) (fd : Nat) (nonblock : Bool) (e : End) (w : W T β) : W T β :=
  finish t fd .success (setPipe (setEnd e { w.shared.ends e with nonblock := nonblock } w.shared) w)

def eatSignal (t : T) (w : W T β) : W T β := setPipe (doSignal t w.shared) w

/-- What follows the `Wait` of a frame, for a write on the read end. -/
def afterWait (t : T) (frame : Frame β) (w : W T β) : W T β :=
  let w := setPipe (removeWaitQueue t w.shared) w
  match frame with
  | .write fd buf =>
    if w.shared.pending then finish t fd (.failed .EINTR) (eatSignal t w) else doRecvPacket t fd buf w
  | .read fd count =>
    if w.shared.pending then finish t fd (.failed .EINTR) (eatSignal t w) else readLoop t fd count w

/-- Control is back with a thread: it runs its signal handlers and goes on. -/
def resume (t : T) (frame : Frame β) (_ : Unit) (w : W T β) : W T β :=
  let w := eatSignal t w
  if (w.shared.ends .read).alive then afterWait t frame w else crash t w

def enter (t : T) (op : Op β) (w : W T β) : W T β :=
  match op with
  | .write fd buf => openedFdMethod t fd (fun e => pipeWrite t fd e buf) w
  | .read fd count => openedFdMethod t fd (fun e => pipeRead t fd e count) w
  | .close fd => dceClose t fd w
  | .dup fd => dceDup t fd w
  | .setfl fd nonblock => openedFdMethod t fd (setStatusFlags t fd nonblock) w

/-- What `dce_pipe` makes; which threads there are and what they do about SIGPIPE is free. -/
structure Process.Fresh (p : Process T β) : Prop where
  ends : ∀ e, p.ends e = ⟨true, true, false, 1⟩
  buf : p.buf = FifoBuffer.new pipeCapacity β
  waitQueue : p.waitQueue = []
  openFiles : ∃ fdRead fdWrite, fdRead ≠ fdWrite ∧
    p.openFiles = [⟨fdRead, .read, [], false⟩, ⟨fdWrite, .write, [], false⟩]
  pending : p.pending = false
  fault : p.fault = false
  accepted : p.accepted = []
  delivered : p.delivered = []

def program (T β : Type*) [DecidableEq T] : Program T (Frame β) (Result β) (Process T β) (Op β) Unit where
  start := Process.Fresh
  enter := enter
  resume := resume

def machine (T β : Type*) [DecidableEq T] : Machine (W T β) (Act T (Op β) Unit) := (program T β).machine

end Dce.Pipe
