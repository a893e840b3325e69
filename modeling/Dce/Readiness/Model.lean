import Dce.Datagram.Model
import Dce.Pipe.Model

/- Polls of pipes, local sockets and timers, `dce-poll.cc`, and what the other calls on these files do to the threads
that poll. `malloc` does not fail, and a closed object is not freed while a thread or another object has a pointer to
it. Every file has one descriptor, so that a `dce_close` closes the file; a closed descriptor stays in the table
while a thread uses it. -/

namespace Dce.Readiness

open Coroutine Function
open Binder (Path)
open LocalStream (Buffer How maxBuffer readData newLastTime waitResult)
open Pipe (FifoBuffer pipeCapacity)

/-- The bits of a `short`. -/
abbrev Events := BitVec 16

def POLLIN : Events := 0x001
def POLLOUT : Events := 0x004
def POLLERR : Events := 0x008
def POLLHUP : Events := 0x010

/-- `a & b` -/
def Meets (a b : Events) : Prop := a &&& b ≠ 0

instance (a b : Events) : Decidable (Meets a b) := inferInstanceAs (Decidable (a &&& b ≠ 0))

/-- What a poll looks for, whatever it was asked. -/
def pollMask (events : Events) : Events := events ||| POLLERR ||| POLLHUP

/-- `ret |= e`, where the condition holds. -/
def bit (c : Prop) [Decidable c] (e : Events) : Events := if c then e else 0

/-- The two classes of local sockets. -/
inductive Kind
  | stream | datagram
  deriving DecidableEq, Repr

inductive File
  | pipe (n : Nat)
  | socket (k : Kind) (n : Nat)
  | timer (n : Nat)
  deriving DecidableEq, Repr

structure WaitQueueEntry (T : Type*) where
  thread : T
  eventMask : Events
  deriving DecidableEq

/-- The `m_buf` of a write side is not used. -/
structure PipeFd (β : Type*) where
  m_peer : Option Nat
  m_readSide : Bool
  nonblock : Bool
  m_buf : FifoBuffer pipeCapacity β

/-- What stream and datagram sockets have in common. -/
structure LocalSocketFd (β : Type*) where
  m_readBuffer : List (Buffer β)
  m_readBufferSize : Nat
  m_sendTimeout : Nat
  m_recvTimeout : Nat
  m_bindPath : Option Path
  m_shutRead : Bool
  m_shutWrite : Bool
  nonblock : Bool

/-- `m_factory` says whether it is set. -/
structure LocalStreamSocketFd where
  m_state : LocalStream.State
  m_peer : Option Nat
  m_factory : Bool
  m_cnxQueue : List Nat
  deriving DecidableEq, Repr

structure LocalDatagramSocketFd where
  m_state : Datagram.State
  m_peer : Option Nat
  m_myPeers : List Nat
  deriving DecidableEq, Repr

structure UnixTimerFd (T : Type*) where
  m_waiter : Option T
  m_skipped : Nat

inductive Errno
  | EBADF | EPIPE | EAGAIN | EINTR | EINVAL | ENOTCONN | ENOENT | EISCONN | ECONNREFUSED
  | EACCES | EADDRINUSE | EMFILE
  | EOPNOTSUPP | ENOTSOCK
  | host (errno : Nat)
  deriving DecidableEq, Repr

/-- Every file that a program makes is there from the start, with a number below `fresh`, as its constructor leaves
it; the sockets that `Accept` makes get the numbers from `fresh` on. `m_closing` is that of the descriptor of a
file. -/
structure Node (T β : Type*) where
  pipes : Nat → PipeFd β
  sockets : Kind → Nat → LocalSocketFd β
  streams : Nat → LocalStreamSocketFd
  datagrams : Nat → LocalDatagramSocketFd
  timers : Nat → UnixTimerFd T
  m_waitQueueList : File → List (WaitQueueEntry T)
  m_closing : File → Bool
  m_bindByPath : Path → Option (Kind × Nat)
  err : T → Option Errno
  fresh : Nat

/-- There is a descriptor of the file. -/
def Made {T β : Type*} (n : Node T β) : File → Prop
  | .socket _ a => a < n.fresh
  | _ => True

instance {T β : Type*} (n : Node T β) (f : File) : Decidable (Made n f) := by
  unfold Made
  split <;> infer_instance

/-- `CheckFdExists` of a descriptor that is to be open. -/
def Open {T β : Type*} (n : Node T β) (f : File) : Prop := Made n f ∧ n.m_closing f = false

instance {T β : Type*} (n : Node T β) (f : File) : Decidable (Open n f) := inferInstanceAs (Decidable (_ ∧ _))

/-- A poll gives back the `revents` of its array with the count. `crashed` is the use of a null pointer. -/
inductive Result
  | done (value : Int)
  | polled (count : Nat) (revents : List Events)
  | crashed
  deriving DecidableEq, Repr

/-- The calls that wait. `last` is `m_lastTime`, `endtime` the end of a poll, if it has one. -/
inductive Frame (β : Type*)
  | poll (fds : List (File × Events)) (endtime : Option Nat)
  | pipeWrite (f p : Nat) (buf : List β)
  | pipeRead (f count : Nat)
  | write (a tot : Nat) (rest : List β) (last : Option Nat)
  | read (a filled rest : Nat) (last : Option Nat)
  | accept (a : Nat) (last : Option Nat)
  | connect (a l : Nat) (last : Option Nat)
  | send (a l : Nat) (iovs : List (List β)) (retval : Int) (last : Option Nat)
  | recv (a count : Nat) (peek : Bool) (last : Option Nat)
  | readTimer (a count : Nat)
  deriving DecidableEq, Repr

/-- The `Sendmsg` and the `Recvmsg` of a stream are its `Write`s and `Read`s in a row, and the `Recvmsg` of a
datagram socket is its `Read`s. `name` is absent where it is null or too short, `host` says how the host answers to
its own `bind`, `noFd` that there is no free descriptor, and `ok` that the host unlinks the path. `expired` is the
end of a period of a timer: the main loop runs it, which stands there as one more thread. -/
inductive Op (β : Type*)
  | poll (fds : List (File × Events)) (timeout : Int)
  | write (f : File) (buf : List β)
  | read (f : File) (count : Nat)
  | recv (a count : Nat) (noWait peek : Bool)
  | send (a : Nat) (name : Option Path) (iovs : List (List β)) (dontwait : Bool)
  | bind (f : File) (unix : Bool) (path : Path) (host : Option Nat)
  | listen (f : File)
  | connect (f : File) (path : Path)
  | accept (f : File) (noFd : Bool)
  | shutdown (f : File) (how : How)
  | close (f : File)
  | unlink (path : Path) (ok : Bool)
  | setfl (f : File) (nonblock : Bool)
  | setTimeouts (k : Kind) (a send recv : Nat)
  | settime (a : Nat)
  | expired (a : Nat)
  deriving DecidableEq, Repr

/-- `interrupted`: a signal is pending for the process of a thread that has waited. -/
structure Answer where
  interrupted : Bool
  noFd : Bool
  deriving DecidableEq, Repr

abbrev W (T β : Type*) := World T (Frame β) Result (Node T β)

variable {T β : Type*}

def pipePoll (n : Node T β) (a : Nat) : Events :=
  let s := n.pipes a
  bit (s.m_readSide = true ∧ 0 < s.m_buf.contents.length) POLLIN |||
    bit (s.m_readSide = false ∧ s.m_peer.any fun p => (n.pipes p).m_buf.contents.length < pipeCapacity) POLLOUT |||
    bit (s.m_peer = none) POLLHUP

def streamCanRecv (n : Node T β) (a : Nat) : Prop :=
  match (n.streams a).m_state with
  | .CONNECTED | .REMOTECLOSED => 0 < (n.sockets .stream a).m_readBufferSize
  | .LISTENING | .ACCEPTING => 0 < (n.streams a).m_cnxQueue.length
  | _ => False

instance (n : Node T β) (a : Nat) : Decidable (streamCanRecv n a) := by
  unfold streamCanRecv
  split <;> infer_instance

def streamCanSend (n : Node T β) (a : Nat) : Prop :=
  (n.streams a).m_state = .CONNECTED ∧ ((n.streams a).m_peer.any fun p =>
    (n.sockets .stream p).m_readBufferSize < maxBuffer) ∨
    (n.streams a).m_state ≠ .CONNECTED

instance (n : Node T β) (a : Nat) : Decidable (streamCanSend n a) := by
  unfold streamCanSend
  infer_instance

def streamPoll (n : Node T β) (a : Nat) : Events :=
  bit (streamCanRecv n a) POLLIN ||| bit (streamCanSend n a) POLLOUT |||
    bit ((n.streams a).m_state = .CLOSED ∨ (n.streams a).m_state = .REMOTECLOSED) POLLHUP

def datagramCanRecv (n : Node T β) (a : Nat) : Prop :=
  match (n.datagrams a).m_state with
  | .CLOSED | .CREATED => True
  | .BINDED => 0 < (n.sockets .datagram a).m_readBufferSize
  | .REMOTECLOSED | .CONNECTED => False

instance (n : Node T β) (a : Nat) : Decidable (datagramCanRecv n a) := by
  unfold datagramCanRecv
  split <;> infer_instance

def datagramCanSend (n : Node T β) (a : Nat) : Prop :=
  (n.datagrams a).m_state = .CONNECTED ∧
      ((n.datagrams a).m_peer.any fun p => (n.sockets .datagram p).m_readBufferSize < maxBuffer) ∨
    (n.datagrams a).m_state ≠ .CONNECTED

instance (n : Node T β) (a : Nat) : Decidable (datagramCanSend n a) := by
  unfold datagramCanSend
  infer_instance

def datagramPoll (n : Node T β) (a : Nat) : Events :=
  bit (datagramCanRecv n a) POLLIN ||| bit (datagramCanSend n a) POLLOUT |||
    bit ((n.datagrams a).m_state = .REMOTECLOSED) POLLHUP

/-- `Poll (0)`; the `CanRecv`, `CanSend` and `HangupReceived` of a timer are all false. -/
def poll (n : Node T β) : File → Events
  | .pipe a => pipePoll n a
  | .socket .stream a => streamPoll n a
  | .socket .datagram a => datagramPoll n a
  | .timer _ => 0

def setPipe (a : Nat) (s : PipeFd β) (w : W T β) : W T β :=
  { w with shared := { w.shared with pipes := update w.shared.pipes a s } }

def setSocket (k : Kind) (a : Nat) (s : LocalSocketFd β) (w : W T β) : W T β :=
  { w with shared := { w.shared with sockets := update w.shared.sockets k (update (w.shared.sockets k) a s) } }

def setStream (a : Nat) (s : LocalStreamSocketFd) (w : W T β) : W T β :=
  { w with shared := { w.shared with streams := update w.shared.streams a s } }

def setDatagram (a : Nat) (s : LocalDatagramSocketFd) (w : W T β) : W T β :=
  { w with shared := { w.shared with datagrams := update w.shared.datagrams a s } }

def setTimer (a : Nat) (s : UnixTimerFd T) (w : W T β) : W T β :=
  { w with shared := { w.shared with timers := update w.shared.timers a s } }

def setQueue (f : File) (l : List (WaitQueueEntry T)) (w : W T β) : W T β :=
  { w with shared := { w.shared with m_waitQueueList := update w.shared.m_waitQueueList f l } }

def setBinder (path : Path) (l : Option (Kind × Nat)) (w : W T β) : W T β :=
  { w with shared := { w.shared with m_bindByPath := update w.shared.m_bindByPath path l } }

variable [DecidableEq T]

/-- The threads that `WakeWaiters (&key)` wakes. -/
def waiters (key : Events) (f : File) (n : Node T β) : List T :=
  ((n.m_waitQueueList f).filter fun entry => Meets key entry.eventMask).map WaitQueueEntry.thread

def wakeWaiters (key : Events) (f : File) (w : W T β) : W T β := w.wakeAll (waiters key f w.shared)

@[simp] theorem wakeWaiters_shared (key : Events) (f : File) (w : W T β) : (wakeWaiters key f w).shared = w.shared :=
  World.wakeAll_shared ..

def addWaitQueue (t : T) (mask : Events) (f : File) (w : W T β) : W T β :=
  setQueue f (w.shared.m_waitQueueList f ++ [⟨t, mask⟩]) w

def removeWaitQueue (t : T) (f : File) (w : W T β) : W T β :=
  setQueue f ((w.shared.m_waitQueueList f).filter fun entry => entry.thread ≠ t) w

def setErr (t : T) (err : Errno) (w : W T β) : W T β :=
  { w with shared := { w.shared with err := update w.shared.err t (some err) } }

/-- A call that fails with `err`. -/
def fails (t : T) (err : Errno) (w : W T β) : W T β := (setErr t err w).ret t (.done (-1))

/-- `AddWaitQueue` and the sleep of a `Wait`. -/
def sleepOn (t : T) (f : File) (mask : Events) (frame : Frame β) (last : Option Nat) (w : W T β) : W T β :=
  let w := addWaitQueue t mask f w
  match last with
  | some last => w.sleepUntil t frame last
  | none => w.sleep t frame

def writerMask : Events := POLLOUT ||| POLLHUP

def readerMask : Events := POLLIN ||| POLLHUP

/-- One round over the array, with the `revents`; `table` says whether the files are registered with, which ends at
the first one that is ready. What has no open descriptor is passed over. -/
def pollRound (t : T) : Bool → List (File × Events) → W T β → W T β × List Events
  | _, [], w => (w, [])
  | table, (f, events) :: fds, w =>
    if Open w.shared f then
      let w := if table then addWaitQueue t (pollMask events) f w else w
      let mask := poll w.shared f &&& pollMask events
      let rest := pollRound t (table && mask = 0) fds w
      (rest.1, mask :: rest.2)
    else
      let rest := pollRound t table fds w
      (rest.1, 0 :: rest.2)

/-- `FreeWait` of the table. -/
def freeWait (t : T) (fds : List (File × Events)) (w : W T β) : W T β :=
  fds.foldl (fun w x => removeWaitQueue t x.1 w) w

/-- The return of a poll. -/
def pollReturn (t : T) (fds : List (File × Events)) (revents : List Events) (w : W T β) : W T β :=
  (freeWait t fds w).ret t (.polled (revents.countP (· ≠ 0)) revents)

/-- What follows a round: the poll returns, or it waits for the end of its time. -/
def afterRound (t : T) (fds : List (File × Events)) (endtime : Option Nat) (round : W T β × List Events) : W T β :=
  if 0 < round.2.countP (· ≠ 0) then pollReturn t fds round.2 round.1
  else
    match endtime with
    | none => round.1.sleep t (.poll fds none)
    | some e =>
      if round.1.now < e then round.1.sleepUntil t (.poll fds (some e)) e else pollReturn t fds round.2 round.1

/-- `dce_poll`, with the time limit in the units of the clock. -/
def dcePoll (t : T) (fds : List (File × Events)) (timeout : Int) (w : W T β) : W T β :=
  if timeout = 0 then
    let round := pollRound t false fds w
    pollReturn t fds round.2 round.1
  else afterRound t fds (if timeout < 0 then none else some (w.now + timeout.toNat)) (pollRound t true fds w)

/-- What follows the `Wait` of a poll, whatever it says. -/
def pollOn (t : T) (fds : List (File × Events)) (endtime : Option Nat) (w : W T β) : W T β :=
  afterRound t fds endtime (pollRound t false fds w)

end Dce.Readiness
