import Dce.Binder.Model

/- The local datagram sockets of one factory, `local-datagram-socket-fd.cc`, with the receive queue
that they share with the stream sockets. `malloc` does not fail. -/

namespace Dce.Datagram

open Coroutine Function
open Binder (Path)
open LocalStream
    (Buffer PollEvent WaitQueueEntry How maxBuffer readData readerMask writerMask newLastTime waitResult)

inductive State
  | CREATED | BINDED | CONNECTED | REMOTECLOSED | CLOSED
  deriving DecidableEq, Repr

/-- `m_state >= REMOTECLOSED` -/
def State.IsClosed (s : State) : Bool := s = .REMOTECLOSED ∨ s = .CLOSED

/-- A call that was given the bytes of a queue: what it asked for, returned and copied. -/
structure Receipt (β : Type*) where
  peek : Bool
  asked : Nat
  value : Int
  bytes : List β
  deriving DecidableEq, Repr

/-- `m_myPeers` is a `std::set`, in the order of the insertions. The last fields are not in the
source: the buffers that went into the queue, the calls that were given bytes of it, and whether
the socket has ever been closed. -/
structure SocketFd (T β : Type*) where
  m_state : State
  m_peer : Option Nat
  m_myPeers : List Nat
  m_bindPath : Option Path
  m_readBuffer : List (Buffer β)
  m_readBufferSize : Nat
  m_sendTimeout : Nat
  m_recvTimeout : Nat
  m_shutRead : Bool
  m_shutWrite : Bool
  nonblock : Bool
  waitQueue : List (WaitQueueEntry T)
  sent : List (List β)
  receipts : List (Receipt β)
  closed : Bool

/-- `host` is an error of the host's own `bind`. -/
inductive Errno
  | ENOTCONN | EPIPE | EAGAIN | EINTR | EINVAL | EISCONN | ECONNREFUSED | EACCES | EADDRINUSE
  | host (errno : Nat)
  deriving DecidableEq, Repr

/-- Every socket there will be is there from the start, as its constructor leaves it. `err` is the
`errno` of each thread. Not in the source: `put` holds what the present call of a thread has put into
a queue, and `got` what it has copied out, once `ReadData` has been called. -/
structure Node (T β : Type*) where
  sockets : Nat → SocketFd T β
  m_bindByPath : Path → Option Nat
  err : T → Option Errno
  put : T → List (List β)
  got : T → Option (List β)

/-- What a call returned; a send with its message and what it put into the queue, a `Recvmsg` with
`MSG_TRUNC`. -/
inductive Result (β : Type*)
  | done (value : Int)
  | sent (message : List β) (value : Int) (put : List (List β))
  | received (value : Int) (truncated : Bool)
  deriving DecidableEq, Repr

/-- The `Wait` in `Sendmsg`, before the first of `iovs`, and the one in `Read`, with the loop of
`Recvmsg` around it or without. `last` is `m_lastTime`. Not in the source: `message`, `asked`, and
`full`, which says that the queue of `l` was full when `DoRecvPacket` returned 0. -/
inductive Frame (β : Type*)
  | send (a l : Nat) (iovs : List (List β)) (retval : Int) (last : Option Nat) (message : List β) (full : Bool)
  | read (a count : Nat) (last : Option Nat)
  | recvmsg (a len : Nat) (last : Option Nat) (peek : Bool) (asked : Nat) (lens : List Nat)
  deriving DecidableEq, Repr

/-- `release` is the destructor. `name` is absent where it is null or too short, `host` says how the
host answers to its own `bind`, and `ok` whether it unlinks the path. -/
inductive Op (β : Type*)
  | bind (a : Nat) (unix : Bool) (path : Path) (host : Option Nat)
  | connect (a : Nat) (path : Path)
  | write (a : Nat) (buf : List β)
  | sendmsg (a : Nat) (name : Option Path) (iovs : List (List β)) (dontwait : Bool)
  | read (a count : Nat)
  | recvmsg (a : Nat) (lens : List Nat) (dontwait peek : Bool)
  | shutdown (a : Nat) (how : How)
  | close (a : Nat)
  | release (a : Nat)
  | unlink (path : Path) (ok : Bool)
  | setfl (a : Nat) (nonblock : Bool)
  | setTimeouts (a send recv : Nat)
  deriving DecidableEq, Repr

abbrev W (T β : Type*) := World T (Frame β) (Result β) (Node T β)

section

variable {T β : Type*}

def socket (a : Nat) (w : W T β) : SocketFd T β := w.shared.sockets a

def setSocket (a : Nat) (s : SocketFd T β) (w : W T β) : W T β :=
  { w with shared := { w.shared with sockets := update w.shared.sockets a s } }

def setBinder (path : Path) (l : Option Nat) (w : W T β) : W T β :=
  { w with shared := { w.shared with m_bindByPath := update w.shared.m_bindByPath path l } }

/-- `ReadData` with `peek`: it goes over the whole queue. -/
def peekData : List (Buffer β) → Nat → List β
  | [], _ => []
  | myBuf :: m_readBuffer, rest =>
    if rest = 0 then []
    else
      let avail := min rest (myBuf.data.length - myBuf.readOffset)
      (myBuf.data.drop myBuf.readOffset).take avail ++ peekData m_readBuffer (rest - avail)

end

variable {T β : Type*} [DecidableEq T]

/-- The threads that `WakeWaiters (&event)` wakes. -/
def waiters (event : PollEvent) (s : SocketFd T β) : List T :=
  (s.waitQueue.filter fun entry => event ∈ entry.eventMask).map WaitQueueEntry.thread

def wakeWaiters (event : PollEvent) (a : Nat) (w : W T β) : W T β := w.wakeAll (waiters event (socket a w))

def addWaitQueue (t : T) (mask : List PollEvent) (a : Nat) (w : W T β) : W T β :=
  setSocket a { socket a w with waitQueue := (socket a w).waitQueue ++ [⟨t, mask⟩] } w

def removeWaitQueue (t : T) (a : Nat) (w : W T β) : W T β :=
  setSocket a { socket a w with waitQueue := (socket a w).waitQueue.filter fun entry => entry.thread ≠ t } w

def setErr (t : T) (err : Errno) (w : W T β) : W T β :=
  { w with shared := { w.shared with err := update w.shared.err t (some err) } }

def addPut (t : T) (data : List β) (w : W T β) : W T β :=
  { w with shared := { w.shared with put := update w.shared.put t (w.shared.put t ++ [data]) } }

def addGot (t : T) (data : List β) (w : W T β) : W T β :=
  { w with shared := { w.shared with got := update w.shared.got t (some ((w.shared.got t).getD [] ++ data)) } }

def clearMoved (t : T) (w : W T β) : W T β :=
  { w with shared := { w.shared with put := update w.shared.put t [], got := update w.shared.got t none } }

/-- A call that fails with `err`. -/
def fails (t : T) (err : Errno) (w : W T β) : W T β := (setErr t err w).ret t (.done (-1))

/-- `AddWaitQueue` and the sleep of a `Wait`. -/
def sleepOn (t : T) (a : Nat) (mask : List PollEvent) (frame : Frame β) (last : Option Nat) (w : W T β) : W T β :=
  let w := addWaitQueue t mask a w
  match last with
  | some last => w.sleepUntil t frame last
  | none => w.sleep t frame

/-- `DoRecvPacket` of the socket `l`, called by `t`. -/
def doRecvPacket (t : T) (l : Nat) (buf : List β) (w : W T β) : W T β × Int :=
  let s := socket l w
  if s.m_shutRead ∨ s.m_state.IsClosed then (w, -2)
  else if maxBuffer ≤ s.m_readBufferSize then (w, 0)
  else
    let maxi := maxBuffer - s.m_readBufferSize
    let n := min maxi buf.length
    let s := { s with
      m_readBuffer := s.m_readBuffer ++ [⟨buf.take n, 0⟩]
      m_readBufferSize := s.m_readBufferSize + n
      sent := s.sent ++ [buf.take n] }
    (wakeWaiters .POLLIN l (addPut t (buf.take n) (setSocket l s w)), n)

def sendReturn (t : T) (message : List β) (value : Int) (w : W T β) : W T β :=
  w.ret t (.sent message value (w.shared.put t))

def sendFails (t : T) (message : List β) (err : Errno) (w : W T β) : W T β :=
  sendReturn t message (-1) (setErr t err w)

/-- `Write`, with `Write2Peer`. -/
def write (t : T) (a : Nat) (buf : List β) (w : W T β) : W T β :=
  let s := socket a w
  if s.m_state ≠ .CONNECTED then sendFails t buf (if s.m_state = .REMOTECLOSED then .ECONNREFUSED else .ENOTCONN) w
  else
    match s.m_peer with
    | none => sendFails t buf .EPIPE w
    | some peer =>
      if (socket peer w).m_state ≠ .BINDED then sendFails t buf .EPIPE w
      else
        let received := doRecvPacket t peer buf w
        if received.2 = -2 then sendFails t buf .EPIPE received.1 else sendReturn t buf received.2 received.1

/-- The `Wait` of `Sendmsg`, which is over at once where its time is. -/
def sendWait (t : T) (a l : Nat) (message : List β) (iovs : List (List β)) (retval : Int) (last : Option Nat)
    (w : W T β) : W T β :=
  let full := decide (maxBuffer ≤ (socket l w).m_readBufferSize)
  if last.any fun last => last ≤ w.now then sendFails t message .EAGAIN w
  else sleepOn t a writerMask (.send a l iovs retval last message full) last w

/-- The loop of `Sendmsg` to `l`, up to its `Wait`. -/
def sendLoop (t : T) (a l : Nat) (dontwait : Bool) (message : List β) :
    List (List β) → Int → Option (Option Nat) → W T β → W T β
  | [], retval, _, w => sendReturn t message retval w
  | buf :: iovs, retval, wq, w =>
    if (socket a w).m_state.IsClosed then sendLoop t a l dontwait message iovs retval wq w
    else
      let received := doRecvPacket t l buf w
      let w := received.1
      if received.2 = 0 then
        if dontwait then sendFails t message .EAGAIN w
        else sendWait t a l message (buf :: iovs) retval (wq.getD (newLastTime (socket a w).m_sendTimeout w.now)) w
      else if 0 < received.2 then sendLoop t a l dontwait message iovs (retval + received.2) wq w
      else sendFails t message .ECONNREFUSED w

/-- What follows the `Wait` of `Sendmsg`. -/
def sendOn (t : T) (a l : Nat) (iovs : List (List β)) (retval : Int) (last : Option Nat) (message : List β)
    (interrupted : Bool) (w : W T β) : W T β :=
  let w := removeWaitQueue t a w
  match waitResult interrupted last w.now with
  | .OK =>
    if (socket a w).m_state.IsClosed then sendFails t message .ECONNREFUSED w
    else sendLoop t a l false message iovs retval (some last) w
  | .INTERRUPTED => sendFails t message .EINTR w
  | .TIMEOUT => sendFails t message .EAGAIN w

/-- `Sendmsg` finds out who listens. -/
def sendTo (t : T) (a : Nat) (iovs : List (List β)) (dontwait : Bool) (listener : Option Nat) (w : W T β) : W T β :=
  match listener with
  | none => sendFails t iovs.flatten .EACCES w
  | some l => sendLoop t a l dontwait iovs.flatten iovs 0 none w

def sendmsg (t : T) (a : Nat) (name : Option Path) (iovs : List (List β)) (dontwait : Bool) (w : W T β) : W T β :=
  match (socket a w).m_state with
  | .CONNECTED => sendTo t a iovs dontwait (socket a w).m_peer w
  | .CREATED =>
    match name with
    | none => sendFails t iovs.flatten .EINVAL w
    | some path => sendTo t a iovs dontwait (w.shared.m_bindByPath path) w
  | .REMOTECLOSED => sendFails t iovs.flatten .ECONNREFUSED w
  | _ => sendFails t iovs.flatten .ENOTCONN w

/-- `ReadData` of the socket `a`, called by `t`. -/
def takeData (t : T) (a count : Nat) (peek : Bool) (w : W T β) : W T β × List β :=
  let s := socket a w
  if peek then
    let data := peekData s.m_readBuffer count
    (addGot t data w, data)
  else
    let (m_readBuffer, data) := readData s.m_readBuffer count
    let s := { s with m_readBuffer := m_readBuffer, m_readBufferSize := s.m_readBufferSize - data.length }
    (addGot t data (setSocket a s w), data)

/-- A `Read` returns a count, or -1, or goes into its `Wait`. -/
inductive Outcome
  | returned (n : Nat)
  | failed (err : Errno)
  | waits (last : Option Nat)
  deriving DecidableEq, Repr

/-- `Read`, up to its `Wait`. -/
def read (t : T) (a count : Nat) (noWait peek : Bool) (wq : Option (Option Nat)) (w : W T β) : W T β × Outcome :=
  let s := socket a w
  if s.m_state ≠ .BINDED then (w, .failed .ENOTCONN)
  else if 0 < s.m_readBuffer.length then
    let taken := takeData t a count peek w
    match s.m_peer with
    | some peer => (if 0 < taken.2.length then wakeWaiters .POLLOUT peer taken.1 else taken.1,
        .returned taken.2.length)
    | none => (taken.1, .returned taken.2.length)
  else if noWait ∨ s.m_shutRead then (w, .returned 0)
  else if s.nonblock then (w, .failed .EAGAIN)
  else
    let last := wq.getD (newLastTime s.m_recvTimeout w.now)
    if last.any fun last => last ≤ w.now then (w, .failed .EAGAIN) else (w, .waits last)

/-- What follows the `Wait` of `Read`, where `noWait` was not set. -/
def readOn (t : T) (a count : Nat) (last : Option Nat) (peek interrupted : Bool) (w : W T β) : W T β × Outcome :=
  let w := removeWaitQueue t a w
  match waitResult interrupted last w.now with
  | .OK => read t a count false peek (some last) w
  | .INTERRUPTED =>
    if 0 = (socket a w).m_readBuffer.length then (w, .failed .EINTR) else read t a count false peek (some last) w
  | .TIMEOUT =>
    if 0 = (socket a w).m_readBuffer.length then (w, .failed .EAGAIN) else read t a count false peek (some last) w

/-- A call that returns no error has been served if it has called `ReadData`. -/
def recvReturn (t : T) (a : Nat) (peek : Bool) (asked : Nat) (value : Int) (truncated : Bool) (w : W T β) : W T β :=
  let s := socket a w
  let served := (((w.shared.got t).filter fun _ => 0 ≤ value).map (Receipt.mk peek asked value)).toList
  (setSocket a { s with receipts := s.receipts ++ served } w).ret t (.received value truncated)

/-- A `Read` by itself. -/
def afterRead (t : T) (a count : Nat) (got : W T β × Outcome) : W T β :=
  match got.2 with
  | .returned n => recvReturn t a false count n false got.1
  | .failed err => recvReturn t a false count (-1) false (setErr t err got.1)
  | .waits last => sleepOn t a readerMask (.read a count last) last got.1

/-- The end of `Recvmsg`. -/
def recvmsgEnd (t : T) (a : Nat) (dontwait peek : Bool) (asked retval : Nat) (w : W T β) : W T β :=
  if 0 < retval then
    let size := (socket a w).m_readBufferSize
    recvReturn t a peek asked retval (if peek then retval < size else 0 < size) w
  else recvReturn t a peek asked (-1) false (if dontwait then setErr t .EAGAIN w else w)

/-- What `Recvmsg` does with the return of a `Read`; `next` is the rest of the loop. The `Read` waits only
where `retval` is 0 and `dontwait` is not set. -/
def afterRecv (t : T) (a len : Nat) (dontwait peek : Bool) (asked retval : Nat) (lens : List Nat)
    (next : Nat → W T β → W T β) (got : W T β × Outcome) : W T β :=
  match got.2 with
  | .returned n => if n = 0 then recvmsgEnd t a dontwait peek asked retval got.1 else next (retval + n) got.1
  | .failed err => recvmsgEnd t a dontwait peek asked retval (setErr t err got.1)
  | .waits last => sleepOn t a readerMask (.recvmsg a len last peek asked lens) last got.1

/-- The loop of `Recvmsg`. -/
def recvmsgLoop (t : T) (a : Nat) (dontwait peek : Bool) (asked : Nat) : List Nat → Nat → W T β → W T β
  | [], retval, w => recvmsgEnd t a dontwait peek asked retval w
  | len :: lens, retval, w =>
    afterRecv t a len dontwait peek asked retval lens (recvmsgLoop t a dontwait peek asked lens)
      (read t a len (0 < retval ∨ dontwait) peek none w)

def recvmsg (t : T) (a : Nat) (lens : List Nat) (dontwait peek : Bool) (w : W T β) : W T β :=
  if (socket a w).m_state = .CONNECTED then recvReturn t a peek lens.sum (-1) false (setErr t .ENOTCONN w)
  else recvmsgLoop t a dontwait peek lens.sum lens 0 w

def bind (t : T) (a : Nat) (unix : Bool) (path : Path) (host : Option Nat) (w : W T β) : W T β :=
  let s := socket a w
  if unix = false then fails t .EINVAL w
  else if s.m_state ≠ .CREATED then w.ret t (.done (-1))
  else
    match host with
    | none => (setBinder path (some a) (setSocket a { s with m_state := .BINDED, m_bindPath := some path } w)).ret t
        (.done 0)
    | some errno => fails t (.host errno) w

/-- `AddConnected` of the socket `l`: `std::set::insert`. -/
def addConnected (l a : Nat) (w : W T β) : W T β :=
  let s := socket l w
  setSocket l { s with m_myPeers := if a ∈ s.m_myPeers then s.m_myPeers else s.m_myPeers ++ [a] } w

def connect (t : T) (a : Nat) (path : Path) (w : W T β) : W T β :=
  let s := socket a w
  match s.m_state with
  | .BINDED => fails t .EADDRINUSE w
  | .CONNECTED => fails t .EISCONN w
  | _ =>
    match w.shared.m_bindByPath path with
    | some l =>
      if (socket l w).m_state ≠ .BINDED then fails t .ECONNREFUSED w
      else (addConnected l a (setSocket a { s with m_state := .CONNECTED, m_peer := some l } w)).ret t (.done 0)
    | none => fails t .ECONNREFUSED w

def shutdown (t : T) (a : Nat) (how : How) (w : W T β) : W T β :=
  let s := socket a w
  if s.m_state = .CLOSED then fails t .EPIPE w
  else
    match how with
    | .SHUT_RD => (setSocket a { s with m_shutRead := true } w).ret t (.done 0)
    | .SHUT_WR => (setSocket a { s with m_shutWrite := true } w).ret t (.done 0)
    | .SHUT_RDWR => (setSocket a { s with m_shutWrite := true, m_shutRead := true } w).ret t (.done 0)

def hangUp (andWakeUp : Bool) (a : Nat) (w : W T β) : W T β := if andWakeUp then wakeWaiters .POLLHUP a w else w

/-- `RemoveConnected` of the socket `p` -/
def removeConnected (freeOne : Nat) (andWakeUp : Bool) (p : Nat) (w : W T β) : W T β :=
  let s := socket p w
  match s.m_state with
  | .BINDED => hangUp andWakeUp p (setSocket p { s with m_myPeers := s.m_myPeers.erase freeOne } w)
  | .CONNECTED => hangUp andWakeUp p (setSocket p { s with m_peer := none, m_state := .REMOTECLOSED } w)
  | _ => w

/-- What `ClearAll` does for `m_peer`, and what it does for the `m_myPeers`. -/
def clearPeer (a : Nat) (andWakeUp : Bool) (w : W T β) : W T β :=
  match (socket a w).m_peer with
  | some freeOne => removeConnected a andWakeUp freeOne (setSocket a { socket a w with m_peer := none } w)
  | none => w

def clearMyPeers (a : Nat) (andWakeUp : Bool) (w : W T β) : W T β :=
  let toFree := (socket a w).m_myPeers
  toFree.foldl (fun w i => removeConnected a andWakeUp i w) (setSocket a { socket a w with m_myPeers := [] } w)

def unregister (a : Nat) (w : W T β) : W T β :=
  match (socket a w).m_bindPath with
  | some path => setSocket a { socket a w with m_bindPath := none } (setBinder path none w)
  | none => w

def clearAll (a : Nat) (andWakeUp : Bool) (w : W T β) : W T β :=
  let w := setSocket a { socket a w with m_state := .CLOSED, closed := true } w
  let w := unregister a (clearMyPeers a andWakeUp (clearPeer a andWakeUp w))
  hangUp andWakeUp a (setSocket a { socket a w with m_readBuffer := [], m_readBufferSize := 0 } w)

def close (t : T) (a : Nat) (w : W T β) : W T β :=
  let s := socket a w
  (clearAll a (s.m_state = .CONNECTED ∨ s.m_state = .BINDED) w).ret t (.done 0)

def release (t : T) (a : Nat) (w : W T β) : W T β := (clearAll a false w).ret t (.done 0)

/-- `dce_unlink`, with `UnlinkNotify` where the host has unlinked the path. -/
def unlink (t : T) (path : Path) (ok : Bool) (w : W T β) : W T β :=
  if ok then (setBinder path none w).ret t (.done 0) else w.ret t (.done (-1))

/-- `Fcntl (F_SETFL)` -/
def setStatusFlags (t : T) (a : Nat) (nonblock : Bool) (w : W T β) : W T β :=
  (setSocket a { socket a w with nonblock := nonblock } w).ret t (.done 0)

/-- `Setsockopt` of `SO_SNDTIMEO` and `SO_RCVTIMEO` -/
def setTimeouts (t : T) (a send recv : Nat) (w : W T β) : W T β :=
  (setSocket a { socket a w with m_sendTimeout := send, m_recvTimeout := recv } w).ret t (.done 0)

def enter (t : T) (op : Op β) (w : W T β) : W T β :=
  let w := clearMoved t w
  match op with
  | .bind a unix path host => bind t a unix path host w
  | .connect a path => connect t a path w
  | .write a buf => write t a buf w
  | .sendmsg a name iovs dontwait => sendmsg t a name iovs dontwait w
  | .read a count => afterRead t a count (read t a count false false none w)
  | .recvmsg a lens dontwait peek => recvmsg t a lens dontwait peek w
  | .shutdown a how => shutdown t a how w
  | .close a => close t a w
  | .release a => release t a w
  | .unlink path ok => unlink t path ok w
  | .setfl a nonblock => setStatusFlags t a nonblock w
  | .setTimeouts a send recv => setTimeouts t a send recv w

/-- Control is back with a thread in its wait; `interrupted` says whether a signal is pending for its
process then. -/
def resume (t : T) (frame : Frame β) (interrupted : Bool) (w : W T β) : W T β :=
  match frame with
  | .send a l iovs retval last message _ => sendOn t a l iovs retval last message interrupted w
  | .read a count last => afterRead t a count (readOn t a count last false interrupted w)
  | .recvmsg a len last peek asked lens =>
    afterRecv t a len false peek asked 0 lens (recvmsgLoop t a false peek asked lens)
    (readOn t a len last peek interrupted w)

/-- `LocalDatagramSocketFd::LocalDatagramSocketFd` -/
def newSocket (T β : Type*) : SocketFd T β where
  m_state := .CREATED
  m_peer := none
  m_myPeers := []
  m_bindPath := none
  m_readBuffer := []
  m_readBufferSize := 0
  m_sendTimeout := 0
  m_recvTimeout := 0
  m_shutRead := false
  m_shutWrite := false
  nonblock := false
  waitQueue := []
  sent := []
  receipts := []
  closed := false

structure Node.New (n : Node T β) : Prop where
  sockets : ∀ a, n.sockets a = newSocket T β
  m_bindByPath : ∀ path, n.m_bindByPath path = none

def program (T β : Type*) [DecidableEq T] : Program T (Frame β) (Result β) (Node T β) (Op β) Bool where
  start := Node.New
  enter := enter
  resume := resume

def machine (T β : Type*) [DecidableEq T] : Machine (W T β) (Act T (Op β) Bool) := (program T β).machine

/-- Two threads on a node without sockets in use. -/
def newNode : W Bool Nat where
  current := none
  status _ := .active
  place _ := .own none
  now := 0
  wakeAt _ := none
  shared := ⟨fun _ => newSocket Bool Nat, fun _ => none, fun _ => none, fun _ => [], fun _ => none⟩

theorem newNode_start : (machine Bool Nat).init newNode where
  main := rfl
  ready _ := .inl rfl
  own _ := rfl
  shared := ⟨fun _ => rfl, fun _ => rfl⟩

end Dce.Datagram
