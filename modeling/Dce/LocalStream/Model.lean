import Dce.Lib.Coroutine
import Dce.Lib.Stream

/- The receive queue of a local socket, `local-socket-fd.cc`. -/

namespace Dce.LocalStream

open List

/-- `struct Buffer`; its `size` is the length of `data`. -/
structure Buffer (β : Type*) where
  data : List β
  readOffset : Nat
  deriving DecidableEq, Repr

variable {β : Type*}

/-- `ReadData` without `peek`: the queue that is left and what was copied out. -/
def readData : List (Buffer β) → Nat → List (Buffer β) × List β
  | [], _ => ([], [])
  | myBuf :: m_readBuffer, rest =>
    let avail := min rest (myBuf.data.length - myBuf.readOffset)
    if 0 < avail then
      let out := (myBuf.data.drop myBuf.readOffset).take avail
      if myBuf.data.length ≤ myBuf.readOffset + avail then
        let more := readData m_readBuffer (rest - avail)
        (more.1, out ++ more.2)
      else ({ myBuf with readOffset := myBuf.readOffset + avail } :: m_readBuffer, out)
    else (myBuf :: m_readBuffer, [])

def Buffer.unread (b : Buffer β) : List β := b.data.drop b.readOffset

/-- The bytes in a queue. -/
def contents (q : List (Buffer β)) : List β := q.flatMap Buffer.unread

@[simp] theorem contents_nil : contents ([] : List (Buffer β)) = [] := rfl

@[simp] theorem contents_cons (b : Buffer β) (q : List (Buffer β)) :
    contents (b :: q) = b.unread ++ contents q := rfl

@[simp] theorem contents_append (q r : List (Buffer β)) : contents (q ++ r) = contents q ++ contents r :=
  flatMap_append

@[simp] theorem contents_new (data : List β) : contents [⟨data, 0⟩] = data := append_nil data

theorem Buffer.unread_length (b : Buffer β) : b.unread.length = b.data.length - b.readOffset :=
  length_drop

theorem readData_contents (q : List (Buffer β)) (n : Nat) :
    (readData q n).2 ++ contents (readData q n).1 = contents q := by
  induction q generalizing n with
  | nil => rfl
  | cons b q ih =>
    unfold readData
    dsimp only
    split
    · split
      · have whole : (b.data.drop b.readOffset).take (min n (b.data.length - b.readOffset)) = b.unread := by
          refine take_of_length_le ?_
          rw [length_drop]
          omega
        rw [whole, append_assoc, ih, contents_cons]
      · rw [contents_cons, contents_cons, Buffer.unread, Buffer.unread, ← append_assoc, ← drop_drop,
          take_append_drop]
    · rfl

variable {q : List (Buffer β)}

theorem readData_short {n : Nat} (short : (readData q n).2.length < n) (m : Nat) :
    readData (readData q n).1 m = ((readData q n).1, []) := by
  induction q generalizing n with
  | nil => rfl
  | cons b q ih =>
    revert short
    rw [readData]
    split
    · split
      · intro short
        refine ih ?_
        rw [length_append, length_take, length_drop] at short
        omega
      · intro short
        rw [length_take, length_drop] at short
        omega
    · intro short
      rw [readData]
      rw [if_neg (by simp only [length_nil] at short; omega)]

/-- The bytes in a queue before the first buffer that is used up. -/
def reachable : List (Buffer β) → List β
  | [] => []
  | b :: q => if b.data.length ≤ b.readOffset then [] else b.unread ++ reachable q

theorem readData_reach (q : List (Buffer β)) (n : Nat) :
    (readData q n).2 = (reachable q).take n ∧ reachable (readData q n).1 = (reachable q).drop n := by
  induction q generalizing n with
  | nil => simp [readData, reachable]
  | cons b q ih =>
    have length := b.unread_length
    by_cases used : b.data.length ≤ b.readOffset
    · simp [readData, reachable, used]
    · obtain ⟨out, rest⟩ := ih (n - min n (b.data.length - b.readOffset))
      rw [reachable, readData]
      dsimp only
      split
      · split
        · have whole : (b.data.drop b.readOffset).take (min n (b.data.length - b.readOffset)) = b.unread :=
            take_of_length_le (by rw [length_drop]; omega)
          rw [whole, out, rest, take_append, drop_append, take_of_length_le (l := b.unread) (by omega),
            drop_of_length_le (l := b.unread) (by omega), length, Nat.min_eq_right (by omega)]
          exact ⟨rfl, rfl⟩
        · rw [reachable, if_neg (by simp only; omega), take_append_of_le_length (by omega),
            drop_append_of_le_length (by omega), Nat.min_eq_left (by omega), Buffer.unread, Buffer.unread,
            drop_drop]
          exact ⟨rfl, rfl⟩
      · rw [reachable, if_neg used, show n = 0 by omega]
        exact ⟨rfl, rfl⟩

/-- No buffer in the queue is used up. -/
def Fresh (q : List (Buffer β)) : Prop := ∀ b ∈ q, b.unread ≠ []

variable (fresh : Fresh q)
include fresh

theorem Fresh.readData (n : Nat) : Fresh (readData q n).1 := by
  induction q generalizing n with
  | nil => exact fresh
  | cons b q ih =>
    have rest : Fresh q := fun b mem => fresh b (mem_cons_of_mem _ mem)
    unfold LocalStream.readData
    dsimp only
    split
    · split
      · exact ih rest _
      · intro other mem
        rcases mem_cons.mp mem with rfl | mem
        · rw [← length_pos_iff, Buffer.unread_length]
          simp only
          omega
        · exact rest other mem
    · exact fresh

theorem Fresh.reachable_eq : reachable q = contents q := by
  induction q with
  | nil => rfl
  | cons b q ih =>
    have some := length_pos_iff.mpr (fresh b mem_cons_self)
    rw [Buffer.unread_length] at some
    rw [reachable, if_neg (by omega), ih fun b mem => fresh b (mem_cons_of_mem _ mem), contents_cons]

theorem Fresh.readData_out (n : Nat) : (LocalStream.readData q n).2 = (contents q).take n := by
  rw [(readData_reach q n).1, fresh.reachable_eq]

theorem Fresh.readData_rest (n : Nat) : contents (LocalStream.readData q n).1 = (contents q).drop n := by
  have split := readData_contents q n
  rw [fresh.readData_out] at split
  exact append_cancel_left (split.trans (take_append_drop n (contents q)).symm)

end Dce.LocalStream

/- A connected pair of local stream sockets, `local-stream-socket-fd.cc`, from the moment
`Accept` has joined them. `malloc` does not fail. -/

namespace Dce.LocalStream

open Coroutine Function

/-- `LOCAL_SOCKET_MAX_BUFFER` -/
def maxBuffer : Nat := 1024 * 128

inductive State
  | CREATED | BINDED | LISTENING | ACCEPTING | CONNECTING | CONNECTED | REMOTECLOSED | CLOSED
  deriving DecidableEq, Repr

inductive Side
  | a | b
  deriving DecidableEq, Repr

def Side.other : Side → Side
  | .a => .b
  | .b => .a

@[simp] theorem Side.other_other (e : Side) : e.other.other = e := by cases e <;> rfl

@[simp] theorem Side.other_ne (e : Side) : e.other ≠ e := by cases e <;> simp [other]

@[simp] theorem Side.ne_other (e : Side) : e ≠ e.other := by cases e <;> simp [other]

theorem Side.eq_or (e f : Side) : f = e ∨ f = e.other := by cases e <;> cases f <;> simp [other]

inductive PollEvent
  | POLLIN | POLLOUT | POLLHUP
  deriving DecidableEq, Repr

structure WaitQueueEntry (T : Type*) where
  thread : T
  eventMask : List PollEvent

/-- `m_peer` says whether it is set: to the other socket of the pair. The last fields are not
in the source: the bytes that went into the queue and came out, each with the thread that
moved it, and those that the calls of each thread on this socket reported. -/
structure SocketFd (T β : Type*) where
  m_state : State
  m_peer : Bool
  m_readBuffer : List (Buffer β)
  m_readBufferSize : Nat
  m_sendTimeout : Nat
  m_recvTimeout : Nat
  m_shutRead : Bool
  m_shutWrite : Bool
  nonblock : Bool
  waitQueue : List (WaitQueueEntry T)
  accepted : List (T × β)
  delivered : List (T × β)
  toldWritten : T → List β
  toldRead : T → List β

inductive Errno
  | ENOTCONN | EPIPE | EAGAIN | EINTR | EINVAL | EISCONN
  deriving DecidableEq, Repr

/-- `err` is the `errno` of each thread. `moved` holds the bytes that its present call has
copied, not in the source. -/
structure Pair (T β : Type*) where
  socket : Side → SocketFd T β
  err : T → Option Errno
  moved : T → List β

/-- What a call returned, with what it was asked for and what it copied; `left` counts the
accepted bytes that were still to be delivered on the side of a read. -/
inductive Result (β : Type*)
  | done (value : Int)
  | written (message : List β) (value : Int) (moved : List β)
  | read (asked : Nat) (value : Int) (moved : List β) (left : Nat)
  deriving DecidableEq, Repr

/-- The `Wait` in `Write` and the one in `Read`, each with the loop over the buffers of the
message around it. `last` is `m_lastTime`. -/
inductive Frame (β : Type*)
  | write (e : Side) (tot : Nat) (rest : List β) (last : Option Nat)
      (message : List β) (retval : Int) (iovs : List (List β))
  | read (e : Side) (filled rest : Nat) (last : Option Nat)
      (asked : Nat) (retval : Int) (lens : List Nat)
  deriving DecidableEq, Repr

inductive How
  | SHUT_RD | SHUT_WR | SHUT_RDWR
  deriving DecidableEq, Repr

inductive Op (β : Type*)
  | write (e : Side) (buf : List β)
  | sendmsg (e : Side) (named : Bool) (iovs : List (List β))
  | read (e : Side) (count : Nat)
  | recvmsg (e : Side) (lens : List Nat)
  | shutdown (e : Side) (how : How)
  | close (e : Side)
  | setfl (e : Side) (nonblock : Bool)
  | setTimeouts (e : Side) (send recv : Nat)
  deriving DecidableEq, Repr

abbrev W (T β : Type*) := World T (Frame β) (Result β) (Pair T β)

def writerMask : List PollEvent := [.POLLOUT, .POLLHUP]

def readerMask : List PollEvent := [.POLLIN, .POLLHUP]

section

variable {T β : Type*}

def socket (e : Side) (w : W T β) : SocketFd T β := w.shared.socket e

def setSocket (e : Side) (s : SocketFd T β) (w : W T β) : W T β :=
  { w with shared := { w.shared with socket := update w.shared.socket e s } }

end

variable {T β : Type*} [DecidableEq T]

/-- The threads that `WakeWaiters (&event)` wakes. -/
def waiters (event : PollEvent) (s : SocketFd T β) : List T :=
  (s.waitQueue.filter fun entry => event ∈ entry.eventMask).map WaitQueueEntry.thread

def wakeWaiters (event : PollEvent) (e : Side) (w : W T β) : W T β :=
  w.wakeAll (waiters event (socket e w))

def addMoved (t : T) (data : List β) (w : W T β) : W T β :=
  { w with shared := { w.shared with moved := update w.shared.moved t (w.shared.moved t ++ data) } }

def clearMoved (t : T) (w : W T β) : W T β :=
  { w with shared := { w.shared with moved := update w.shared.moved t [] } }

def addWaitQueue (t : T) (mask : List PollEvent) (e : Side) (w : W T β) : W T β :=
  setSocket e { socket e w with waitQueue := (socket e w).waitQueue ++ [⟨t, mask⟩] } w

def removeWaitQueue (t : T) (e : Side) (w : W T β) : W T β :=
  setSocket e { socket e w with waitQueue := (socket e w).waitQueue.filter fun entry => entry.thread ≠ t } w

/-- `new WaitQueueEntryTimeout`: the end of the time limit, if there is one. -/
def newLastTime (timeout now : Nat) : Option Nat := if timeout = 0 then none else some (now + timeout)

inductive WaitResult
  | OK | INTERRUPTED | TIMEOUT
  deriving DecidableEq, Repr

/-- What `WaitQueueEntryTimeout::Wait` returns when control is back. -/
def waitResult (interrupted : Bool) (last : Option Nat) (now : Nat) : WaitResult :=
  if interrupted then .INTERRUPTED
  else
    match last with
    | some e => if e ≤ now then .TIMEOUT else .OK
    | none => .OK

/-- A `Write` or a `Read` returns a count, or -1, or goes into its `Wait`. -/
inductive Outcome (L : Type*)
  | returned (n : Nat)
  | failed (err : Errno)
  | waits (sofar : Nat) (left : L) (last : Option Nat)

/-- A call that has something to show for it returns that. -/
def shortReturn {L : Type*} (err : Errno) (sofar : Nat) : Outcome L :=
  if sofar = 0 then .failed err else .returned sofar

/-- The `Wait` of a call that has made its entry before, or makes it now. -/
def waitUntil {L : Type*} (wq : Option (Option Nat)) (timeout now sofar : Nat) (left : L) : Outcome L :=
  match wq.getD (newLastTime timeout now) with
  | some last => if last ≤ now then shortReturn .EAGAIN sofar else .waits sofar left (some last)
  | none => .waits sofar left none

/-- `DoRecvPacket` of the socket `e`, called by `t`. -/
def doRecvPacket (t : T) (e : Side) (buf : List β) (w : W T β) : W T β × Int :=
  let s := socket e w
  if s.m_shutRead ∨ s.m_state = .CLOSED then (w, -2)
  else if maxBuffer ≤ s.m_readBufferSize then (w, 0)
  else
    let maxi := maxBuffer - s.m_readBufferSize
    let l := min maxi buf.length
    let s := { s with
      m_readBuffer := s.m_readBuffer ++ [⟨buf.take l, 0⟩]
      m_readBufferSize := s.m_readBufferSize + l
      accepted := s.accepted ++ (buf.take l).map (Prod.mk t) }
    (wakeWaiters .POLLIN e (addMoved t (buf.take l) (setSocket e s w)), l)

/-- The loop of `Write`, up to its `Wait`; while `e` is connected its peer is set. -/
def writeLoop (t : T) (e : Side) (tot : Nat) (rest : List β) (wq : Option (Option Nat)) (w : W T β) :
    W T β × Outcome (List β) :=
  let received := doRecvPacket t e.other rest w
  let w := received.1
  let lg := received.2
  if lg = 0 then
    if (socket e w).nonblock then (w, .failed .EAGAIN)
    else (w, waitUntil wq (socket e w).m_sendTimeout w.now tot rest)
  else if 0 < lg then
    if lg.toNat < rest.length ∧ (socket e w).m_state = .CONNECTED then
      writeLoop t e (tot + lg.toNat) (rest.drop lg.toNat) wq w
    else (w, .returned (tot + lg.toNat))
  else (w, shortReturn .EPIPE tot)
termination_by rest.length
decreasing_by
  simp +zetaDelta only [List.length_drop] at *
  omega

def write (t : T) (e : Side) (buf : List β) (w : W T β) : W T β × Outcome (List β) :=
  let s := socket e w
  if s.m_state ≠ .CONNECTED then
    if s.m_state = .REMOTECLOSED then (w, .returned 0) else (w, .failed .ENOTCONN)
  else if s.m_shutWrite then (w, .failed .EPIPE)
  else writeLoop t e 0 buf none w

/-- What follows the `Wait` of `Write`. -/
def writeOn (t : T) (e : Side) (tot : Nat) (rest : List β) (last : Option Nat) (interrupted : Bool)
    (w : W T β) : W T β × Outcome (List β) :=
  let w := removeWaitQueue t e w
  match waitResult interrupted last w.now with
  | .OK =>
    if 0 < rest.length ∧ (socket e w).m_state = .CONNECTED then writeLoop t e tot rest (some last) w
    else if tot = 0 ∧ (socket e w).m_state ≠ .CONNECTED then (w, .failed .EPIPE)
    else (w, .returned tot)
  | .INTERRUPTED => (w, shortReturn .EINTR tot)
  | .TIMEOUT => (w, shortReturn .EAGAIN tot)

def setErr (t : T) (err : Errno) (w : W T β) : W T β :=
  { w with shared := { w.shared with err := update w.shared.err t (some err) } }

/-- `AddWaitQueue` and the sleep of a `Wait`. -/
def sleepOn (t : T) (e : Side) (mask : List PollEvent) (frame : Frame β) (last : Option Nat) (w : W T β) : W T β :=
  let w := addWaitQueue t mask e w
  match last with
  | some last => w.sleepUntil t frame last
  | none => w.sleep t frame

def sendmsgReturn (t : T) (e : Side) (message : List β) (retval : Int) (w : W T β) : W T β :=
  let s := socket e w
  let told := update s.toldWritten t (s.toldWritten t ++ message.take retval.toNat)
  (setSocket e { s with toldWritten := told } w).ret t (.written message retval (w.shared.moved t))

/-- What `Sendmsg` does with the return of a `Write`: `size_t ret` adds -1 as it adds a
count, and `next` is the rest of the loop. -/
def afterWrite (t : T) (e : Side) (message : List β) (retval : Int) (iovs : List (List β))
    (next : Int → W T β → W T β) (written : W T β × Outcome (List β)) : W T β :=
  match written.2 with
  | .returned n =>
    if n = 0 then sendmsgReturn t e message retval written.1 else next (retval + n) written.1
  | .failed err => next (retval - 1) (setErr t err written.1)
  | .waits tot rest last =>
    sleepOn t e writerMask (.write e tot rest last message retval iovs) last written.1

/-- The loop of `Sendmsg`. A `Write` by itself is the one of a message with one buffer. -/
def sendmsgLoop (t : T) (e : Side) (message : List β) : List (List β) → Int → W T β → W T β
  | [], retval, w => sendmsgReturn t e message retval w
  | buf :: iovs, retval, w =>
    afterWrite t e message retval iovs (sendmsgLoop t e message iovs) (write t e buf w)

def sendmsg (t : T) (e : Side) (named : Bool) (iovs : List (List β)) (w : W T β) : W T β :=
  if named then sendmsgReturn t e iovs.flatten (-1) (setErr t .EISCONN w)
  else sendmsgLoop t e iovs.flatten iovs 0 w

/-- `ReadData` of the socket `e`, called by `t` with `rest` left to fill. -/
def takeData (t : T) (e : Side) (rest : Nat) (w : W T β) : W T β × List β :=
  let s := socket e w
  let (m_readBuffer, data) := readData s.m_readBuffer rest
  let s := { s with
    m_readBuffer := m_readBuffer
    m_readBufferSize := s.m_readBufferSize - data.length
    delivered := s.delivered ++ data.map (Prod.mk t) }
  (addMoved t data (setSocket e s w), data)

/-- The condition of the loop of `Read`, without the count. -/
def Readable (s : SocketFd T β) : Prop :=
  s.m_state = .CONNECTED ∨ (s.m_state = .REMOTECLOSED ∧ 0 < s.m_readBufferSize)

instance (s : SocketFd T β) : Decidable (Readable s) := by unfold Readable; infer_instance

/-- The loop of `Read`, up to its `Wait`. -/
def readLoop (t : T) (e : Side) (filled rest : Nat) (wq : Option (Option Nat)) (w : W T β) :
    W T β × Outcome Nat :=
  if 0 < rest ∧ Readable (socket e w) then
    let taken := takeData t e rest w
    let lg := taken.2.length
    if lg = 0 then
      let w := taken.1
      if (socket e w).nonblock then
        (w, shortReturn .EAGAIN filled)
      else if (socket e w).m_peer ∧ (socket e.other w).m_shutWrite then (w, .returned 0)
      else (w, waitUntil wq (socket e w).m_recvTimeout w.now filled rest)
    else
      let w := taken.1
      let w := if (socket e w).m_peer then wakeWaiters .POLLOUT e.other w else w
      readLoop t e (filled + lg) (rest - lg) wq w
  else (w, .returned filled)
termination_by rest
decreasing_by
  simp +zetaDelta only at *
  omega

def read (t : T) (e : Side) (count : Nat) (w : W T β) : W T β × Outcome Nat :=
  let s := socket e w
  if s.m_state ≠ .CONNECTED ∧ s.m_state ≠ .REMOTECLOSED then (w, .failed .EINVAL)
  else readLoop t e 0 count none w

/-- What follows the `Wait` of `Read`. -/
def readOn (t : T) (e : Side) (filled rest : Nat) (last : Option Nat) (interrupted : Bool)
    (w : W T β) : W T β × Outcome Nat :=
  let w := removeWaitQueue t e w
  match waitResult interrupted last w.now with
  | .OK => readLoop t e filled rest (some last) w
  | .INTERRUPTED => (w, shortReturn .EINTR filled)
  | .TIMEOUT => (w, shortReturn .EAGAIN filled)

def recvmsgReturn (t : T) (e : Side) (asked : Nat) (retval : Int) (w : W T β) : W T β :=
  let s := socket e w
  let told := update s.toldRead t (s.toldRead t ++ (w.shared.moved t).take retval.toNat)
  (setSocket e { s with toldRead := told } w).ret t
    (.read asked retval (w.shared.moved t) (s.accepted.length - s.delivered.length))

/-- What `Recvmsg` does with the return of a `Read`. -/
def afterRead (t : T) (e : Side) (asked : Nat) (retval : Int) (lens : List Nat)
    (next : Int → W T β → W T β) (got : W T β × Outcome Nat) : W T β :=
  match got.2 with
  | .returned n =>
    if n = 0 then recvmsgReturn t e asked retval got.1 else next (retval + n) got.1
  | .failed err => next (retval - 1) (setErr t err got.1)
  | .waits filled rest last =>
    sleepOn t e readerMask (.read e filled rest last asked retval lens) last got.1

/-- The loop of `Recvmsg`. A `Read` by itself is the one of a message with one buffer. -/
def recvmsgLoop (t : T) (e : Side) (asked : Nat) : List Nat → Int → W T β → W T β
  | [], retval, w => recvmsgReturn t e asked retval w
  | len :: lens, retval, w =>
    afterRead t e asked retval lens (recvmsgLoop t e asked lens) (read t e len w)

def recvmsg (t : T) (e : Side) (lens : List Nat) (w : W T β) : W T β := recvmsgLoop t e lens.sum lens 0 w

def shutdown (t : T) (e : Side) (how : How) (w : W T β) : W T β :=
  let s := socket e w
  if s.m_state ≠ .CONNECTED ∧ s.m_state ≠ .REMOTECLOSED then (setErr t .ENOTCONN w).ret t (.done (-1))
  else
    match how with
    | .SHUT_RD => (setSocket e { s with m_shutRead := true } w).ret t (.done 0)
    | .SHUT_WR => (setSocket e { s with m_shutWrite := true } w).ret t (.done 0)
    | .SHUT_RDWR => (setSocket e { s with m_shutWrite := true, m_shutRead := true } w).ret t (.done 0)

/-- `PeerClosed` of the socket `e` -/
def peerClosed (e : Side) (w : W T β) : W T β :=
  let s := { socket e w with m_peer := false }
  if s.m_state = .CONNECTED then
    wakeWaiters .POLLHUP e (setSocket e { s with m_state := .REMOTECLOSED } w)
  else setSocket e s w

def clearAll (e : Side) (andWakeUp : Bool) (w : W T β) : W T β :=
  let w := setSocket e { socket e w with
    m_state := .CLOSED, m_peer := false, m_readBuffer := [], m_readBufferSize := 0 } w
  if andWakeUp then wakeWaiters .POLLHUP e w else w

/-- `Close`, in the states that a socket of a pair can have. -/
def close (t : T) (e : Side) (w : W T β) : W T β :=
  match (socket e w).m_state with
  | .CONNECTED => (clearAll e true (peerClosed e.other w)).ret t (.done 0)
  | .REMOTECLOSED => (clearAll e false w).ret t (.done 0)
  | _ => w.ret t (.done 0)

/-- `Fcntl (F_SETFL)` -/
def setStatusFlags (t : T) (e : Side) (nonblock : Bool) (w : W T β) : W T β :=
  (setSocket e { socket e w with nonblock := nonblock } w).ret t (.done 0)

/-- `Setsockopt` of `SO_SNDTIMEO` and `SO_RCVTIMEO` -/
def setTimeouts (t : T) (e : Side) (send recv : Nat) (w : W T β) : W T β :=
  (setSocket e { socket e w with m_sendTimeout := send, m_recvTimeout := recv } w).ret t (.done 0)

def enter (t : T) (op : Op β) (w : W T β) : W T β :=
  let w := clearMoved t w
  match op with
  | .write e buf => sendmsg t e false [buf] w
  | .sendmsg e named iovs => sendmsg t e named iovs w
  | .read e count => recvmsg t e [count] w
  | .recvmsg e lens => recvmsg t e lens w
  | .shutdown e how => shutdown t e how w
  | .close e => close t e w
  | .setfl e nonblock => setStatusFlags t e nonblock w
  | .setTimeouts e send recv => setTimeouts t e send recv w

/-- Control is back with a thread in its wait; `interrupted` says whether a signal is
pending for its process then. -/
def resume (t : T) (frame : Frame β) (interrupted : Bool) (w : W T β) : W T β :=
  match frame with
  | .write e tot rest last message retval iovs =>
    afterWrite t e message retval iovs (sendmsgLoop t e message iovs) (writeOn t e tot rest last interrupted w)
  | .read e filled rest last asked retval lens =>
    afterRead t e asked retval lens (recvmsgLoop t e asked lens) (readOn t e filled rest last interrupted w)

/-- A pair that `Accept` has just joined; its time limits and flags are free. -/
structure Pair.Joined (p : Pair T β) : Prop where
  state : ∀ e, (p.socket e).m_state = .CONNECTED
  peer : ∀ e, (p.socket e).m_peer = true
  buffer : ∀ e, (p.socket e).m_readBuffer = []
  size : ∀ e, (p.socket e).m_readBufferSize = 0
  shutRead : ∀ e, (p.socket e).m_shutRead = false
  shutWrite : ∀ e, (p.socket e).m_shutWrite = false
  waitQueue : ∀ e, (p.socket e).waitQueue = []
  accepted : ∀ e, (p.socket e).accepted = []
  delivered : ∀ e, (p.socket e).delivered = []
  toldWritten : ∀ e t, (p.socket e).toldWritten t = []
  toldRead : ∀ e t, (p.socket e).toldRead t = []

def program (T β : Type*) [DecidableEq T] : Program T (Frame β) (Result β) (Pair T β) (Op β) Bool where
  start := Pair.Joined
  enter := enter
  resume := resume

def machine (T β : Type*) [DecidableEq T] : Machine (W T β) (Act T (Op β) Bool) := (program T β).machine

/-- A pair that has just been joined. -/
def newPair : W Bool Nat where
  current := none
  status _ := .active
  place _ := .own none
  now := 0
  wakeAt _ := none
  shared :=
    { socket := fun _ =>
        { m_state := .CONNECTED
          m_peer := true
          m_readBuffer := []
          m_readBufferSize := 0
          m_sendTimeout := 0
          m_recvTimeout := 0
          m_shutRead := false
          m_shutWrite := false
          nonblock := false
          waitQueue := []
          accepted := []
          delivered := []
          toldWritten := fun _ => []
          toldRead := fun _ => [] }
      err := fun _ => none
      moved := fun _ => [] }

theorem newPair_start : (machine Bool Nat).init newPair where
  main := rfl
  ready _ := .inl rfl
  own _ := rfl
  shared := by constructor <;> intros <;> rfl

end Dce.LocalStream
