import Dce.Lib.Iovec
import Dce.Lib.Machine

/- A socket for streams over an ns-3 socket, `unix-stream-socket-fd.cc`. What the ns-3 socket answers is given. Names
of peers, priorities and the wait queues are left out: a thread that waits can go on at any time. -/

namespace Dce.UnixStream

open Function

inductive State
  | CREATED | LISTENING | CONNECTING | CONNECTED | CLOSING | REMOTECLOSED | CLOSED
  deriving DecidableEq, Repr

inductive Errno
  | EAGAIN | EINTR | EINVAL | EISCONN | ENOTCONN | EPIPE | EALREADY | ECONNREFUSED | EBADF | EMFILE
  /-- What `ErrnoToSimuErrno` makes of the error of the ns-3 socket -/
  | ns3 (e : Nat)
  deriving DecidableEq, Repr

/-- `PollTable::Result` -/
inductive Waited
  | OK | INTERRUPTED | TIMEOUT
  deriving DecidableEq, Repr

/-- A call that waits. A `sendmsg` goes on with its buffers from the byte that comes next. -/
inductive Blocked
  | recvmsg (iov : List Iovec) (peek : Bool)
  | sendmsg (iov : List (List UInt8)) (retval : Nat)
  | accept
  | connect
  deriving DecidableEq, Repr

/-- `open_` says whether there is an `m_socket`, and `rx` is what it has received and not given. `err` is what the
call of a thread has put there, if it has. The last fields are not in the source: all bytes that were given to the
ns-3 socket to send; all that came from it, and how many of these were returned by a call that does not peek; whether
a `Shutdown` of the sending side has succeeded; whether the ns-3 socket is connecting. -/
structure World (T : Type*) where
  m_state : State
  m_shutWrite : Bool
  m_peekedData : List UInt8
  m_backlog : Int
  m_connectionQueue : Nat
  nonBlocking : Bool
  open_ : Bool
  rx : List UInt8
  blocked : T → Option Blocked
  err : T → Option Errno
  handed : List UInt8
  received : List UInt8
  returned : Nat
  shut : Bool
  attempt : Bool

/-- A `recvmsg` returns with the memory that it leaves. -/
inductive Result
  | returned (retval : Int)
  | filled (retval : Int) (memory : Memory)
  | polled (readable : Bool)
  | waits
  | crashed
  | done

variable {T : Type*} [DecidableEq T]

/-- What came in and was not returned yet. -/
def World.unread (w : World T) : List UInt8 := w.received.drop w.returned

def fail (t : T) (e : Errno) (w : World T) : World T × Result :=
  ({ w with err := update w.err t (some e) }, .returned (-1))

def wait (t : T) (b : Blocked) (w : World T) : World T × Result :=
  ({ w with blocked := update w.blocked t (some b) }, .waits)

/-- The thread comes back from its wait. -/
def wake (t : T) (w : World T) : World T := { w with blocked := update w.blocked t none }

def canRecv (w : World T) : Bool :=
  w.open_ && match w.m_state with
    | .CREATED => true
    | .LISTENING => w.m_connectionQueue ≠ 0
    | .CONNECTING => false
    | .CONNECTED => w.rx ≠ []
    | .CLOSING | .REMOTECLOSED | .CLOSED => true

/-- The loop over the buffers, with what is to be copied from `buf`. -/
def copyLoop : Memory → Nat → Nat → List Iovec → Option (Memory × Nat)
  | m, _, _, [] => some (m, 0)
  | m, buf, toCopy, v :: iov =>
    if toCopy = 0 then some (m, 0)
    else
      let len := min toCopy v.iov_len
      match m.load buf len with
      | none => none
      | some bytes =>
        match m.store v.iov_base bytes with
        | none => none
        | some m => (copyLoop m (buf + len) (toCopy - len) iov).map fun r => (r.1, r.2 + len)

/-- From the first buffer on, into which the first bytes are copied. -/
def fill (memory : Memory) (v : Iovec) (iov : List Iovec) (bytes : List UInt8)
    (toCopy : Nat) : Option (Memory × Memory × Nat) :=
  match memory.store v.iov_base (bytes.take (v.iov_len % 2 ^ 32)) with
  | none => none
  | some first => (copyLoop first v.iov_base toCopy (v :: iov)).map fun r => (first, r.1, r.2)

def totalAvailable (iov : List Iovec) : Nat := Iovec.total iov % 2 ^ 32

/-- The rest of `DoRecvmsg`; `packet` is what `RecvFrom` gives, or the error of the ns-3 socket. -/
def receive (t : T) (iov : List Iovec) (peek : Bool) (memory : Memory) (packet : Except Nat (List UInt8))
    (w : World T) :
    World T × Result :=
  match iov with
  | [] => (w, .crashed)
  | v :: rest =>
    if w.m_peekedData ≠ [] then
      match fill memory v rest w.m_peekedData (min w.m_peekedData.length (totalAvailable iov)) with
      | none => (w, .crashed)
      | some (_, memory, ret) =>
        if peek then (w, .filled ret memory)
        else ({ w with m_peekedData := w.m_peekedData.drop ret, returned := w.returned + ret }, .filled ret memory)
    else
      match packet with
      | .error e => ({ w with err := update w.err t (some (.ns3 e)) }, .filled (-1) memory)
      | .ok packet =>
        match fill memory v rest packet packet.length with
        | none => (w, .crashed)
        | some (first, memory, ret) =>
          let w := { w with rx := w.rx.drop packet.length }
          if peek then
            -- `AddPeekedData` reads as many bytes behind the first address as the packet has
            match first.load v.iov_base packet.length with
            | none => (w, .crashed)
            | some bytes => ({ w with m_peekedData := w.m_peekedData ++ bytes }, .filled ret memory)
          else ({ w with returned := w.returned + ret }, .filled ret memory)

/-- The switch over `m_state`: what is returned at once, if it is. -/
def early (w : World T) : Option (Except Errno Nat) :=
  match w.m_state with
  | .CONNECTED => none
  | .CLOSING => some (.ok 0)
  | .REMOTECLOSED | .CLOSED => if w.rx = [] then some (.ok 0) else none
  | .CREATED | .LISTENING | .CONNECTING => some (.error .EINVAL)

/-- After the wait, or without one. -/
def afterWait (t : T) (iov : List Iovec) (peek : Bool) (memory : Memory) (packet : Except Nat (List UInt8))
    (w : World T) :
    World T × Result :=
  match early w with
  | some (.ok n) => (w, .filled n memory)
  | some (.error e) => ({ w with err := update w.err t (some e) }, .filled (-1) memory)
  | none => receive t iov peek memory packet w

/-- `DoRecvmsg` -/
def recvmsg (t : T) (iov : List Iovec) (peek dontwait : Bool) (memory : Memory) (packet : Except Nat (List UInt8))
    (w : World T) :
    World T × Result :=
  if w.m_peekedData ≠ [] then receive t iov peek memory packet w
  else if canRecv w then afterWait t iov peek memory packet w
  else if dontwait then ({ w with err := update w.err t (some .EAGAIN) }, .filled (-1) memory)
  else wait t (.recvmsg iov peek) w

def resumeRecvmsg (t : T) (iov : List Iovec) (peek : Bool) (waited : Waited) (memory : Memory)
    (packet : Except Nat (List UInt8))
    (w : World T) : World T × Result :=
  match waited with
  | .OK => afterWait t iov peek memory packet w
  | .INTERRUPTED => ({ w with err := update w.err t (some .EINTR) }, .filled (-1) memory)
  | .TIMEOUT => ({ w with err := update w.err t (some .EAGAIN) }, .filled (-1) memory)

/-- What `RecvFrom` can give: the next bytes, no more than it is asked for. -/
def Possible (iov : List Iovec) (w : World T) : Except Nat (List UInt8) → Prop
  | .error _ => True
  | .ok packet => packet <+: w.rx ∧ packet.length ≤ totalAvailable iov

instance (iov : List Iovec) (w : World T) : (packet : Except Nat (List UInt8)) → Decidable (Possible iov w packet)
  | .error _ => instDecidableTrue
  | .ok packet => inferInstanceAs (Decidable (packet <+: w.rx ∧ packet.length ≤ totalAvailable iov))

/-- Each time what `GetTxAvailable` says, and with which error `Send` fails then, if it does. -/
abbrev Answers := List (Nat × Option Nat)

/-- `RETURNFREE (retval)` after a short write, else a failure. -/
def shortWrite (t : T) (retval : Nat) (e : Errno) (w : World T) : World T × Result :=
  if retval ≠ 0 then (w, .returned retval) else fail t e w

/-- The inner loop where the ns-3 socket has no room. -/
def noRoom (t : T) (dontwait : Bool) (iov : List (List UInt8)) (retval : Nat) (w : World T) : World T × Result :=
  if dontwait then shortWrite t retval .EAGAIN w
  else if w.m_state ≠ .CONNECTED then shortWrite t retval .ENOTCONN w
  else if w.m_shutWrite then fail t .EPIPE w
  else wait t (.sendmsg iov retval) w

/-- The loops of `DoSendmsg`, up to the end of the call or to a wait. There is no result where the answers are not as
many as the loops ask for. -/
def sendLoop (t : T) (dontwait : Bool) : Answers → List (List UInt8) → Nat → World T → Option (World T × Result)
  | answers, iov, retval, w =>
    match iov.dropWhile (· = []), answers with
    | [], [] => some (w, .returned retval)
    | [], _ :: _ => none
    | _ :: _, [] => none
    | buf :: iov, (available, sent) :: answers =>
      if available = 0 then if answers = [] then some (noRoom t dontwait (buf :: iov) retval w) else none
      else
        let packet := buf.take available
        let w := { w with handed := w.handed ++ packet }
        match sent with
        | some e => if answers = [] then some (shortWrite t retval (.ns3 e) w) else none
        | none => sendLoop t dontwait answers (buf.drop available :: iov) (retval + packet.length) w
termination_by structural answers => answers

/-- `DoSendmsg` -/
def sendmsg (t : T) (named dontwait : Bool) (iov : List (List UInt8)) (answers : Answers)
    (w : World T) : Option (World T × Result) :=
  if named then if answers = [] then some (fail t .EISCONN w) else none else sendLoop t dontwait answers iov 0 w

/-- There is no `m_socket` once the descriptor is closed. -/
def resumeSendmsg (t : T) (waited : Waited) (iov : List (List UInt8)) (retval : Nat) (answers : Answers)
    (w : World T) :
    Option (World T × Result) :=
  match waited with
  | .OK => if w.open_ then sendLoop t false answers iov retval w
      else if answers = [] then some (w, .crashed) else none
  | .INTERRUPTED => if answers = [] then some (shortWrite t retval .EINTR w) else none
  | .TIMEOUT => if answers = [] then some (shortWrite t retval .EAGAIN w) else none

/-- What the ns-3 socket reports. A `CloseError` can be the end of a connection that is not there yet. -/
inductive Event
  | data (bytes : List UInt8)
  | ConnectionSuccess
  | ConnectionError
  | CloseSuccess
  | CloseError (ended : Bool)
  | ConnectionCreated
  deriving DecidableEq, Repr

def happens (w : World T) : Event → World T
  | .data bytes => { w with rx := w.rx ++ bytes, received := w.received ++ bytes }
  | .ConnectionSuccess =>
      { w with m_state := if w.m_state = .CONNECTING then .CONNECTED else w.m_state, attempt := false }
  | .ConnectionError =>
      { w with m_state := if w.m_state = .CONNECTING then .CREATED else w.m_state, attempt := false }
  | .CloseSuccess => { w with m_state := if w.m_state = .CLOSING then .CLOSED else .REMOTECLOSED, attempt := false }
  | .CloseError ended => { w with attempt := w.attempt && !ended }
  | .ConnectionCreated => { w with m_connectionQueue := w.m_connectionQueue + 1 }

/-- `ChangeSocket` of a closed socket. What was received and not peeked goes with the old one. -/
def changeSocket (w : World T) : World T :=
  if w.m_state = .CLOSED then { w with m_state := .CREATED, rx := [], received := w.m_peekedData, returned := 0 }
  else w

/-- `Connect` after its wait -/
def connected (t : T) (w : World T) : World T × Result :=
  if w.m_state = .CONNECTED then (w, .returned 0)
  else if w.m_state = .CLOSED ∨ w.m_state = .REMOTECLOSED then fail t .ECONNREFUSED w
  else (w, .returned (-1))

/-- The ns-3 socket connects; some events can come before its `Connect` returns. -/
def connecting (during : List Event) (w : World T) : World T :=
  during.foldl happens { changeSocket w with m_state := .CONNECTING, attempt := true }

/-- `Connect`; `answer` is the error of that of the ns-3 socket, if it fails. -/
def connect (t : T) (during : List Event) (answer : Option Nat) (w : World T) : World T × Result :=
  if w.m_state = .CONNECTING then fail t .EALREADY w
  else
    let v := connecting during w
    match answer with
    | some e => connected t { v with err := update v.err t (some (.ns3 e)), attempt := false }
    | none => if v.m_state = .CONNECTING then wait t .connect v else connected t v

def resumeConnect (t : T) (waited : Waited) (w : World T) : World T × Result :=
  match waited with
  | .OK => if w.m_state = .CONNECTING then wait t .connect w else connected t w
  | .INTERRUPTED => fail t .EINTR w
  | .TIMEOUT => fail t .EAGAIN w

inductive How
  | SHUT_RD | SHUT_WR | SHUT_RDWR | other
  deriving DecidableEq, Repr

/-- `answer` is the error of `ShutdownRecv`, if it fails. -/
def shutdown (t : T) (how : How) (answer : Option Nat) (w : World T) : World T × Result :=
  match how, answer with
  | .other, _ => fail t .EINVAL w
  | .SHUT_WR, _ => ({ w with m_shutWrite := true, shut := true }, .returned 0)
  | .SHUT_RD, some e => fail t (.ns3 e) w
  | .SHUT_RD, none => ({ w with m_state := .CLOSED }, .returned 0)
  | .SHUT_RDWR, some e => fail t (.ns3 e) { w with m_shutWrite := true }
  | .SHUT_RDWR, none => ({ w with m_shutWrite := true, m_state := .CLOSED, shut := true }, .returned 0)

def listen (t : T) (backlog : Int) (answer : Option Nat) (w : World T) : World T × Result :=
  match answer with
  | some e => fail t (.ns3 e) w
  | none => ({ w with m_state := .LISTENING, m_backlog := backlog }, .returned 0)

/-- The loop of `Accept`; `fd` is what `UtilsAllocateFd` gives. -/
def accept (t : T) (fd : Option Nat) (w : World T) : World T × Result :=
  if w.m_connectionQueue = 0 then if w.nonBlocking then fail t .EAGAIN w else wait t .accept w
  else
    match fd with
    | none => fail t .EMFILE w
    | some fd => ({ w with m_connectionQueue := w.m_connectionQueue - 1 }, .returned fd)

def resumeAccept (t : T) (waited : Waited) (fd : Option Nat) (w : World T) : World T × Result :=
  match waited with
  | .OK => accept t fd w
  | .INTERRUPTED => fail t .EINTR w
  | .TIMEOUT => fail t .EAGAIN w

/-- `answer` is the error of the ns-3 socket's `Close`, if it fails: the result does not tell. -/
def close (t : T) (answer : Option Nat) (w : World T) : World T × Result :=
  if w.m_state ≠ .CLOSING then
    ({ w with m_state := .CLOSING, open_ := false, err := update w.err t (answer.map .ns3) }, .returned 0)
  else fail t .EBADF w

/-- What threads do and what happens to the ns-3 socket. A thread that waits goes on in a step of its own. -/
inductive Label (T : Type*)
  | recvmsg (t : T) (iov : List Iovec) (peek dontwait : Bool) (memory : Memory) (packet : Except Nat (List UInt8))
  | resumeRecvmsg (t : T) (waited : Waited) (memory : Memory) (packet : Except Nat (List UInt8))
  | sendmsg (t : T) (named dontwait : Bool) (iov : List (List UInt8)) (answers : Answers)
  | resumeSendmsg (t : T) (waited : Waited) (answers : Answers)
  | connect (t : T) (during : List Event) (answer : Option Nat)
  | resumeConnect (t : T) (waited : Waited)
  | accept (t : T) (fd : Option Nat)
  | resumeAccept (t : T) (waited : Waited) (fd : Option Nat)
  | shutdown (t : T) (how : How) (answer : Option Nat)
  | listen (t : T) (backlog : Int) (answer : Option Nat)
  | close (t : T) (answer : Option Nat)
  | poll (t : T)
  | setNonBlocking (nonBlocking : Bool)
  | event (e : Event)

/-- A thread that does not wait can call, as long as the descriptor is open. -/
def World.Free (w : World T) (t : T) : Prop := w.open_ = true ∧ w.blocked t = none

instance (w : World T) (t : T) : Decidable (w.Free t) := inferInstanceAs (Decidable (_ ∧ _))

/-- A call begins. -/
def begins (t : T) (w : World T) : World T := { w with err := update w.err t none }

/-- `ConnectionRequest` lets no more connections in than there is room for. -/
def Comes (w : World T) (e : Event) : Prop :=
  w.open_ = true ∧ (e = .ConnectionCreated → (w.m_connectionQueue : Int) < w.m_backlog)

instance (w : World T) (e : Event) : Decidable (Comes w e) := inferInstanceAs (Decidable (_ ∧ _))

/-- A step with its result. -/
def respond (w : World T) : Label T → Option (World T × Result)
  | .recvmsg t iov peek dontwait memory packet =>
    if w.Free t ∧ Possible iov w packet
      then some (recvmsg t iov peek (dontwait || w.nonBlocking) memory packet (begins t w)) else none
  | .resumeRecvmsg t waited memory packet =>
    match w.blocked t with
    | some (.recvmsg iov peek) =>
      if Possible iov w packet then some (resumeRecvmsg t iov peek waited memory packet (wake t w)) else none
    | _ => none
  | .sendmsg t named dontwait iov answers =>
    if w.Free t then sendmsg t named (dontwait || w.nonBlocking) iov answers (begins t w) else none
  | .resumeSendmsg t waited answers =>
    match w.blocked t with
    | some (.sendmsg iov retval) => resumeSendmsg t waited iov retval answers (wake t w)
    | _ => none
  | .connect t during answer => if w.Free t then some (connect t during answer (begins t w)) else none
  | .resumeConnect t waited => if w.blocked t = some .connect then some (resumeConnect t waited (wake t w)) else none
  | .accept t fd => if w.Free t then some (accept t fd (begins t w)) else none
  | .resumeAccept t waited fd => if w.blocked t = some .accept then some (resumeAccept t waited fd (wake t w))
      else none
  | .shutdown t how answer => if w.Free t then some (shutdown t how answer (begins t w)) else none
  | .listen t backlog answer => if w.Free t then some (listen t backlog answer (begins t w)) else none
  | .close t answer => if w.Free t then some (close t answer (begins t w)) else none
  | .poll t => if w.Free t then some (begins t w, .polled (canRecv w)) else none
  | .setNonBlocking nonBlocking => if w.open_ then some ({ w with nonBlocking := nonBlocking }, .done) else none
  | .event e => if Comes w e then some (happens w e, .done) else none

/-- A new socket, which is connected where it was accepted. -/
def World.start (connected : Bool) (rx : List UInt8) : World T where
  m_state := if connected then .CONNECTED else .CREATED
  m_shutWrite := false
  m_peekedData := []
  m_backlog := 0
  m_connectionQueue := 0
  nonBlocking := false
  open_ := true
  rx := rx
  blocked _ := none
  err _ := none
  handed := []
  received := rx
  returned := 0
  shut := false
  attempt := false

/-- All threads that use the socket. -/
def machine (T : Type*) [DecidableEq T] : Machine (World T) (Label T) where
  init w := ∃ connected rx, w = .start connected rx
  step w a := (respond w a).map Prod.fst

end Dce.UnixStream
