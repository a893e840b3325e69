import Dce.Readiness.Model

/- The calls on pipes, local sockets and timers that change what a poll finds: `pipe-fd.cc`, `local-socket-fd.cc`,
`local-stream-socket-fd.cc`, `local-datagram-socket-fd.cc` and `unix-timer-fd.cc`. -/

namespace Dce.Readiness

open Coroutine
open Binder (Path)
open LocalStream (Buffer How maxBuffer readData newLastTime waitResult)
open Pipe (FifoBuffer pipeCapacity)

variable {T β : Type*} [DecidableEq T]

/-- A call that goes into its `Wait`, or fails at once where its time is over. -/
def waitOn (t : T) (f : File) (mask : Events) (last : Option Nat) (frame : Frame β) (late : W T β → W T β)
    (w : W T β) : W T β :=
  if last.any fun last => last ≤ w.now then late w else sleepOn t f mask frame last w

/-- The loop of `DoRecvPacket` of the read side `p`, up to its `Wait`, and the rest of the `Write` of `f`. -/
def pipeWriteLoop (t : T) (f p : Nat) (buf : List β) (w : W T β) : W T β :=
  let s := w.shared.pipes p
  let r := s.m_buf.write buf
  if 0 < r.2 then
    (wakeWaiters POLLOUT (.pipe f) (wakeWaiters POLLIN (.pipe p) (setPipe p { s with m_buf := r.1 } w))).ret t
    (.done r.2)
  else
    match s.m_peer with
    | none => w.ret t .crashed
    | some q =>
      if (w.shared.pipes q).nonblock then fails t .EAGAIN (wakeWaiters POLLOUT (.pipe f) w)
      else sleepOn t (.pipe p) (POLLOUT ||| POLLHUP) (.pipeWrite f p buf) none w

/-- `Write`; a signal goes to the process where nobody reads. -/
def pipeWrite (t : T) (f : Nat) (buf : List β) (w : W T β) : W T β :=
  let s := w.shared.pipes f
  match s.m_peer with
  | some p => if s.m_readSide then fails t .EBADF w else pipeWriteLoop t f p buf w
  | none => fails t .EPIPE w

/-- What follows the `Wait` of `DoRecvPacket`; -1 is not 0 either. -/
def pipeWriteOn (t : T) (f p : Nat) (buf : List β) (interrupted : Bool) (w : W T β) : W T β :=
  let w := removeWaitQueue t (.pipe p) w
  if interrupted then fails t .EINTR (wakeWaiters POLLOUT (.pipe f) w) else pipeWriteLoop t f p buf w

/-- The loop of `Read`, up to its `Wait`. -/
def pipeReadLoop (t : T) (f count : Nat) (w : W T β) : W T β :=
  let s := w.shared.pipes f
  let r := s.m_buf.read count
  if 0 < r.2.length then
    let w := setPipe f { s with m_buf := r.1 } w
    let w := match s.m_peer with
      | some p => wakeWaiters POLLOUT (.pipe p) w
      | none => w
    (wakeWaiters POLLOUT (.pipe f) w).ret t (.done r.2.length)
  else if s.m_peer = none then fails t .EPIPE w
  else if s.nonblock then fails t .EAGAIN w
  else sleepOn t (.pipe f) readerMask (.pipeRead f count) none w

def pipeRead (t : T) (f count : Nat) (w : W T β) : W T β :=
  if (w.shared.pipes f).m_readSide then pipeReadLoop t f count w else fails t .EBADF w

def pipeReadOn (t : T) (f count : Nat) (interrupted : Bool) (w : W T β) : W T β :=
  let w := removeWaitQueue t (.pipe f) w
  if interrupted then fails t .EINTR w else pipeReadLoop t f count w

/-- `Close`; the peer of `p` is `f`, whose own `m_peer` is null when `p->Close ()` comes to it. -/
def pipeClose (t : T) (f : Nat) (w : W T β) : W T β :=
  match (w.shared.pipes f).m_peer with
  | none => fails t .EBADF w
  | some p =>
    let w := setPipe f { w.shared.pipes f with m_peer := none } w
    let w := match (w.shared.pipes p).m_peer with
      | none => setErr t .EBADF w
      | some _ => wakeWaiters POLLHUP (.pipe p)
          (setErr t .EBADF (setPipe p { w.shared.pipes p with m_peer := none } w))
    (wakeWaiters POLLHUP (.pipe f) w).ret t (.done 0)

def isClosed (n : Node T β) : Kind → Nat → Bool
  | .stream, a => (n.streams a).m_state = .CLOSED
  | .datagram, a => (n.datagrams a).m_state.IsClosed

/-- `DoRecvPacket` of the socket `a`. -/
def doRecvPacket (k : Kind) (a : Nat) (buf : List β) (w : W T β) : W T β × Int :=
  let s := w.shared.sockets k a
  if s.m_shutRead ∨ isClosed w.shared k a then (w, -2)
  else if maxBuffer ≤ s.m_readBufferSize then (w, 0)
  else
    let maxi := maxBuffer - s.m_readBufferSize
    let l := min maxi buf.length
    let s := { s with
      m_readBuffer := s.m_readBuffer ++ [⟨buf.take l, 0⟩], m_readBufferSize := s.m_readBufferSize + l }
    (wakeWaiters POLLIN (.socket k a) (setSocket k a s w), l)

/-- `ReadData` without `peek`, with the count. -/
def takeData (k : Kind) (a rest : Nat) (w : W T β) : W T β × Nat :=
  let s := w.shared.sockets k a
  let r := readData s.m_readBuffer rest
  (setSocket k a { s with m_readBuffer := r.1, m_readBufferSize := s.m_readBufferSize - r.2.length } w, r.2.length)

def clearReadBuffer (k : Kind) (a : Nat) (w : W T β) : W T β :=
  setSocket k a { w.shared.sockets k a with m_readBuffer := [], m_readBufferSize := 0 } w

def setStreamState (a : Nat) (state : LocalStream.State) (w : W T β) : W T β :=
  setStream a { w.shared.streams a with m_state := state } w

/-- A call that has something to show for it returns that. -/
def shortReturn (t : T) (err : Errno) (sofar : Nat) (w : W T β) : W T β :=
  if sofar = 0 then fails t err w else w.ret t (.done sofar)

def unRegisterBinder (k : Kind) (a : Nat) (w : W T β) : W T β :=
  match (w.shared.sockets k a).m_bindPath with
  | some path => setBinder path none w
  | none => w

def clearBindPath (k : Kind) (a : Nat) (w : W T β) : W T β :=
  setSocket k a { w.shared.sockets k a with m_bindPath := none } w

/-- The loop of `Write`, up to its `Wait`; `wq` is there once the call has waited. -/
def writeLoop (t : T) (a tot : Nat) (rest : List β) (wq : Option (Option Nat)) (w : W T β) : W T β :=
  match (w.shared.streams a).m_peer with
  | none => w.ret t .crashed
  | some p =>
    let received := doRecvPacket .stream p rest w
    let w := received.1
    let lg := received.2
    if lg = 0 then
      if (w.shared.sockets .stream a).nonblock then fails t .EAGAIN w
      else
        let last := wq.getD (newLastTime (w.shared.sockets .stream a).m_sendTimeout w.now)
        waitOn t (.socket .stream a) writerMask last (.write a tot rest last) (shortReturn t .EAGAIN tot) w
    else if 0 < lg then
      if lg.toNat < rest.length ∧ (w.shared.streams a).m_state = .CONNECTED then
        writeLoop t a (tot + lg.toNat) (rest.drop lg.toNat) wq w
      else w.ret t (.done (tot + lg.toNat))
    else shortReturn t .EPIPE tot w
termination_by rest.length
decreasing_by
  simp +zetaDelta only [List.length_drop] at *
  omega

def write (t : T) (a : Nat) (buf : List β) (w : W T β) : W T β :=
  if (w.shared.streams a).m_state ≠ .CONNECTED then
    if (w.shared.streams a).m_state = .REMOTECLOSED then w.ret t (.done 0) else fails t .ENOTCONN w
  else if (w.shared.sockets .stream a).m_shutWrite then fails t .EPIPE w
  else writeLoop t a 0 buf none w

def writeOn (t : T) (a tot : Nat) (rest : List β) (last : Option Nat) (interrupted : Bool) (w : W T β) : W T β :=
  let w := removeWaitQueue t (.socket .stream a) w
  match waitResult interrupted last w.now with
  | .OK =>
    if 0 < rest.length ∧ (w.shared.streams a).m_state = .CONNECTED then writeLoop t a tot rest (some last) w
    else if tot = 0 ∧ (w.shared.streams a).m_state ≠ .CONNECTED then fails t .EPIPE w
    else w.ret t (.done tot)
  | .INTERRUPTED => shortReturn t .EINTR tot w
  | .TIMEOUT => shortReturn t .EAGAIN tot w

/-- The condition of the loop of `Read`, without the count. -/
def Readable (n : Node T β) (a : Nat) : Prop :=
  (n.streams a).m_state = .CONNECTED ∨ ((n.streams a).m_state = .REMOTECLOSED ∧
    0 < (n.sockets .stream a).m_readBufferSize)

instance (n : Node T β) (a : Nat) : Decidable (Readable n a) := by unfold Readable; infer_instance

/-- The loop of `Read`, up to its `Wait`. -/
def readLoop (t : T) (a filled rest : Nat) (wq : Option (Option Nat)) (w : W T β) : W T β :=
  if 0 < rest ∧ Readable w.shared a then
    let taken := takeData .stream a rest w
    let w := taken.1
    let lg := taken.2
    if lg = 0 then
      if (w.shared.sockets .stream a).nonblock then shortReturn t .EAGAIN filled w
      else if (w.shared.streams a).m_peer.any fun p => (w.shared.sockets .stream p).m_shutWrite
        then w.ret t (.done 0)
      else
        let last := wq.getD (newLastTime (w.shared.sockets .stream a).m_recvTimeout w.now)
        waitOn t (.socket .stream a) readerMask last (.read a filled rest last) (shortReturn t .EAGAIN filled) w
    else
      let w := match (w.shared.streams a).m_peer with
        | some p => wakeWaiters POLLOUT (.socket .stream p) w
        | none => w
      readLoop t a (filled + lg) (rest - lg) wq w
  else w.ret t (.done filled)
termination_by rest
decreasing_by
  simp +zetaDelta only at *
  omega

def read (t : T) (a count : Nat) (w : W T β) : W T β :=
  if (w.shared.streams a).m_state ≠ .CONNECTED ∧ (w.shared.streams a).m_state ≠ .REMOTECLOSED then fails t .EINVAL w
  else readLoop t a 0 count none w

def readOn (t : T) (a filled rest : Nat) (last : Option Nat) (interrupted : Bool) (w : W T β) : W T β :=
  let w := removeWaitQueue t (.socket .stream a) w
  match waitResult interrupted last w.now with
  | .OK => readLoop t a filled rest (some last) w
  | .INTERRUPTED => shortReturn t .EINTR filled w
  | .TIMEOUT => shortReturn t .EAGAIN filled w

def streamBind (t : T) (a : Nat) (unix : Bool) (path : Path) (host : Option Nat) (w : W T β) : W T β :=
  if unix = false then fails t .EINVAL w
  else if (w.shared.streams a).m_state ≠ .CREATED then w.ret t (.done (-1))
  else
    match host with
    | none =>
      let w := setSocket .stream a { w.shared.sockets .stream a with m_bindPath := some path }
        (setStreamState a .BINDED w)
      (setBinder path (some (.stream, a)) w).ret t (.done 0)
    | some errno => fails t (.host errno) w

def streamListen (t : T) (a : Nat) (w : W T β) : W T β :=
  if (w.shared.streams a).m_state ≠ .BINDED then fails t .EINVAL w
  else
    let w := setStreamState a .LISTENING w
    match (w.shared.sockets .stream a).m_bindPath with
    | some path => (setBinder path (some (.stream, a)) w).ret t (.done 0)
    | none => w.ret t (.done 0)

/-- `ConnectionCreated` of the listener `l` -/
def connectionCreated (l a : Nat) (w : W T β) : W T β :=
  let s := w.shared.streams l
  wakeWaiters POLLIN (.socket .stream l) (setStream l { s with m_cnxQueue := s.m_cnxQueue ++ [a] } w)

/-- `FindBinder`, and whether what it finds is of this class. -/
def findBinder (k : Kind) (path : Path) (n : Node T β) : Option Nat :=
  (n.m_bindByPath path).bind fun x => if x.1 = k then some x.2 else none

def streamConnect (t : T) (a : Nat) (path : Path) (w : W T β) : W T β :=
  if (w.shared.streams a).m_factory = false then fails t .EINVAL w
  else
    match findBinder .stream path w.shared with
    | none => fails t .ENOENT w
    | some l =>
      let listener := (w.shared.streams l).m_state
      if listener ≠ .ACCEPTING ∧ listener ≠ .LISTENING then w.ret t (.done (-1))
      else if listener ≠ .ACCEPTING ∧ (w.shared.sockets .stream a).nonblock then fails t .EAGAIN w
      else
        let w := setStreamState a .CONNECTING w
        let last := newLastTime (w.shared.sockets .stream a).m_recvTimeout w.now
        let w := connectionCreated l a (addWaitQueue t readerMask (.socket .stream a) w)
        match last with
        | some last => w.sleepUntil t (.connect a l (some last)) last
        | none => w.sleep t (.connect a l none)

/-- What follows the `Wait` of `Connect`. -/
def connectOn (t : T) (a l : Nat) (w : W T β) : W T β :=
  let w := removeWaitQueue t (.socket .stream a) w
  if (w.shared.streams a).m_state = .CONNECTED ∨ (w.shared.streams a).m_state = .REMOTECLOSED then w.ret t (.done 0)
  else
    let s := w.shared.streams l
    fails t .EAGAIN (setStream l { s with m_cnxQueue := s.m_cnxQueue.filter (· ≠ a) } w)

/-- `PeerClosed` of the socket `a` -/
def peerClosed (a : Nat) (w : W T β) : W T β :=
  let s := w.shared.streams a
  if s.m_state = .CONNECTED then
    wakeWaiters POLLHUP (.socket .stream a) (setStream a { s with m_peer := none, m_state := .REMOTECLOSED } w)
  else setStream a { s with m_peer := none } w

/-- `ClearAll` -/
def streamClearAll (a : Nat) (andWakeUp : Bool) (w : W T β) : W T β :=
  let w := setStream a ⟨.CLOSED, none, false, []⟩ w
  let w := clearReadBuffer .stream a (clearBindPath .stream a w)
  if andWakeUp then wakeWaiters POLLHUP (.socket .stream a) w else w

/-- `Close`, without its return; `none` is the use of a null pointer. -/
def streamClose (a : Nat) (w : W T β) : Option (W T β) :=
  let s := w.shared.streams a
  match s.m_state with
  | .CREATED => some (streamClearAll a false w)
  | .BINDED | .LISTENING | .ACCEPTING =>
    if s.m_factory then
      some (streamClearAll a (s.m_state = .ACCEPTING) (clearBindPath .stream a (unRegisterBinder .stream a w)))
    else none
  | .CONNECTING => some (streamClearAll a true w)
  | .CONNECTED => s.m_peer.map fun p => streamClearAll a true (peerClosed p w)
  | .REMOTECLOSED => some (streamClearAll a false w)
  | .CLOSED => some w

/-- The join of the connecting socket `first` with a new one: `InternalConnect`, the constructor and `SetPeer`. -/
def join (a first : Nat) (w : W T β) : W T β :=
  let socket := w.shared.fresh
  let w := wakeWaiters (POLLIN ||| POLLOUT) (.socket .stream first) (setStreamState first .CONNECTED w)
  let w := setStream socket ⟨.CONNECTED, some first, false, []⟩ w
  let w := setSocket .stream socket ⟨[], 0, 0, 0, (w.shared.sockets .stream a).m_bindPath, false, false, false⟩ w
  let w := setStream first { w.shared.streams first with m_peer := some socket } w
  { w with shared := { w.shared with fresh := w.shared.fresh + 1 } }

/-- The second loop of `Accept`, over the queue. -/
def acceptLoop (t : T) (a : Nat) (noFd : Bool) : List Nat → W T β → W T β
  | [], w => w.ret t (.done (-1))
  | first :: m_cnxQueue, w =>
    let w := setStream a { w.shared.streams a with m_cnxQueue := m_cnxQueue } w
    if noFd then
      match streamClose first w with
      | some w => fails t .EMFILE w
      | none => w.ret t .crashed
    else if (w.shared.streams first).m_state = .CONNECTING then (join a first w).ret t (.done w.shared.fresh)
    else acceptLoop t a noFd m_cnxQueue w

/-- The first loop of `Accept`, up to its `Wait`. -/
def acceptFirst (t : T) (a : Nat) (noFd : Bool) (wq : Option (Option Nat)) (w : W T β) : W T β :=
  if (w.shared.streams a).m_cnxQueue = [] then
    if (w.shared.sockets .stream a).nonblock then fails t .EAGAIN w
    else
      let w := setStreamState a .ACCEPTING w
      let last := wq.getD (newLastTime (w.shared.sockets .stream a).m_recvTimeout w.now)
      waitOn t (.socket .stream a) readerMask last (.accept a last) (fails t .EAGAIN) w
  else
    let w := setStreamState a .LISTENING w
    acceptLoop t a noFd (w.shared.streams a).m_cnxQueue w

def accept (t : T) (a : Nat) (noFd : Bool) (w : W T β) : W T β :=
  if (w.shared.streams a).m_state ≠ .LISTENING then fails t .EINVAL w else acceptFirst t a noFd none w

def acceptOn (t : T) (a : Nat) (last : Option Nat) (e : Answer) (w : W T β) : W T β :=
  let w := removeWaitQueue t (.socket .stream a) w
  match waitResult e.interrupted last w.now with
  | .OK => acceptFirst t a e.noFd (some last) w
  | .INTERRUPTED => fails t .EINTR w
  | .TIMEOUT => fails t .EAGAIN w

/-- What `Shutdown` sets. -/
def shut (k : Kind) (a : Nat) (how : How) (w : W T β) : W T β :=
  let s := w.shared.sockets k a
  match how with
  | .SHUT_RD => setSocket k a { s with m_shutRead := true } w
  | .SHUT_WR => setSocket k a { s with m_shutWrite := true } w
  | .SHUT_RDWR => setSocket k a { s with m_shutWrite := true, m_shutRead := true } w

def streamShutdown (t : T) (a : Nat) (how : How) (w : W T β) : W T β :=
  if (w.shared.streams a).m_state ≠ .CONNECTED ∧ (w.shared.streams a).m_state ≠ .REMOTECLOSED
    then fails t .ENOTCONN w
  else (shut .stream a how w).ret t (.done 0)

section

open Datagram (peekData)

def datagramWrite (t : T) (a : Nat) (buf : List β) (w : W T β) : W T β :=
  let s := w.shared.datagrams a
  if s.m_state ≠ .CONNECTED then fails t (if s.m_state = .REMOTECLOSED then .ECONNREFUSED else .ENOTCONN) w
  else
    match s.m_peer with
    | none => fails t .EPIPE w
    | some peer =>
      if (w.shared.datagrams peer).m_state ≠ .BINDED then fails t .EPIPE w
      else
        let received := doRecvPacket .datagram peer buf w
        if received.2 = -2 then fails t .EPIPE received.1 else received.1.ret t (.done received.2)

/-- The loop of `Sendmsg` to `l`, up to its `Wait`. -/
def sendLoop (t : T) (a l : Nat) (dontwait : Bool) : List (List β) → Int → Option (Option Nat) → W T β → W T β
  | [], retval, _, w => w.ret t (.done retval)
  | buf :: iovs, retval, wq, w =>
    if (w.shared.datagrams a).m_state.IsClosed then sendLoop t a l dontwait iovs retval wq w
    else
      let received := doRecvPacket .datagram l buf w
      let w := received.1
      if received.2 = 0 then
        if dontwait then fails t .EAGAIN w
        else
          let last := wq.getD (newLastTime (w.shared.sockets .datagram a).m_sendTimeout w.now)
          waitOn t (.socket .datagram a) writerMask last (.send a l (buf :: iovs) retval last) (fails t .EAGAIN) w
      else if 0 < received.2 then sendLoop t a l dontwait iovs (retval + received.2) wq w
      else fails t .ECONNREFUSED w

def sendOn (t : T) (a l : Nat) (iovs : List (List β)) (retval : Int) (last : Option Nat) (interrupted : Bool)
    (w : W T β) : W T β :=
  let w := removeWaitQueue t (.socket .datagram a) w
  match waitResult interrupted last w.now with
  | .OK =>
    if (w.shared.datagrams a).m_state.IsClosed then fails t .ECONNREFUSED w
    else sendLoop t a l false iovs retval (some last) w
  | .INTERRUPTED => fails t .EINTR w
  | .TIMEOUT => fails t .EAGAIN w

/-- `Sendmsg` finds out who listens. -/
def sendTo (t : T) (a : Nat) (iovs : List (List β)) (dontwait : Bool) (listener : Option Nat) (w : W T β) : W T β :=
  match listener with
  | none => fails t .EACCES w
  | some l => sendLoop t a l dontwait iovs 0 none w

def sendmsg (t : T) (a : Nat) (name : Option Path) (iovs : List (List β)) (dontwait : Bool) (w : W T β) : W T β :=
  match (w.shared.datagrams a).m_state with
  | .CONNECTED => sendTo t a iovs dontwait (w.shared.datagrams a).m_peer w
  | .CREATED =>
    match name with
    | none => fails t .EINVAL w
    | some path => sendTo t a iovs dontwait (findBinder .datagram path w.shared) w
  | .REMOTECLOSED => fails t .ECONNREFUSED w
  | _ => fails t .ENOTCONN w

/-- `Read`, up to its `Wait`. -/
def recvLoop (t : T) (a count : Nat) (noWait peek : Bool) (wq : Option (Option Nat)) (w : W T β) : W T β :=
  let s := w.shared.sockets .datagram a
  if (w.shared.datagrams a).m_state ≠ .BINDED then fails t .ENOTCONN w
  else if 0 < s.m_readBuffer.length then
    if peek then
      let ret := (peekData s.m_readBuffer count).length
      let w := match (w.shared.datagrams a).m_peer with
        | some peer => if 0 < ret then wakeWaiters POLLOUT (.socket .datagram peer) w else w
        | none => w
      w.ret t (.done ret)
    else
      let taken := takeData .datagram a count w
      let w := match (w.shared.datagrams a).m_peer with
        | some peer => if 0 < taken.2 then wakeWaiters POLLOUT (.socket .datagram peer) taken.1 else taken.1
        | none => taken.1
      w.ret t (.done taken.2)
  else if noWait ∨ s.m_shutRead then w.ret t (.done 0)
  else if s.nonblock then fails t .EAGAIN w
  else
    let last := wq.getD (newLastTime s.m_recvTimeout w.now)
    waitOn t (.socket .datagram a) readerMask last (.recv a count peek last) (fails t .EAGAIN) w

/-- What follows the `Wait` of `Read`, where `noWait` was not set. -/
def recvOn (t : T) (a count : Nat) (peek : Bool) (last : Option Nat) (interrupted : Bool) (w : W T β) : W T β :=
  let w := removeWaitQueue t (.socket .datagram a) w
  match waitResult interrupted last w.now with
  | .OK => recvLoop t a count false peek (some last) w
  | .INTERRUPTED =>
    if 0 = (w.shared.sockets .datagram a).m_readBuffer.length then fails t .EINTR w
    else recvLoop t a count false peek (some last) w
  | .TIMEOUT =>
    if 0 = (w.shared.sockets .datagram a).m_readBuffer.length then fails t .EAGAIN w
    else recvLoop t a count false peek (some last) w

def datagramBind (t : T) (a : Nat) (unix : Bool) (path : Path) (host : Option Nat) (w : W T β) : W T β :=
  let s := w.shared.datagrams a
  if unix = false then fails t .EINVAL w
  else if s.m_state ≠ .CREATED then w.ret t (.done (-1))
  else
    match host with
    | none =>
      let w := setSocket .datagram a { w.shared.sockets .datagram a with m_bindPath := some path }
        (setDatagram a { s with m_state := .BINDED } w)
      (setBinder path (some (.datagram, a)) w).ret t (.done 0)
    | some errno => fails t (.host errno) w

/-- `AddConnected` of the socket `l`: `std::set::insert`. -/
def addConnected (l a : Nat) (w : W T β) : W T β :=
  let s := w.shared.datagrams l
  setDatagram l { s with m_myPeers := if a ∈ s.m_myPeers then s.m_myPeers else s.m_myPeers ++ [a] } w

def datagramConnect (t : T) (a : Nat) (path : Path) (w : W T β) : W T β :=
  let s := w.shared.datagrams a
  match s.m_state with
  | .BINDED => fails t .EADDRINUSE w
  | .CONNECTED => fails t .EISCONN w
  | _ =>
    match findBinder .datagram path w.shared with
    | some l =>
      if (w.shared.datagrams l).m_state ≠ .BINDED then fails t .ECONNREFUSED w
      else (addConnected l a (setDatagram a { s with m_state := .CONNECTED, m_peer := some l } w)).ret t (.done 0)
    | none => fails t .ECONNREFUSED w

def datagramShutdown (t : T) (a : Nat) (how : How) (w : W T β) : W T β :=
  if (w.shared.datagrams a).m_state = .CLOSED then fails t .EPIPE w else (shut .datagram a how w).ret t (.done 0)

def hangUp (andWakeUp : Bool) (a : Nat) (w : W T β) : W T β :=
  if andWakeUp then wakeWaiters POLLHUP (.socket .datagram a) w else w

/-- `RemoveConnected` of the socket `p` -/
def removeConnected (freeOne : Nat) (andWakeUp : Bool) (p : Nat) (w : W T β) : W T β :=
  let s := w.shared.datagrams p
  match s.m_state with
  | .BINDED => hangUp andWakeUp p (setDatagram p { s with m_myPeers := s.m_myPeers.erase freeOne } w)
  | .CONNECTED => hangUp andWakeUp p (setDatagram p { s with m_peer := none, m_state := .REMOTECLOSED } w)
  | _ => w

/-- What `ClearAll` does for `m_peer`, and what it does for the `m_myPeers`. -/
def clearPeer (a : Nat) (andWakeUp : Bool) (w : W T β) : W T β :=
  let s := w.shared.datagrams a
  match s.m_peer with
  | some freeOne => removeConnected a andWakeUp freeOne (setDatagram a { s with m_peer := none } w)
  | none => w

def clearMyPeers (a : Nat) (andWakeUp : Bool) (w : W T β) : W T β :=
  let s := w.shared.datagrams a
  s.m_myPeers.foldl (fun w i => removeConnected a andWakeUp i w) (setDatagram a { s with m_myPeers := [] } w)

/-- `Close` -/
def datagramClose (a : Nat) (w : W T β) : W T β :=
  let s := w.shared.datagrams a
  let andWakeUp : Bool := s.m_state = .CONNECTED ∨ s.m_state = .BINDED
  let w := clearMyPeers a andWakeUp (clearPeer a andWakeUp (setDatagram a { s with m_state := .CLOSED } w))
  let w := clearBindPath .datagram a (unRegisterBinder .datagram a w)
  hangUp andWakeUp a (clearReadBuffer .datagram a w)

end

/-- `Wakeup` of a thread that sleeps. -/
def wakeWaiter (s : UnixTimerFd T) (w : W T β) : W T β :=
  match s.m_waiter with
  | some u => w.wake u
  | none => w

def readTimer (t : T) (a count : Nat) (w : W T β) : W T β :=
  let s := w.shared.timers a
  if count < 8 then fails t .EINVAL w
  else if 0 < s.m_skipped then (setTimer a { s with m_skipped := 0 } w).ret t (.done 0)
  else (setTimer a { s with m_waiter := some t } w).sleep t (.readTimer a count)

def readTimerOn (t : T) (a : Nat) (w : W T β) : W T β := (setTimer a ⟨none, 0⟩ w).ret t (.done 0)

def timerExpired (a : Nat) (w : W T β) : W T β :=
  let s := w.shared.timers a
  wakeWaiter s (setTimer a { s with m_skipped := s.m_skipped + 1 } w)

/-- The files whose descriptors a call looks up itself. -/
def Op.files : Op β → List File
  | .write f _ | .read f _ | .bind f _ _ _ | .listen f | .connect f _ | .accept f _
  | .shutdown f _ | .close f | .setfl f _ => [f]
  | .recv a _ _ _ | .send a _ _ _ => [.socket .datagram a]
  | .setTimeouts k a _ _ => [.socket k a]
  | .settime a | .expired a => [.timer a]
  | .poll _ _ | .unlink _ _ => []

/-- The descriptors are there; `dce_close` takes one that is closed already as well. -/
def Op.Finds (n : Node T β) : Op β → Prop
  | .close f => Made n f
  | op => ∀ f ∈ op.files, Open n f

instance (n : Node T β) (op : Op β) : Decidable (op.Finds n) := by
  unfold Op.Finds
  split <;> infer_instance

def callBind (t : T) (unix : Bool) (path : Path) (host : Option Nat) (w : W T β) : File → W T β
  | .socket .stream a => streamBind t a unix path host w
  | .socket .datagram a => datagramBind t a unix path host w
  | _ => fails t .ENOTSOCK w

def callListen (t : T) (w : W T β) : File → W T β
  | .socket .stream a => streamListen t a w
  | .socket .datagram _ => fails t .EOPNOTSUPP w
  | _ => fails t .ENOTSOCK w

def callConnect (t : T) (path : Path) (w : W T β) : File → W T β
  | .socket .stream a => streamConnect t a path w
  | .socket .datagram a => datagramConnect t a path w
  | _ => fails t .ENOTSOCK w

def callAccept (t : T) (noFd : Bool) (w : W T β) : File → W T β
  | .socket .stream a => accept t a noFd w
  | .socket .datagram _ => fails t .EOPNOTSUPP w
  | _ => fails t .ENOTSOCK w

def callShutdown (t : T) (how : How) (w : W T β) : File → W T β
  | .socket .stream a => streamShutdown t a how w
  | .socket .datagram a => datagramShutdown t a how w
  | _ => fails t .ENOTSOCK w

def callWrite (t : T) (buf : List β) (w : W T β) : File → W T β
  | .pipe a => pipeWrite t a buf w
  | .socket .stream a => write t a buf w
  | .socket .datagram a => datagramWrite t a buf w
  | .timer _ => fails t .EINVAL w

def callRead (t : T) (count : Nat) (w : W T β) : File → W T β
  | .pipe a => pipeRead t a count w
  | .socket .stream a => read t a count w
  | .socket .datagram a => recvLoop t a count false false none w
  | .timer a => readTimer t a count w

/-- `Close ()` -/
def closeFile (t : T) (w : W T β) : File → W T β
  | .pipe a => pipeClose t a w
  | .socket .stream a =>
    match streamClose a w with
    | some w => w.ret t (.done 0)
    | none => w.ret t .crashed
  | .socket .datagram a => (datagramClose a w).ret t (.done 0)
  | .timer a => (wakeWaiter (w.shared.timers a) w).ret t (.done 0)

def setClosing (f : File) (w : W T β) : W T β :=
  { w with shared := { w.shared with m_closing := Function.update w.shared.m_closing f true } }

/-- `Fcntl (F_SETFL)` -/
def callSetfl (t : T) (nonblock : Bool) (w : W T β) : File → W T β
  | .pipe a => (setPipe a { w.shared.pipes a with nonblock := nonblock } w).ret t (.done 0)
  | .socket k a => (setSocket k a { w.shared.sockets k a with nonblock := nonblock } w).ret t (.done 0)
  | .timer _ => w.ret t (.done 0)

def call (t : T) (op : Op β) (w : W T β) : W T β :=
  match op with
  | .poll fds timeout => dcePoll t fds timeout w
  | .write f buf => callWrite t buf w f
  | .read f count => callRead t count w f
  | .recv a count noWait peek => recvLoop t a count noWait peek none w
  | .send a name iovs dontwait => sendmsg t a name iovs dontwait w
  | .bind f unix path host => callBind t unix path host w f
  | .listen f => callListen t w f
  | .connect f path => callConnect t path w f
  | .accept f noFd => callAccept t noFd w f
  | .shutdown f how => callShutdown t how w f
  | .close f => setClosing f (closeFile t w f)
  -- `UnlinkNotify`, where the host has unlinked the path
  | .unlink path ok => if ok then (setBinder path none w).ret t (.done 0) else w.ret t (.done (-1))
  | .setfl f nonblock => callSetfl t nonblock w f
  | .setTimeouts k a send recv =>
    (setSocket k a { w.shared.sockets k a with m_sendTimeout := send, m_recvTimeout := recv } w).ret t (.done 0)
  | .settime a => (setTimer a { w.shared.timers a with m_skipped := 0 } w).ret t (.done 0)
  | .expired a => (timerExpired a w).ret t (.done 0)

def enter (t : T) (op : Op β) (w : W T β) : W T β :=
  if op.Finds w.shared then call t op w else fails t .EBADF w

/-- Control is back with a thread in its wait. -/
def resume (t : T) (frame : Frame β) (e : Answer) (w : W T β) : W T β :=
  match frame with
  | .poll fds endtime => pollOn t fds endtime w
  | .pipeWrite f p buf => pipeWriteOn t f p buf e.interrupted w
  | .pipeRead f count => pipeReadOn t f count e.interrupted w
  | .write a tot rest last => writeOn t a tot rest last e.interrupted w
  | .read a filled rest last => readOn t a filled rest last e.interrupted w
  | .accept a last => acceptOn t a last e w
  | .connect a l _ => connectOn t a l w
  | .send a l iovs retval last => sendOn t a l iovs retval last e.interrupted w
  | .recv a count peek last => recvOn t a count peek last e.interrupted w
  | .readTimer a _ => readTimerOn t a w

/-- The constructors' values; the two sides of a pipe are each other's peers. -/
structure Node.New (n : Node T β) : Prop where
  pipe : ∀ a, (n.pipes a).m_buf = .new pipeCapacity β
  paired : ∀ a p, (n.pipes a).m_peer = some p → (n.pipes p).m_peer = some a ∧
    (n.pipes p).m_readSide = !(n.pipes a).m_readSide
  socket : ∀ k a, n.sockets k a = ⟨[], 0, 0, 0, none, false, false, false⟩
  stream : ∀ a, n.streams a = ⟨.CREATED, none, true, []⟩
  datagram : ∀ a, n.datagrams a = ⟨.CREATED, none, []⟩
  timer : ∀ a, n.timers a = ⟨none, 0⟩
  queue : ∀ f, n.m_waitQueueList f = []
  opened : ∀ f, n.m_closing f = false
  binder : ∀ path, n.m_bindByPath path = none

def program (T β : Type*) [DecidableEq T] : Program T (Frame β) Result (Node T β) (Op β) Answer where
  start := Node.New
  enter := enter
  resume := resume

def machine (T β : Type*) [DecidableEq T] : Machine (W T β) (Act T (Op β) Answer) := (program T β).machine

end Dce.Readiness
