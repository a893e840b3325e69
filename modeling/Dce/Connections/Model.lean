import Dce.Binder.Model

/- The local stream sockets of a node with the links between them, from `socket` to the end of their processes:
`local-stream-socket-fd.cc` with `dce_close`, `DeleteProcess` and `DceManager::Stop` around it. Each socket has one
descriptor, and what a connected pair sends is left out. -/

namespace Dce.Connections

open Binder (Path)
open LocalStream (State How)

inductive Errno
  | EINVAL | EAGAIN | EINTR | EMFILE | ENOENT | ENOTCONN
  deriving DecidableEq, Repr

/-- `m_waitQueue` are the threads of `m_waitQueueList`: those in a `Wait` of the socket, and so between two steps the
ones that use its descriptor. `m_closing` is that of the descriptor, and `process` the one that has it. -/
structure LocalStreamSocketFd (T P : Type*) where
  m_state : State
  m_peer : Option Nat
  m_factory : Bool
  m_bindPath : Option Path
  m_cnxQueue : List Nat
  m_shutRead : Bool
  m_shutWrite : Bool
  nonblock : Bool
  m_waitQueue : List T
  m_closing : Bool
  process : P
  deriving DecidableEq, Repr

/-- The `Wait` in the `Connect` of a socket to a listener, and that in `Accept`. -/
inductive Frame
  | connect (c l : Nat)
  | accept (l : Nat)
  deriving DecidableEq, Repr

/-- The socket at which the thread waits. -/
def Frame.socket : Frame → Nat
  | .connect c _ => c
  | .accept l => l

/-- `ret` is what its last call has returned; a new socket stands for its descriptor. -/
structure Thread (P : Type*) where
  process : P
  alive : Bool
  frame : Option Frame
  woken : Bool
  err : Option Errno
  ret : Option Int
  deriving DecidableEq, Repr

/-- A socket that has been freed is `none`, and `undefined` is set once a pointer to one was used, or a null
pointer. -/
structure Node (T P : Type*) where
  sockets : Nat → Option (LocalStreamSocketFd T P)
  threads : T → Thread P
  m_bindByPath : Path → Option Nat
  fresh : Nat
  undefined : Bool

variable {T P : Type*} [DecidableEq T] [DecidableEq P]

def crash (n : Node T P) : Node T P := { n with undefined := true }

def put (s : Nat) (x : LocalStreamSocketFd T P) (n : Node T P) : Node T P :=
  { n with sockets := Function.update n.sockets s (some x) }

def free (s : Nat) (n : Node T P) : Node T P := { n with sockets := Function.update n.sockets s none }

/-- An assignment through a pointer to the socket. -/
def access (s : Nat) (f : LocalStreamSocketFd T P → LocalStreamSocketFd T P) (n : Node T P) : Node T P :=
  match n.sockets s with
  | some x => put s (f x) n
  | none => crash n

def setThread (t : T) (thread : Thread P) (n : Node T P) : Node T P :=
  { n with threads := Function.update n.threads t thread }

def setBinder (path : Path) (socket : Option Nat) (n : Node T P) : Node T P :=
  { n with m_bindByPath := Function.update n.m_bindByPath path socket }

/-- The keys that the sockets use meet the masks of all that wait at them. -/
def WakeWaiters (s : Nat) (n : Node T P) : Node T P :=
  { n with threads := fun t =>
      if (n.sockets s).any (t ∈ ·.m_waitQueue) then { n.threads t with woken := true } else n.threads t }

def ret (t : T) (value : Int) (n : Node T P) : Node T P := setThread t { n.threads t with ret := some value } n

def fails (t : T) (err : Errno) (n : Node T P) : Node T P :=
  setThread t { n.threads t with ret := some (-1), err := some err } n

/-- `AddWaitQueue` and the sleep of a `Wait`. -/
def sleep (t : T) (frame : Frame) (n : Node T P) : Node T P :=
  setThread t { n.threads t with frame := some frame, woken := false }
    (access frame.socket (fun x => { x with m_waitQueue := x.m_waitQueue ++ [t] }) n)

/-- Control is back: `RemoveWaitQueue`. -/
def awake (t : T) (s : Nat) (n : Node T P) : Node T P :=
  setThread t { n.threads t with frame := none, woken := false }
    (access s (fun x => { x with m_waitQueue := x.m_waitQueue.filter (· ≠ t) }) n)

/-- A call on the descriptor is over: the last one frees what was closed meanwhile. -/
def DecUsage (s : Nat) (n : Node T P) : Node T P :=
  match n.sockets s with
  | some x => if x.m_closing ∧ x.m_waitQueue = [] then free s n else n
  | none => n

/-- What `ClearAll` leaves of a socket. -/
def cleared (x : LocalStreamSocketFd T P) : LocalStreamSocketFd T P :=
  { x with m_state := .CLOSED, m_peer := none, m_factory := false, m_bindPath := none, m_cnxQueue := [] }

def ClearAll (s : Nat) (andWakeUp : Bool) (n : Node T P) : Node T P :=
  if andWakeUp then WakeWaiters s (access s cleared n) else access s cleared n

def PeerClosed (s : Nat) (n : Node T P) : Node T P :=
  match n.sockets s with
  | some x =>
    if x.m_state = .CONNECTED then WakeWaiters s (put s { x with m_peer := none, m_state := .REMOTECLOSED } n)
    else put s { x with m_peer := none } n
  | none => crash n

def UnRegisterBinder (path : Option Path) (n : Node T P) : Node T P :=
  match path with
  | some path => setBinder path none n
  | none => n

def Close (s : Nat) (n : Node T P) : Node T P :=
  match n.sockets s with
  | none => crash n
  | some x =>
    match x.m_state with
    | .CREATED | .REMOTECLOSED => ClearAll s false n
    | .BINDED | .LISTENING | .ACCEPTING =>
      if x.m_factory then ClearAll s (x.m_state = .ACCEPTING) (UnRegisterBinder x.m_bindPath n) else crash n
    | .CONNECTING => ClearAll s true n
    | .CONNECTED =>
      match x.m_peer with
      | some peer => ClearAll s true (PeerClosed peer n)
      | none => crash n
    | .CLOSED => n

def dce_close (t : T) (s : Nat) (n : Node T P) : Node T P :=
  let n := ret t 0 (Close s n)
  match n.sockets s with
  | some x => if x.m_waitQueue = [] then free s n else put s { x with m_closing := true } n
  | none => n

/-- The threads of a process are gone. -/
def killThreads (p : P) (n : Node T P) : Node T P :=
  { n with threads := fun t =>
      if (n.threads t).process = p then { n.threads t with frame := none, alive := false } else n.threads t }

/-- `CleanupThread`: the threads of a process are in the wait queues of its own sockets. -/
def cleanup (p : P) (x : LocalStreamSocketFd T P) : LocalStreamSocketFd T P :=
  if x.process = p then { x with m_waitQueue := [] } else x

/-- The descriptors of the process are closed one after the other. -/
def exit (p : P) (openFiles : List Nat) (n : Node T P) : Node T P :=
  openFiles.foldl (fun n s => free s (Close s n)) { killThreads p n with
    sockets := fun s => (n.sockets s).map (cleanup p) }

/-- The destructors of the sockets, which nothing closes before. -/
def Stop (p : P) (n : Node T P) : Node T P :=
  { killThreads p n with sockets := fun s => (n.sockets s).filter fun x => x.process ≠ p }

def dce_socket (t : T) (n : Node T P) : Node T P :=
  ret t n.fresh { put n.fresh ⟨.CREATED, none, true, none, [], false, false, false, [], false,
    (n.threads t).process⟩ n with
      fresh := n.fresh + 1 }

/-- `ok` says that the host binds a socket of its own to the path. -/
def Bind (t : T) (s : Nat) (path : Path) (ok : Bool) (x : LocalStreamSocketFd T P) (n : Node T P) : Node T P :=
  if x.m_state ≠ .CREATED ∨ ok = false then ret t (-1) n
  else ret t 0 (setBinder path (some s) (put s { x with m_state := .BINDED, m_bindPath := some path } n))

def Listen (t : T) (s : Nat) (x : LocalStreamSocketFd T P) (n : Node T P) : Node T P :=
  if x.m_state ≠ .BINDED then fails t .EINVAL n
  else
    let n := put s { x with m_state := .LISTENING } n
    ret t 0 (match x.m_bindPath with
      | some path => setBinder path (some s) n
      | none => n)

def ConnectionCreated (l sock : Nat) (n : Node T P) : Node T P :=
  WakeWaiters l (access l (fun y => { y with m_cnxQueue := y.m_cnxQueue ++ [sock] }) n)

/-- A connect to `y`, which the binder has found, goes on to its `Wait`. -/
def Proceeds (x y : LocalStreamSocketFd T P) : Prop :=
  y.m_state = .ACCEPTING ∨ y.m_state = .LISTENING ∧ x.nonblock = false

instance (x y : LocalStreamSocketFd T P) : Decidable (Proceeds x y) := inferInstanceAs (Decidable (_ ∨ _))

/-- Nothing wakes the thread between its `AddWaitQueue` and its `Wait`. -/
def Connect (t : T) (c : Nat) (path : Path) (x : LocalStreamSocketFd T P) (n : Node T P) : Node T P :=
  if x.m_factory = false then fails t .EINVAL n
  else
    match n.m_bindByPath path with
    | none => fails t .ENOENT n
    | some l =>
      match n.sockets l with
      | none => crash n
      | some y =>
        if Proceeds x y then sleep t (.connect c l)
          (ConnectionCreated l c (put c { x with m_state := .CONNECTING } n))
        else if y.m_state = .LISTENING then fails t .EAGAIN n
        else ret t (-1) n

def RemoveFromQueue (l sock : Nat) (n : Node T P) : Node T P :=
  access l (fun y => { y with m_cnxQueue := y.m_cnxQueue.filter (· ≠ sock) }) n

/-- What follows the `Wait` of `Connect`, whatever this returns. -/
def connectOn (t : T) (c l : Nat) (x : LocalStreamSocketFd T P) (n : Node T P) : Node T P :=
  if x.m_state = .CONNECTED ∨ x.m_state = .REMOTECLOSED then ret t 0 n else fails t .EAGAIN (RemoveFromQueue l c n)

def InternalConnect (c : Nat) (y : LocalStreamSocketFd T P) (n : Node T P) : Node T P :=
  WakeWaiters c (put c { y with m_state := .CONNECTED } n)

/-- The new socket of `Accept`, with the connector as its peer. -/
def join (t : T) (bindPath : Option Path) (c : Nat) (y : LocalStreamSocketFd T P) (n : Node T P) : Node T P :=
  let socket := n.fresh
  let n := InternalConnect c y n
  let n := { put socket ⟨.CONNECTED, some c, false, bindPath, [], false, false, false, [], false,
    (n.threads t).process⟩ n with
    fresh := socket + 1 }
  ret t socket (access c ({ · with m_peer := some socket }) n)

/-- The loop of `Accept` over the queue; `noFd` says that no descriptor is free. -/
def acceptFirst (t : T) (l : Nat) (noFd : Bool) (bindPath : Option Path) : List Nat → Node T P → Node T P
  | [], n => ret t (-1) n
  | c :: queue, n =>
    let n := access l ({ · with m_cnxQueue := queue }) n
    if noFd then fails t .EMFILE (Close c n)
    else
      match n.sockets c with
      | none => crash n
      | some y => if y.m_state = .CONNECTING then join t bindPath c y n else acceptFirst t l noFd bindPath queue n

/-- The loop of `Accept` that waits, and what follows it. -/
def acceptLoop (t : T) (l : Nat) (noFd : Bool) (x : LocalStreamSocketFd T P) (n : Node T P) : Node T P :=
  match x.m_cnxQueue with
  | [] => if x.nonblock then fails t .EAGAIN n else sleep t (.accept l) (put l { x with m_state := .ACCEPTING } n)
  | queue => acceptFirst t l noFd x.m_bindPath queue (put l { x with m_state := .LISTENING } n)

def Accept (t : T) (l : Nat) (noFd : Bool) (x : LocalStreamSocketFd T P) (n : Node T P) : Node T P :=
  if x.m_state ≠ .LISTENING then fails t .EINVAL n else acceptLoop t l noFd x n

inductive WaitResult
  | OK | INTERRUPTED | TIMEOUT
  deriving DecidableEq, Repr

def acceptOn (t : T) (l : Nat) (res : WaitResult) (noFd : Bool) (x : LocalStreamSocketFd T P)
    (n : Node T P) : Node T P :=
  match res with
  | .OK => acceptLoop t l noFd x n
  | .INTERRUPTED => fails t .EINTR n
  | .TIMEOUT => fails t .EAGAIN n

def Shutdown (t : T) (s : Nat) (how : How) (x : LocalStreamSocketFd T P) (n : Node T P) : Node T P :=
  if x.m_state ≠ .CONNECTED ∧ x.m_state ≠ .REMOTECLOSED then fails t .ENOTCONN n
  else
    ret t 0 (put s (match how with
        | .SHUT_RD => { x with m_shutRead := true }
        | .SHUT_WR => { x with m_shutWrite := true }
        | .SHUT_RDWR => { x with m_shutWrite := true, m_shutRead := true }) n)

def setfl (t : T) (s : Nat) (nonblock : Bool) (x : LocalStreamSocketFd T P) (n : Node T P) : Node T P :=
  ret t 0 (put s { x with nonblock := nonblock } n)

/-- What threads and processes do. A wait is over when its thread has control again, for whatever reason `res` says;
and the path of a socket goes to nobody when it is unlinked, or bound by a socket of another kind. -/
inductive Label (T P : Type*)
  | socket (t : T)
  | bind (t : T) (s : Nat) (path : Path) (ok : Bool)
  | listen (t : T) (s : Nat)
  | connect (t : T) (c : Nat) (path : Path)
  | accept (t : T) (l : Nat) (noFd : Bool)
  | shutdown (t : T) (s : Nat) (how : How)
  | setfl (t : T) (s : Nat) (nonblock : Bool)
  | close (t : T) (s : Nat)
  | back (t : T) (res : WaitResult) (noFd : Bool)
  | unlink (path : Path)
  | exit (p : P) (openFiles : List Nat)
  | stop (p : P)
  deriving DecidableEq

/-- The thread runs, outside of a call. -/
def Free (n : Node T P) (t : T) : Prop := (n.threads t).alive = true ∧ (n.threads t).frame = none

instance (n : Node T P) (t : T) : Decidable (Free n t) := inferInstanceAs (Decidable (_ ∧ _))

/-- The socket of a descriptor with which the thread begins a call. -/
def found (n : Node T P) (t : T) (s : Nat) : Option (LocalStreamSocketFd T P) :=
  (n.sockets s).filter fun x => x.process = (n.threads t).process ∧ Free n t

/-- As `found`, where `IsClosed` is false. -/
def opened (n : Node T P) (t : T) (s : Nat) : Option (LocalStreamSocketFd T P) :=
  (found n t s).filter fun x => x.m_closing = false

/-- The descriptors of a process, in no order. -/
def descriptors (n : Node T P) (p : P) : List Nat :=
  (List.range n.fresh).filter fun s => (n.sockets s).any (·.process = p)

def step (n : Node T P) (a : Label T P) : Option (Node T P) :=
  if n.undefined then none
  else match a with
    | .socket t => if Free n t then some (dce_socket t n) else none
    | .bind t s path ok => (opened n t s).map fun x => Bind t s path ok x n
    | .listen t s => (opened n t s).map fun x => Listen t s x n
    | .connect t c path => (opened n t c).map fun x => Connect t c path x n
    | .accept t l noFd => (opened n t l).map fun x => Accept t l noFd x n
    | .shutdown t s how => (opened n t s).map fun x => Shutdown t s how x n
    | .setfl t s nonblock => (opened n t s).map fun x => setfl t s nonblock x n
    | .close t s => (found n t s).map fun _ => dce_close t s n
    | .back t res noFd =>
      match (n.threads t).frame with
      | none => none
      | some (.connect c l) =>
        let n := awake t c n
        (n.sockets c).map fun x => DecUsage c (connectOn t c l x n)
      | some (.accept l) =>
        let n := awake t l n
        (n.sockets l).map fun x => DecUsage l (acceptOn t l res noFd x n)
    | .unlink path => some (setBinder path none n)
    | .exit p openFiles => if openFiles.Perm (descriptors n p) then some (exit p openFiles n) else none
    | .stop p => some (Stop p n)

def machine (T P : Type*) [DecidableEq T] [DecidableEq P] : Machine (Node T P) (Label T P) where
  init n := (∀ s, n.sockets s = none) ∧ (∀ t, (n.threads t).frame = none) ∧ (∀ path, n.m_bindByPath path = none) ∧
    n.undefined = false
  step := step

end Dce.Connections
