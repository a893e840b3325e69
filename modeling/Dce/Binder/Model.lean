import Dce.LocalStream.Model

/- Which local socket answers at which path: `local-socket-fd-factory.cc`, and what the two kinds of
local sockets and `dce_unlink` do with it. -/

namespace Dce.Binder

open LocalStream (State)

inductive Kind
  | stream | datagram
  deriving DecidableEq, Repr

abbrev Path := List Char

/-- `m_bindPath` is `none` for the empty path, which is no real one, and `m_factory` says whether it is set. -/
structure SocketFd where
  kind : Kind
  m_state : State
  m_bindPath : Option Path
  m_factory : Bool
  deriving DecidableEq, Repr

structure Factory where
  m_bindByPath : Path → Option Nat
  sockets : Nat → Option SocketFd

def RegisterBinder (path : Path) (socket : Nat) (f : Factory) : Factory :=
  { f with m_bindByPath := Function.update f.m_bindByPath path (some socket) }

def UnRegisterBinder (path : Path) (f : Factory) : Factory :=
  { f with m_bindByPath := Function.update f.m_bindByPath path none }

def FindBinder (path : Path) (type : Kind) (f : Factory) : Option Nat :=
  (f.m_bindByPath path).filter fun winner => (f.sockets winner).any fun s => s.kind = type

def Factory.put (a : Nat) (s : SocketFd) (f : Factory) : Factory :=
  { f with sockets := Function.update f.sockets a (some s) }

/-- `ok` says that the host binds its own socket to the path. -/
def Bind (a : Nat) (path : Path) (ok : Bool) (s : SocketFd) (f : Factory) : Factory :=
  if s.m_state ≠ .CREATED ∨ ok = false then f
  else RegisterBinder path a (f.put a { s with m_state := .BINDED, m_bindPath := some path })

def Listen (a : Nat) (s : SocketFd) (f : Factory) : Factory :=
  if s.m_state ≠ .BINDED then f
  else
    let f := f.put a { s with m_state := .LISTENING }
    match s.m_bindPath with
    | some path => RegisterBinder path a f
    | none => f

def unregister (path : Option Path) (f : Factory) : Factory :=
  match path with
  | some path => UnRegisterBinder path f
  | none => f

/-- The two `ClearAll`; only that of the datagram sockets unregisters. -/
def ClearAll (a : Nat) (s : SocketFd) (f : Factory) : Factory :=
  match s.kind with
  | .stream => f.put a { s with m_state := .CLOSED, m_bindPath := none, m_factory := false }
  | .datagram => unregister s.m_bindPath (f.put a { s with m_state := .CLOSED, m_bindPath := none })

/-- The states in which a stream socket has a binder to take back. -/
def SocketFd.answers (s : SocketFd) : Bool := s.m_state = .BINDED ∨ s.m_state = .LISTENING ∨ s.m_state = .ACCEPTING

/-- The two `Close`. It is `none` where an assertion fails. -/
def Close (a : Nat) (s : SocketFd) (f : Factory) : Option Factory :=
  match s.kind with
  | .stream =>
    if s.m_state = .CLOSED then some f
    else if s.answers then
      if s.m_factory then some (ClearAll a s (unregister s.m_bindPath f)) else none
    else some (ClearAll a s f)
  | .datagram => some (ClearAll a s f)

/-- What `Connect` makes of the state, up to its wait. -/
def Connect (a : Nat) (path : Path) (s : SocketFd) (f : Factory) : Factory :=
  if s.m_factory = false then f
  else
  match s.kind with
  | .stream =>
    match (FindBinder path .stream f).bind f.sockets with
    | some listener =>
      if listener.m_state = .ACCEPTING ∨ listener.m_state = .LISTENING
        then f.put a { s with m_state := .CONNECTING } else f
    | none => f
  | .datagram =>
    if s.m_state = .BINDED ∨ s.m_state = .CONNECTED then f
    else
      match (FindBinder path .datagram f).bind f.sockets with
      | some listener => if listener.m_state = .BINDED then f.put a { s with m_state := .CONNECTED } else f
      | none => f

/-- `LocalStreamSocketFd::Accept` goes into its wait, also again after a `Close`, or comes back with a connection. -/
def Accept (a : Nat) (waits : Bool) (s : SocketFd) (f : Factory) : Factory :=
  if s.m_state = .LISTENING ∨ s.m_state = .ACCEPTING ∨ s.m_state = .CLOSED then
    f.put a { s with m_state := if waits then .ACCEPTING else .LISTENING }
  else f

/-- `Accept` of `a` takes the connecting socket `c`, for which it makes the socket `n`. -/
def InternalConnect (c n : Nat) (s first : SocketFd) (f : Factory) : Factory :=
  (f.put c { first with m_state := .CONNECTED }).put n ⟨.stream, .CONNECTED, s.m_bindPath, false⟩

/-- A socket is the first argument. `release` is the destructor without a `Close` before it, as in
`DceManager::Stop`, and `peerClosed` what is done to a connected socket when its peer is closed. -/
inductive Label
  | socket (a : Nat) (kind : Kind)
  | bind (a : Nat) (path : Path) (ok : Bool)
  | listen (a : Nat)
  | connect (a : Nat) (path : Path)
  | accept (a : Nat) (waits : Bool)
  | accepted (a c n : Nat)
  | peerClosed (a : Nat)
  | close (a : Nat)
  | release (a : Nat)
  | unlink (path : Path) (ok : Bool)
  deriving DecidableEq, Repr

def respond (f : Factory) : Label → Option Factory
  | .socket a kind => if f.sockets a = none then some (f.put a ⟨kind, .CREATED, none, true⟩) else none
  | .bind a path ok => (f.sockets a).map fun s => Bind a path ok s f
  | .listen a => ((f.sockets a).filter fun s => s.kind = .stream).map fun s => Listen a s f
  | .connect a path => (f.sockets a).map fun s => Connect a path s f
  | .accept a waits => ((f.sockets a).filter fun s => s.kind = .stream).map fun s => Accept a waits s f
  | .accepted a c n => do
    let s ← (f.sockets a).filter fun s => s.kind = .stream ∧ s.m_state = .LISTENING
    let first ← (f.sockets c).filter fun first => first.kind = .stream ∧ first.m_state = .CONNECTING
    if f.sockets n = none then some (InternalConnect c n s first f) else none
  | .peerClosed a =>
    ((f.sockets a).filter fun s => s.m_state = .CONNECTED).map fun s => f.put a { s with m_state := .REMOTECLOSED }
  | .close a => (f.sockets a).bind fun s => Close a s f
  | .release a => (f.sockets a).map fun s => ClearAll a s f
  -- `UnlinkNotify`, where the host has unlinked the path
  | .unlink path ok => some (if ok then UnRegisterBinder path f else f)

def machine : Machine Factory Label where
  init f := f = ⟨fun _ => none, fun _ => none⟩
  step := respond

end Dce.Binder
