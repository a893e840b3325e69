import Dce.Lib.Machine
import Mathlib.Algebra.Order.Group.Multiset

/- Port ids and multicast groups of netlink sockets, `netlink-socket.cc`: who is bound, and
who gets a broadcast. Sockets are named by the order of their creation. -/

namespace Dce.Netlink

open Option

/-- `NetlinkSocket`, on a node `N` and with packets `P`. `closed` and `bound` are not in the
source: `Close` has been called, and the last `DoBind` was made by a process. -/
structure NetlinkSocket (N P : Type) where
  m_node : N
  m_Pid : Nat
  m_Groups : Nat
  m_shutdownRecv : Bool
  m_dataReceiveQueue : List P
  m_rxAvailable : Nat
  m_rcvBufSize : Nat
  closed : Bool
  bound : Bool
  deriving DecidableEq

/-- The sockets, the registry `m_pidsList` of each node and `GroupSockets::m_Sockets`. -/
structure Registry (N P : Type) where
  sockets : List (NetlinkSocket N P)
  m_pidsList : N → Multiset Nat
  m_Sockets : List Nat

def kernelPid : Nat := 0

/-- The pids are `uint32_t`. -/
def pids : Nat := 2 ^ 32

variable {N P : Type} [DecidableEq N]

/-- `while (nsf->m_pidsList.count (m_Pid) > 0) m_Pid++`, `tries` times at most. -/
def freePid (taken : Multiset Nat) : Nat → Nat → Option Nat
  | 0, _ => none
  | tries + 1, m_Pid =>
    if 0 < taken.count m_Pid then freePid taken tries ((m_Pid + 1) % pids) else some m_Pid

/-- The pid that `DoBind` gives a socket, if its loop ends. `current` is the pid of the
process that calls it, if one does. -/
def choosePid (taken : Multiset Nat) (current : Option Nat) (pid : Nat) : Option Nat :=
  match current with
  | some process => if pid = 0 then freePid taken pids process else some pid
  | none => some pid

def doBind (i : Nat) (current : Option Nat) (pid groups : Nat) (w : Registry N P) : Option (Registry N P) := do
  let s ← w.sockets[i]?
  let m_Pid ← choosePid (w.m_pidsList s.m_node) current pid
  return {
    sockets := w.sockets.set i { s with m_Pid := m_Pid, m_Groups := groups, bound := current.isSome }
    m_pidsList :=
      if current.isSome then
        Function.update w.m_pidsList s.m_node (m_Pid ::ₘ w.m_pidsList s.m_node)
      else w.m_pidsList
    m_Sockets := if groups ≠ 0 then w.m_Sockets ++ [i] else w.m_Sockets }

def close (i : Nat) (w : Registry N P) : Option (Registry N P) := do
  let s ← w.sockets[i]?
  return { w with
    sockets := w.sockets.set i { s with m_shutdownRecv := true, closed := true }
    m_pidsList := Function.update w.m_pidsList s.m_node ((w.m_pidsList s.m_node).erase s.m_Pid) }

/-- `ForwardUp` of a packet of `size` bytes -/
def forwardUp (size : P → Nat) (packet : P) (s : NetlinkSocket N P) : NetlinkSocket N P :=
  if s.m_shutdownRecv then s
  else if (s.m_rxAvailable + size packet) % pids ≤ s.m_rcvBufSize then
    { s with
      m_dataReceiveQueue := s.m_dataReceiveQueue ++ [packet]
      m_rxAvailable := (s.m_rxAvailable + size packet) % pids }
  else s

/-- What the loop of `SendMessageBroadcast` asks of a socket. -/
def Addressed (node : N) (group : Nat) (s : NetlinkSocket N P) : Prop :=
  s.m_Groups &&& group ≠ 0 ∧ s.m_Pid ≠ kernelPid ∧ node = s.m_node

instance (node : N) (group : Nat) (s : NetlinkSocket N P) : Decidable (Addressed node group s) := by
  unfold Addressed
  infer_instance

def sendMessageBroadcast (size : P → Nat) (node : N) (group : Nat) (packet : P) (w : Registry N P) : Registry N P :=
  { w with
    sockets := w.m_Sockets.foldl (fun sockets i =>
      sockets.modify i fun s => if Addressed node group s then forwardUp size packet s else s) w.sockets }

def recvFrom (size : P → Nat) (i maxSize : Nat) (w : Registry N P) : Option (Registry N P) := do
  let s ← w.sockets[i]?
  match s.m_dataReceiveQueue with
  | [] => return w
  | p :: rest =>
    if size p ≤ maxSize then
      return { w with
        sockets := w.sockets.set i { s with
          m_dataReceiveQueue := rest
          m_rxAvailable := (s.m_rxAvailable + (pids - size p % pids)) % pids } }
    else return w

/-- A socket that has just been created on `node`. -/
def created (node : N) (rcvBufSize : Nat) : NetlinkSocket N P where
  m_node := node
  m_Pid := 0
  m_Groups := 0
  m_shutdownRecv := false
  m_dataReceiveQueue := []
  m_rxAvailable := 0
  m_rcvBufSize := rcvBufSize
  closed := false
  bound := false

inductive Call (N P : Type)
  | create (node : N) (rcvBufSize : Nat)
  | bind (i : Nat) (current : Option Nat) (pid groups : Nat)
  | close (i : Nat)
  | broadcast (node : N) (group : Nat) (packet : P)
  | recv (i maxSize : Nat)

def call (size : P → Nat) (w : Registry N P) : Call N P → Option (Registry N P)
  | .create node rcvBufSize => some { w with sockets := w.sockets ++ [created node rcvBufSize] }
  | .bind i current pid groups => doBind i current pid groups w
  | .close i => close i w
  | .broadcast node group packet => some (sendMessageBroadcast size node group packet w)
  | .recv i maxSize => recvFrom size i maxSize w

def binding (N P : Type) [DecidableEq N] (size : P → Nat) : Machine (Registry N P) (Call N P) where
  init w := w.sockets = [] ∧ (∀ node, w.m_pidsList node = 0) ∧ w.m_Sockets = []
  step := call size

variable {w v : Registry N P} {size : P → Nat}

theorem doBind_cases {i pid groups : Nat} {current : Option Nat} (run : doBind i current pid groups w = some v) :
    ∃ s m_Pid, w.sockets[i]? = some s ∧ choosePid (w.m_pidsList s.m_node) current pid = some m_Pid ∧
      v.sockets = w.sockets.set i { s with m_Pid := m_Pid, m_Groups := groups, bound := current.isSome } ∧
      v.m_pidsList = (if current.isSome then
        Function.update w.m_pidsList s.m_node (m_Pid ::ₘ w.m_pidsList s.m_node) else w.m_pidsList) ∧
      v.m_Sockets = if groups ≠ 0 then w.m_Sockets ++ [i] else w.m_Sockets := by
  obtain ⟨s, found, run⟩ := bind_eq_some_iff.mp run
  obtain ⟨m_Pid, chosen, run⟩ := bind_eq_some_iff.mp run
  cases some.inj run
  exact ⟨s, m_Pid, found, chosen, rfl, rfl, rfl⟩

theorem close_cases {i : Nat} (run : close i w = some v) : ∃ s, w.sockets[i]? = some s ∧
      v.sockets = w.sockets.set i { s with m_shutdownRecv := true, closed := true } ∧
      v.m_pidsList = Function.update w.m_pidsList s.m_node ((w.m_pidsList s.m_node).erase s.m_Pid) ∧
      v.m_Sockets = w.m_Sockets := by
  obtain ⟨s, found, run⟩ := bind_eq_some_iff.mp run
  cases some.inj run
  exact ⟨s, found, rfl, rfl, rfl⟩

omit [DecidableEq N] in
theorem recvFrom_cases {i maxSize : Nat} (run : recvFrom size i maxSize w = some v) :
    v.m_pidsList = w.m_pidsList ∧ v.m_Sockets = w.m_Sockets ∧
    (v.sockets = w.sockets ∨ ∃ s queue rx, w.sockets[i]? = some s ∧
        v.sockets = w.sockets.set i { s with m_dataReceiveQueue := queue, m_rxAvailable := rx }) := by
  obtain ⟨s, found, run⟩ := bind_eq_some_iff.mp run
  split at run
  · cases some.inj run
    exact ⟨rfl, rfl, .inl rfl⟩
  · split at run
    · cases some.inj run
      exact ⟨rfl, rfl, .inr ⟨s, _, _, found, rfl⟩⟩
    · cases some.inj run
      exact ⟨rfl, rfl, .inl rfl⟩

theorem freePid_free {taken : Multiset Nat} {tries start pid : Nat} (run : freePid taken tries start = some pid) :
    pid ∉ taken := by
  induction tries generalizing start with
  | zero => cases run
  | succ tries ih =>
    rw [freePid] at run
    split at run
    · exact ih run
    next none =>
      cases some.inj run
      exact fun mem => none (Multiset.count_pos.mpr mem)

end Dce.Netlink
