import Dce.Netlink.Binding

namespace Dce.Netlink

open List Option

variable {N P : Type} [DecidableEq N]

/-- A socket of `node` that a process has bound and that is open. -/
def Holds (node : N) (s : NetlinkSocket N P) : Prop :=
  s.m_node = node ∧ s.bound = true ∧ s.closed = false

instance (node : N) (s : NetlinkSocket N P) : Decidable (Holds node s) := by
  unfold Holds
  infer_instance

/-- The pids of the open sockets of `node` that a process has bound. -/
def holders (node : N) (sockets : List (NetlinkSocket N P)) : Multiset Nat :=
  ((sockets.filter fun s => Holds node s).map NetlinkSocket.m_Pid : List Nat)

/-- The share of one socket in `holders`. -/
def share (node : N) (s : NetlinkSocket N P) : Multiset Nat := if Holds node s then {s.m_Pid} else 0

theorem holders_cons (node : N) (s : NetlinkSocket N P) (sockets : List (NetlinkSocket N P)) :
    holders node (s :: sockets) = share node s + holders node sockets := by
  unfold holders share
  by_cases holds : Holds node s
  · rw [filter_cons_of_pos (by simpa using holds), if_pos holds]
    rfl
  · rw [filter_cons_of_neg (by simpa using holds), if_neg holds, zero_add]

theorem holders_append (node : N) (sockets : List (NetlinkSocket N P)) (s : NetlinkSocket N P) :
    holders node (sockets ++ [s]) = holders node sockets + share node s := by
  induction sockets with
  | nil => rw [nil_append, holders_cons, add_comm]
  | cons first sockets ih => rw [cons_append, holders_cons, holders_cons, ih, add_assoc]

variable {i : Nat} {s : NetlinkSocket N P} {sockets : List (NetlinkSocket N P)} {v w : Registry N P}

theorem holders_set (found : sockets[i]? = some s) (node : N) (t : NetlinkSocket N P) :
    holders node (sockets.set i t) + share node s = holders node sockets + share node t := by
  induction sockets generalizing i with
  | nil => cases found
  | cons first sockets ih =>
    cases i with
    | zero =>
      cases some.inj found
      rw [set_cons_zero, holders_cons, holders_cons]
      ac_rfl
    | succ i =>
      have rest := ih (i := i) (by simpa using found)
      rw [set_cons_succ, holders_cons, holders_cons, add_assoc, rest]
      ac_rfl

/-- What the registry of each node owes to its sockets. -/
def Registered (w : Registry N P) : Prop := ∀ node, w.m_pidsList node = holders node w.sockets

/-- The binds and closes that the registry can follow: a process binds no socket that it has
bound before or that is closed, nobody else binds one that a process holds, and what is
closed is held, or has a pid that nobody holds. -/
def Tidy (w : Registry N P) : Call N P → Prop
  | .bind i current _ _ => ∀ s, w.sockets[i]? = some s →
    ¬ Holds s.m_node s ∧ (current.isSome = true → s.closed = false)
  | .close i => ∀ s, w.sockets[i]? = some s → Holds s.m_node s ∨ s.m_Pid ∉ w.m_pidsList s.m_node
  | _ => True

theorem Registered.bind (registered : Registered w) {pid groups : Nat}
    {current : Option Nat} (tidy : Tidy w (.bind i current pid groups))
    (run : doBind i current pid groups w = some v) : Registered v := by
  obtain ⟨s, m_Pid, found, -, sockets, list, -⟩ := doBind_cases run
  obtain ⟨free, open'⟩ := tidy s found
  intro node
  have change := holders_set found node { s with m_Pid := m_Pid, m_Groups := groups, bound := current.isSome }
  have unheld : share node s = 0 := if_neg fun (holds : Holds node s) => free ⟨rfl, holds.2⟩
  rw [unheld, add_zero] at change
  rw [sockets, list, change]
  cases current with
  | none =>
    rw [if_neg nofun, share]
    split
    next holds => simp [Holds] at holds
    next =>
      rw [add_zero]
      exact registered node
  | some process =>
    rw [if_pos (by simp)]
    by_cases here : node = s.m_node
    · subst here
      rw [Function.update_self, share, registered, add_comm]
      split
      · rfl
      next away => exact absurd ⟨rfl, rfl, open' rfl⟩ away
    · rw [Function.update_of_ne here, share]
      split
      next holds => exact absurd holds.1.symm here
      next =>
        rw [add_zero]
        exact registered node

theorem Registered.close (registered : Registered w)
    (tidy : Tidy w (.close i)) (run : Netlink.close i w = some v) : Registered v := by
  obtain ⟨s, found, sockets, list, -⟩ := close_cases run
  intro node
  have change := holders_set found node { s with m_shutdownRecv := true, closed := true }
  have closed : share node { s with m_shutdownRecv := true, closed := true } = 0 :=
    if_neg fun holds => by simp [Holds] at holds
  rw [closed, add_zero] at change
  rw [sockets, list]
  by_cases here : node = s.m_node
  · subst here
    rw [Function.update_self, registered]
    by_cases holds : Holds s.m_node s
    · rw [share, if_pos holds] at change
      rw [← change, Multiset.add_comm, Multiset.singleton_add, Multiset.erase_cons_head]
    · have absent := (tidy s found).resolve_left holds
      rw [registered] at absent
      rw [share, if_neg holds, add_zero] at change
      rw [Multiset.erase_of_notMem absent, change]
  · have away : share node s = 0 := if_neg fun holds => here holds.1.symm
    rw [away, add_zero] at change
    rw [Function.update_of_ne here, change]
    exact registered node

theorem share_forwardUp (size : P → Nat) (packet : P) (node : N) (s : NetlinkSocket N P) :
    share node (forwardUp size packet s) = share node s := by
  unfold forwardUp
  split
  · rfl
  · split <;> rfl

theorem holders_modify {f : NetlinkSocket N P → NetlinkSocket N P} {node : N}
    (same : ∀ s, share node (f s) = share node s) (i : Nat) :
    holders node (sockets.modify i f) = holders node sockets := by
  induction sockets generalizing i with
  | nil => cases i <;> rfl
  | cons first sockets ih =>
    cases i with
    | zero => rw [modify_zero_cons, holders_cons, holders_cons, same]
    | succ i => rw [modify_succ_cons, holders_cons, holders_cons, ih]

theorem holders_broadcast (size : P → Nat) (node : N) (group : Nat) (packet : P) (w : Registry N P) (at' : N) :
    holders at' (sendMessageBroadcast size node group packet w).sockets = holders at' w.sockets := by
  unfold sendMessageBroadcast
  generalize w.sockets = sockets
  induction w.m_Sockets generalizing sockets with
  | nil => rfl
  | cons i list ih =>
    rw [foldl_cons, ih]
    refine holders_modify (fun s => ?_) i
    split
    · exact share_forwardUp size packet at' s
    · rfl

theorem Registered.step {size : P → Nat} (registered : Registered w) {a : Call N P}
    (tidy : Tidy w a) (run : call size w a = some v) : Registered v := by
  cases a with
  | create node rcvBufSize =>
    cases some.inj run
    intro at'
    have none : share at' (created (P := P) node rcvBufSize) = 0 :=
      if_neg fun holds => by simp [Holds, created] at holds
    rw [holders_append, none, add_zero]
    exact registered at'
  | bind i current pid groups => exact registered.bind tidy run
  | close i => exact registered.close tidy run
  | broadcast node group packet =>
    cases some.inj run
    intro at'
    rw [holders_broadcast]
    exact registered at'
  | recv i maxSize =>
    obtain ⟨list, -, same | ⟨s, queue, rx, found, sockets⟩⟩ := recvFrom_cases run
    · intro at'
      rw [list, same]
      exact registered at'
    · intro at'
      have change := holders_set found at' { s with m_dataReceiveQueue := queue, m_rxAvailable := rx }
      have share_eq : share at' { s with m_dataReceiveQueue := queue, m_rxAvailable := rx } = share at' s := rfl
      rw [list, sockets, add_right_cancel change]
      exact registered at'

/-- In the runs along `C` the registry of each node holds the pids of its open sockets that a
process has bound, and one that is chosen automatically is nobody else's. -/
structure KeepsPorts (N P : Type) [DecidableEq N] (size : P → Nat) (C : Registry N P → Call N P → Prop) :
    Prop where
  registered : ∀ w, (binding N P size).ReachBy C w → Registered w
  fresh : ∀ w v i process groups, (binding N P size).ReachBy C w → C w (.bind i (some process) 0 groups) →
    call size w (.bind i (some process) 0 groups) = some v →
    ∃ s, v.sockets[i]? = some s ∧ ∀ j t, j ≠ i → v.sockets[j]? = some t → Holds s.m_node t → t.m_Pid ≠ s.m_Pid

theorem mem_holders {node : N} (found : sockets[i]? = some s) (holds : Holds node s) :
    s.m_Pid ∈ holders node sockets := by
  refine Multiset.mem_coe.mpr (mem_map.mpr ⟨s, mem_filter.mpr ⟨?_, by simpa using holds⟩, rfl⟩)
  exact mem_of_getElem? found

theorem keepsPorts_of_tidy (N P : Type) [DecidableEq N] (size : P → Nat) : KeepsPorts N P size Tidy := by
  have kept : ∀ w, (binding N P size).ReachBy Tidy w → Registered w := fun w reach =>
    reach.invariant (I := Registered) (fun w first node => by rw [first.2.1 node, first.1]; rfl)
      fun _ _ _ registered tidy run => registered.step tidy run
  refine ⟨kept, fun w v i process groups reach _ run => ?_⟩
  obtain ⟨s, m_Pid, found, chosen, sockets, -, -⟩ := doBind_cases run
  have free : m_Pid ∉ w.m_pidsList s.m_node := by
    exact freePid_free chosen
  refine ⟨{ s with m_Pid := m_Pid, m_Groups := groups, bound := true }, ?_, fun j t other there holds same => ?_⟩
  · rw [sockets, List.getElem?_set_self (List.getElem?_eq_some_iff.mp found).1]
    rfl
  · rw [sockets, getElem?_set_ne (Ne.symm other)] at there
    have member := mem_holders there holds
    rw [← kept w reach, same] at member
    exact free member

/-- A socket that is bound again leaves its first pid behind. -/
theorem not_keepsPorts : ¬ KeepsPorts Unit Unit (fun _ => 0) fun _ _ => True := by
  intro keeps
  let empty : Registry Unit Unit := ⟨[], fun _ => 0, []⟩
  have start : (binding Unit Unit fun _ => 0).Reach empty := .start ⟨rfl, fun _ => rfl, rfl⟩
  obtain ⟨w, run⟩ : ∃ w, (binding Unit Unit fun _ => 0).replay empty
      [.create () 0, .bind 0 (some 5) 7 0, .bind 0 (some 5) 8 0] = some w := ⟨_, rfl⟩
  have registered := keeps.registered w (start.replay (fun _ _ => trivial) run) ()
  cases some.inj run
  exact absurd (congrArg Multiset.card registered) (by decide)

end Dce.Netlink
