import Dce.Netlink.Binding

namespace Dce.Netlink

open List Option

variable {N P : Type} [DecidableEq N]

/-- An open socket of `node` whose mask meets the target mask. -/
def Subscribed (node : N) (group : Nat) (s : NetlinkSocket N P) : Prop :=
  s.m_node = node ∧ s.closed = false ∧ s.m_Groups &&& group ≠ 0

/-- There is room for a packet of `size` bytes in the receive buffer. -/
def Room (size : Nat) (s : NetlinkSocket N P) : Prop := (s.m_rxAvailable + size) % pids ≤ s.m_rcvBufSize

/-- No open socket that is listed in `m_Sockets` is bound to groups again. -/
def ListsOnce (w : Registry N P) : Call N P → Prop
  | .bind i _ _ groups => groups ≠ 0 → ∀ s, w.sockets[i]? = some s → s.closed = false → i ∉ w.m_Sockets
  | _ => True

/-- Open sockets are listed once at most, and those that have groups are. -/
structure Listed (w : Registry N P) : Prop where
  known : ∀ i ∈ w.m_Sockets, i < w.sockets.length
  shut : ∀ (i : Nat) (s : NetlinkSocket N P), w.sockets[i]? = some s → s.m_shutdownRecv = s.closed
  once : ∀ (i : Nat) (s : NetlinkSocket N P), w.sockets[i]? = some s → s.closed = false → w.m_Sockets.count i ≤ 1
  grouped : ∀ (i : Nat) (s : NetlinkSocket N P), w.sockets[i]? = some s → s.closed = false → s.m_Groups ≠ 0 →
    i ∈ w.m_Sockets

theorem getElem?_foldl_modify {α : Type*} (f : α → α) (is : List Nat) (xs : List α) (i : Nat) :
    (is.foldl (fun xs j => xs.modify j f) xs)[i]? = xs[i]?.map f^[is.count i] := by
  induction is generalizing xs with
  | nil => simp
  | cons j is ih =>
    rw [foldl_cons, ih, getElem?_modify, Option.map_eq_map]
    by_cases here : j = i
    · subst here
      simp [Function.comp_def]
    · simp [here]

/-- What one passage of the loop of `SendMessageBroadcast` does to a socket. -/
def receive (size : P → Nat) (node : N) (group : Nat) (packet : P) (s : NetlinkSocket N P) : NetlinkSocket N P :=
  if Addressed node group s then forwardUp size packet s else s

theorem broadcast_socket (size : P → Nat) (node : N) (group : Nat) (packet : P) (w : Registry N P) (i : Nat) :
    (sendMessageBroadcast size node group packet w).sockets[i]? =
      w.sockets[i]?.map (receive size node group packet)^[w.m_Sockets.count i] :=
  getElem?_foldl_modify (receive size node group packet) w.m_Sockets w.sockets i

section

variable {size : P → Nat} {node : N} {group : Nat} {packet : P} {s : NetlinkSocket N P}

theorem receive_of_shutdown (shut : s.m_shutdownRecv = true) : receive size node group packet s = s := by
  unfold receive forwardUp
  simp [shut]

theorem receive_of_room (open' : s.m_shutdownRecv = false) (addressed : Addressed node group s)
    (room : Room (size packet) s) :
    (receive size node group packet s).m_dataReceiveQueue = s.m_dataReceiveQueue ++ [packet] := by
  unfold Room at room
  unfold receive forwardUp
  simp [addressed, open', room]

theorem receive_of_not (not : ¬ (Addressed node group s ∧ Room (size packet) s)) :
    receive size node group packet s = s := by
  unfold receive forwardUp
  split
  next addressed =>
    have full : ¬ (s.m_rxAvailable + size packet) % pids ≤ s.m_rcvBufSize := fun room => not ⟨addressed, room⟩
    simp [full]
  · rfl

variable (size node group packet) in
theorem receive_cases (s : NetlinkSocket N P) :
    ∃ queue rx, receive size node group packet s = { s with m_dataReceiveQueue := queue, m_rxAvailable := rx } := by
  unfold receive forwardUp
  split
  · split
    · exact ⟨_, _, rfl⟩
    · split <;> exact ⟨_, _, rfl⟩
  · exact ⟨_, _, rfl⟩

variable (size node group packet) in
theorem receive_iterate_cases (n : Nat) (s : NetlinkSocket N P) :
    ∃ queue rx, (receive size node group packet)^[n] s =
      { s with m_dataReceiveQueue := queue, m_rxAvailable := rx } := by
  induction n generalizing s with
  | zero => exact ⟨s.m_dataReceiveQueue, s.m_rxAvailable, rfl⟩
  | succ n ih =>
    obtain ⟨queue, rx, first⟩ := receive_cases size node group packet s
    obtain ⟨queue', rx', rest⟩ := ih { s with m_dataReceiveQueue := queue, m_rxAvailable := rx }
    exact ⟨queue', rx', by rw [Function.iterate_succ_apply, first, rest]⟩

end

variable {i : Nat} {v w : Registry N P} {size : P → Nat}

section

variable (listed : Listed w)
include listed

theorem Listed.bind {pid groups : Nat} {current : Option Nat}
    (fresh : ListsOnce w (.bind i current pid groups)) (run : doBind i current pid groups w = some v) :
    Listed v := by
  obtain ⟨s, m_Pid, found, -, sockets, -, list⟩ := doBind_cases run
  have short : i < w.sockets.length := (List.getElem?_eq_some_iff.mp found).1
  -- the socket at `j` has the marks of one of `w`, and the groups of `w` unless `j` is bound
  have origin : ∀ j t, v.sockets[j]? = some t → ∃ u, w.sockets[j]? = some u ∧
      t.closed = u.closed ∧ t.m_shutdownRecv = u.m_shutdownRecv ∧
      (j = i ∧ t.m_Groups = groups ∨ j ≠ i ∧ t = u) := by
    intro j t there
    rw [sockets] at there
    by_cases here : j = i
    · subst here
      rw [getElem?_set_self short] at there
      cases some.inj there
      exact ⟨s, found, rfl, rfl, .inl ⟨rfl, rfl⟩⟩
    · rw [getElem?_set_ne (Ne.symm here)] at there
      exact ⟨t, there, rfl, rfl, .inr ⟨here, rfl⟩⟩
  refine ⟨fun j mem => ?_, fun j t there => ?_, fun j t there open' => ?_, fun j t there open' some' => ?_⟩
  · rw [sockets, length_set]
    rw [list] at mem
    split at mem
    · rcases mem_append.mp mem with old | new
      · exact listed.known j old
      · rw [mem_singleton.mp new]
        exact short
    · exact listed.known j mem
  · obtain ⟨u, before, closed, shut, -⟩ := origin j t there
    rw [shut, closed]
    exact listed.shut j u before
  · obtain ⟨u, before, closed, -, -⟩ := origin j t there
    rw [closed] at open'
    have once := listed.once j u before open'
    rw [list]
    split
    next some' =>
      rw [count_append]
      by_cases here : j = i
      · subst here
        have none := count_eq_zero.mpr (fresh some' u before open')
        rw [none, count_singleton_self]
      · rw [count_singleton, if_neg (by simpa using Ne.symm here)]
        exact once
    · exact once
  · obtain ⟨u, before, closed, -, ⟨rfl, groups_eq⟩ | ⟨-, rfl⟩⟩ := origin j t there
    · rw [groups_eq] at some'
      rw [list, if_pos some']
      exact mem_append_right _ (mem_singleton_self _)
    · have old := listed.grouped j t before open' some'
      rw [list]
      split
      · exact mem_append_left _ old
      · exact old

omit [DecidableEq N] in
theorem Listed.of_same (list : v.m_Sockets = w.m_Sockets) (length : v.sockets.length = w.sockets.length)
    (origin : ∀ (j : Nat) (t : NetlinkSocket N P), v.sockets[j]? = some t → t.m_shutdownRecv = t.closed ∧
      (t.closed = false → ∃ u, w.sockets[j]? = some u ∧ u.closed = false ∧ t.m_Groups = u.m_Groups)) :
    Listed v := by
  refine ⟨fun j mem => ?_, fun j t there => (origin j t there).1, fun j t there open' => ?_,
    fun j t there open' some' => ?_⟩
  · rw [length]
    rw [list] at mem
    exact listed.known j mem
  · obtain ⟨u, before, open'', -⟩ := (origin j t there).2 open'
    rw [list]
    exact listed.once j u before open''
  · obtain ⟨u, before, open'', groups⟩ := (origin j t there).2 open'
    rw [groups] at some'
    rw [list]
    exact listed.grouped j u before open'' some'

theorem Listed.close (run : Netlink.close i w = some v) : Listed v := by
  obtain ⟨s, found, sockets, -, list⟩ := close_cases run
  refine listed.of_same list (by rw [sockets, length_set]) fun j t there => ?_
  rw [sockets] at there
  by_cases here : j = i
  · subst here
    rw [List.getElem?_set_self (List.getElem?_eq_some_iff.mp found).1] at there
    cases some.inj there
    exact ⟨rfl, fun open' => by cases open'⟩
  · rw [getElem?_set_ne (Ne.symm here)] at there
    exact ⟨listed.shut j t there, fun open' => ⟨t, there, open', rfl⟩⟩

omit [DecidableEq N] in
theorem Listed.recv {maxSize : Nat} (run : recvFrom size i maxSize w = some v) : Listed v := by
  obtain ⟨-, list, same | ⟨s, queue, rx, found, sockets⟩⟩ := recvFrom_cases run
  · refine listed.of_same list (by rw [same]) fun j t there => ?_
    rw [same] at there
    exact ⟨listed.shut j t there, fun open' => ⟨t, there, open', rfl⟩⟩
  · refine listed.of_same list (by rw [sockets, length_set]) fun j t there => ?_
    rw [sockets] at there
    by_cases here : j = i
    · subst here
      rw [List.getElem?_set_self (List.getElem?_eq_some_iff.mp found).1] at there
      cases some.inj there
      exact ⟨listed.shut j s found, fun open' => ⟨s, found, open', rfl⟩⟩
    · rw [getElem?_set_ne (Ne.symm here)] at there
      exact ⟨listed.shut j t there, fun open' => ⟨t, there, open', rfl⟩⟩

theorem Listed.broadcast (size : P → Nat) (node : N) (group : Nat)
    (packet : P) : Listed (sendMessageBroadcast size node group packet w) := by
  have length : (sendMessageBroadcast size node group packet w).sockets.length = w.sockets.length := by
    unfold sendMessageBroadcast
    generalize w.sockets = sockets
    induction w.m_Sockets generalizing sockets with
    | nil => rfl
    | cons i list ih => rw [foldl_cons, ih, length_modify]
  refine listed.of_same rfl length fun j t there => ?_
  rw [broadcast_socket, map_eq_some_iff] at there
  obtain ⟨u, before, rfl⟩ := there
  obtain ⟨queue, rx, after⟩ := receive_iterate_cases size node group packet (w.m_Sockets.count j) u
  rw [after]
  exact ⟨listed.shut j u before, fun open' => ⟨u, before, open', rfl⟩⟩

omit [DecidableEq N] in
theorem Listed.create (node : N) (rcvBufSize : Nat) : Listed
    { w with sockets := w.sockets ++ [created node rcvBufSize] } := by
  have origin : ∀ (j : Nat) (t : NetlinkSocket N P), (w.sockets ++ [created node rcvBufSize])[j]? = some t →
      w.sockets[j]? = some t ∨ w.sockets.length ≤ j ∧ t = created node rcvBufSize := by
    intro j t there
    rw [getElem?_append] at there
    split at there
    · exact .inl there
    · have := mem_of_getElem? there
      exact .inr ⟨by omega, mem_singleton.mp this⟩
  refine ⟨fun j mem => ?_, fun j t there => ?_, fun j t there open' => ?_, fun j t there open' some' => ?_⟩
  · have := listed.known j mem
    rw [length_append]
    omega
  · rcases origin j t there with old | ⟨-, rfl⟩
    · exact listed.shut j t old
    · rfl
  · rcases origin j t there with old | ⟨new, rfl⟩
    · exact listed.once j t old open'
    · have absent : j ∉ w.m_Sockets := fun mem => by
        have := listed.known j mem
        omega
      rw [count_eq_zero.mpr absent]
      omega
  · rcases origin j t there with old | ⟨-, rfl⟩
    · exact listed.grouped j t old open' some'
    · exact absurd rfl some'

theorem Listed.step {a : Call N P} (once : ListsOnce w a) (run : call size w a = some v) : Listed v := by
  cases a with
  | create node rcvBufSize =>
    cases some.inj run
    exact listed.create node rcvBufSize
  | bind i current pid groups => exact listed.bind once run
  | close i => exact listed.close run
  | broadcast node group packet =>
    cases some.inj run
    exact listed.broadcast size node group packet
  | recv i maxSize => exact listed.recv run

end

/-- In the runs along `C` a broadcast puts one copy of its packet into the queue of each socket
that is to get it, and no other queue changes. -/
def Multicasts (N P : Type) [DecidableEq N] (size : P → Nat) (C : Registry N P → Call N P → Prop)
    (gets : N → Nat → P → NetlinkSocket N P → Prop) : Prop :=
  ∀ w, (binding N P size).ReachBy C w →
    ∀ (node : N) (group : Nat) (packet : P) (i : Nat) (s : NetlinkSocket N P), w.sockets[i]? = some s →
    ∃ t : NetlinkSocket N P, (sendMessageBroadcast size node group packet w).sockets[i]? = some t ∧
      (gets node group packet s → t.m_dataReceiveQueue = s.m_dataReceiveQueue ++ [packet]) ∧
      (¬ gets node group packet s → t.m_dataReceiveQueue = s.m_dataReceiveQueue)

/-- The kernel's own sockets get no broadcast, and a packet that does not fit is dropped. -/
theorem multicasts_of_listsOnce (N P : Type) [DecidableEq N] (size : P → Nat) :
    Multicasts N P size ListsOnce fun node group packet s =>
      Subscribed node group s ∧ s.m_Pid ≠ kernelPid ∧ Room (size packet) s := by
  intro w reach node group packet i s found
  have listed : Listed w :=
    reach.invariant (I := Listed) (fun w first => by constructor <;> simp [first.1, first.2.2])
      fun _ _ _ listed once run => listed.step once run
  refine ⟨_, by rw [broadcast_socket, found]; rfl, ?_, fun not => ?_⟩
  · rintro ⟨⟨here, open', groups⟩, user, room⟩
    have some' : s.m_Groups ≠ 0 := fun none => groups (by rw [none, Nat.zero_and])
    have one : w.m_Sockets.count i = 1 := by
      have most := listed.once i s found open'
      have least := count_pos_iff.mpr (listed.grouped i s found open' some')
      omega
    rw [one]
    exact receive_of_room (by rw [listed.shut i s found, open']) ⟨groups, user, here.symm⟩ room
  · have still : receive size node group packet s = s := by
      cases open' : s.closed with
      | true => exact receive_of_shutdown (by rw [listed.shut i s found, open'])
      | false =>
        exact receive_of_not fun ⟨⟨groups, user, here⟩, room⟩ => not ⟨⟨here.symm, open', groups⟩, user, room⟩
    rw [Function.iterate_fixed still]

/-- A socket with 4096 bytes to receive into gets no packet of 5000, and one that the kernel has
bound gets none at all. -/
theorem not_multicasts : ¬ Multicasts Unit Nat id (fun _ _ => True) (fun node group _ s => Subscribed node group s) ∧
    ¬ Multicasts Unit Nat id ListsOnce (fun node group _ s => Subscribed node group s ∧ s.m_Pid ≠ kernelPid) ∧
    ¬ Multicasts Unit Nat id ListsOnce (fun node group packet s => Subscribed node group s ∧ Room packet s) := by
  let empty : Registry Unit Nat := ⟨[], fun _ => 0, []⟩
  let w : Registry Unit Nat := ⟨[created () 4096], fun _ => 0, []⟩
  have one : (binding Unit Nat id).ReachBy ListsOnce w :=
    .next (s := empty) (a := .create () 4096) (.start ⟨rfl, fun _ => rfl, rfl⟩) trivial rfl
  have fresh : ∀ current pid, ListsOnce w (.bind 0 current pid 1) := fun _ _ _ _ _ _ => not_mem_nil
  have user := Machine.ReachBy.next one (fresh (some 5) 7) rfl
  have kernel := Machine.ReachBy.next one (fresh none 0) rfl
  refine ⟨fun all => ?_, fun all => ?_, fun all => ?_⟩
  · obtain ⟨t, after, gets, -⟩ := all _ user.reach () 1 5000 0 _ rfl
    cases some.inj after
    exact absurd (gets ⟨rfl, rfl, by decide⟩) (by decide)
  · obtain ⟨t, after, gets, -⟩ := all _ user () 1 5000 0 _ rfl
    cases some.inj after
    exact absurd (gets ⟨⟨rfl, rfl, by decide⟩, by decide⟩) (by decide)
  · obtain ⟨t, after, gets, -⟩ := all _ kernel () 1 100 0 _ rfl
    cases some.inj after
    exact absurd (gets ⟨⟨rfl, rfl, by decide⟩, show (0 + 100) % pids ≤ 4096 by decide⟩) (by decide)

end Dce.Netlink
