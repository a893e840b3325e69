import Dce.Netlink.Binding

/- What a receive does with the queue of a netlink socket, `NetlinkSocket::RecvFrom`, among the deliveries of
`ForwardUp`. -/

namespace Dce.Netlink

/-- The bytes of a packet, and a socket whose queue holds packets of bytes. -/
abbrev Bytes := List UInt8

abbrev Receiver := NetlinkSocket Unit Bytes

/-- `RecvFrom`, which does not look at its flags. -/
def RecvFrom (maxSize : Nat) (_peek : Bool) (s : Receiver) : Option Bytes × Receiver :=
  match s.m_dataReceiveQueue with
  | [] => (none, s)
  | p :: rest =>
    if p.length ≤ maxSize then
      (some p, { s with
        m_dataReceiveQueue := rest, m_rxAvailable := (s.m_rxAvailable + (pids - p.length % pids)) % pids })
    else (none, s)

/-- The registry's receive is this one on the socket. -/
theorem recvFrom_eq {i maxSize : Nat} {peek : Bool} {w : Registry Unit Bytes} {s : Receiver}
    (here : w.sockets[i]? = some s) :
    recvFrom List.length i maxSize w = some { w with sockets := w.sockets.set i (RecvFrom maxSize peek s).2 } := by
  have same : w.sockets.set i s = w.sockets := by
    obtain ⟨inside, rfl⟩ := getElem?_eq_some_iff.mp here
    exact List.set_getElem_self inside
  unfold recvFrom RecvFrom
  rw [here]
  cases queue : s.m_dataReceiveQueue with
  | nil => simp [queue, same]
  | cons p rest => by_cases short : p.length ≤ maxSize <;> simp [queue, short, same]

/-- What comes to the socket: a packet, and a receive with a size and with MSG_PEEK or without. -/
inductive Arrival
  | forwardUp (packet : Bytes)
  | recv (maxSize : Nat) (peek : Bool)

/-- `GetSize` is a `uint32_t`. -/
def receiving : Machine Receiver Arrival where
  init s := s.m_dataReceiveQueue = [] ∧ s.m_rxAvailable = 0 ∧ s.m_rcvBufSize < pids
  step s
    | .forwardUp packet => if packet.length < pids then some (forwardUp List.length packet s) else none
    | .recv maxSize peek => some (RecvFrom maxSize peek s).2

def total (queue : List Bytes) : Nat := (queue.map List.length).sum

/-- `m_rxAvailable` is the size of what is queued, and not more than the buffer. -/
structure Counted (s : Receiver) : Prop where
  exactly : s.m_rxAvailable = total s.m_dataReceiveQueue
  bounded : s.m_rxAvailable ≤ s.m_rcvBufSize
  buffer : s.m_rcvBufSize < pids

/-- A receive gives what fits of the head, and takes it off unless it only peeks. -/
def Delivers (maxSize : Nat) (peek : Bool) (s : Receiver) : Prop :=
  ∀ p rest, s.m_dataReceiveQueue = p :: rest → (RecvFrom maxSize peek s).1 = some (p.take maxSize) ∧
    (RecvFrom maxSize peek s).2.m_dataReceiveQueue = if peek then p :: rest else rest

/-- What is asked of every step. -/
def Progresses (s : Receiver) (e : Arrival) : Prop :=
  (∀ t, receiving.step s e = some t → t.m_rxAvailable = total t.m_dataReceiveQueue ∧
    t.m_rxAvailable ≤ t.m_rcvBufSize) ∧
  match e with
  | .forwardUp _ => True
  | .recv maxSize peek => Delivers maxSize peek s

/-- A packet that is taken does not make the `uint32_t` overflow. A receive that finds a packet does not peek, and
has room for it. -/
def Roomy (s : Receiver) : Arrival → Prop
  | .forwardUp packet =>
    s.m_shutdownRecv = true ∨ s.m_rxAvailable + packet.length < pids ∨
    s.m_rcvBufSize < (s.m_rxAvailable + packet.length) % pids
  | .recv maxSize peek => ∀ p ∈ s.m_dataReceiveQueue.head?, peek = false ∧ p.length ≤ maxSize

section

variable {s : Receiver} {p : Bytes} {rest : List Bytes} {maxSize : Nat} {peek : Bool} {packet : Bytes}

theorem total_cons : total (p :: rest) = p.length + total rest := rfl

theorem total_append : total (rest ++ [p]) = total rest + p.length := by simp [total]

theorem delivers_iff : Delivers maxSize peek s ↔ Roomy s (.recv maxSize peek) := by
  unfold Delivers Roomy RecvFrom
  cases queue : s.m_dataReceiveQueue with
  | nil => simp
  | cons p rest =>
    by_cases short : p.length ≤ maxSize
    · cases peek <;> simp [short]
    · simp [short]

theorem Counted.recv (maxSize : Nat) (peek : Bool) (counted : Counted s) : Counted (RecvFrom maxSize peek s).2 := by
  obtain ⟨exactly, bounded, buffer⟩ := counted
  unfold RecvFrom
  cases queue : s.m_dataReceiveQueue with
  | nil => exact ⟨exactly, bounded, buffer⟩
  | cons p rest =>
    by_cases short : p.length ≤ maxSize
    · rw [queue, total_cons] at exactly
      have left : (s.m_rxAvailable + (pids - p.length % pids)) % pids = total rest := by
        have small : p.length < pids := by omega
        rw [Nat.mod_eq_of_lt small, exactly, Nat.add_comm p.length, Nat.add_assoc, Nat.add_sub_cancel' small.le,
          Nat.add_mod_right, Nat.mod_eq_of_lt (by omega)]
      simp only [if_pos short]
      have less : total rest ≤ s.m_rcvBufSize := by omega
      exact ⟨left, left.trans_le less, buffer⟩
    · simp only [if_neg short]
      exact ⟨exactly.trans (by rw [queue]), bounded, buffer⟩

theorem forwardUp_counts (packet : Bytes) (counted : Counted s) :
    ((forwardUp List.length packet s).m_rxAvailable = total (forwardUp List.length packet s).m_dataReceiveQueue ↔
      Roomy s (.forwardUp packet)) ∧
    (Roomy s (.forwardUp packet) → Counted (forwardUp List.length packet s)) := by
  obtain ⟨exactly, bounded, buffer⟩ := counted
  unfold forwardUp Roomy
  by_cases shut : s.m_shutdownRecv = true
  · simp only [if_pos shut]
    exact ⟨iff_of_true exactly (.inl shut), fun _ => ⟨exactly, bounded, buffer⟩⟩
  · rw [if_neg shut]
    by_cases fits : (s.m_rxAvailable + packet.length) % pids ≤ s.m_rcvBufSize
    · simp only [if_pos fits, total_append, ← exactly, Nat.mod_eq_iff_lt (show pids ≠ 0 by decide)]
      refine ⟨by simp [shut, not_lt.mpr fits], fun roomy => ?_⟩
      have small : s.m_rxAvailable + packet.length < pids := by simpa [shut, not_lt.mpr fits] using roomy
      exact ⟨by rw [Nat.mod_eq_of_lt small, total_append, exactly], fits, buffer⟩
    · simp only [if_neg fits]
      exact ⟨iff_of_true exactly (.inr (.inr (Nat.lt_of_not_le fits))), fun _ => ⟨exactly, bounded, buffer⟩⟩

end

theorem progresses_iff {s t : Receiver} {e : Arrival} (counted : Counted s) (step : receiving.step s e = some t) :
    (Progresses s e ↔ Roomy s e) ∧ (Roomy s e → Counted t) := by
  cases e with
  | forwardUp packet =>
    obtain ⟨_, rfl⟩ : packet.length < pids ∧ forwardUp List.length packet s = t := by
      simpa [receiving] using step
    obtain ⟨counts, keeps⟩ := forwardUp_counts packet counted
    refine ⟨⟨fun good => counts.mp (good.1 _ step).1, fun roomy => ⟨fun u run => ?_, trivial⟩⟩, keeps⟩
    cases step.symm.trans run
    exact ⟨(keeps roomy).exactly, (keeps roomy).bounded⟩
  | recv maxSize peek =>
    have after := counted.recv maxSize peek
    refine ⟨⟨fun good => delivers_iff.mp good.2, fun roomy => ⟨?_, delivers_iff.mpr roomy⟩⟩,
      fun _ => Option.some.inj step ▸ after⟩
    rintro u run
    cases run
    exact ⟨after.exactly, after.bounded⟩

/-- All steps of a run make progress exactly if it meets the condition. -/
theorem receives_progress_iff (s : Receiver) (k : Machine.Verdict)
    (reach : (receiving.judged Roomy Progresses).Reach (s, k)) : k.good ↔ k.careful := by
  refine Machine.judged_iff Counted (fun s first => ?_) (fun s a t sound run => progresses_iff sound run) reach
  obtain ⟨empty, zero, buffer⟩ := first
  exact ⟨by rw [zero, empty]; rfl, zero ▸ Nat.zero_le _, buffer⟩

/-- A socket with a buffer of ten bytes on which two came. -/
def two : Receiver := { created (P := Bytes) () 10 with m_dataReceiveQueue := [[1, 2]], m_rxAvailable := 2 }

theorem two_reach : receiving.ReachBy Roomy two :=
  .next (a := .forwardUp [1, 2]) (.start (s := created () 10) ⟨rfl, rfl, by decide⟩)
    (.inr (.inl (by decide))) (by decide)

/-- They are received. -/
theorem receives_progress_two : (RecvFrom 4 false two).1 = some [1, 2] ∧
    ∃ k, (receiving.judged Roomy Progresses).Reach ((RecvFrom 4 false two).2, k) ∧ k.good := by
  have roomy : Roomy two (.recv 4 false) := fun p same => by
    cases same
    exact ⟨rfl, by decide⟩
  obtain ⟨k, judged, careful⟩ := (two_reach.next roomy rfl).judged
  exact ⟨rfl, k, judged, (receives_progress_iff _ _ judged).mpr careful⟩

/-- A receive with a buffer of one byte gives nothing, and leaves the message. -/
theorem not_progress : ¬ ∀ s k, (receiving.judged Roomy Progresses).Reach (s, k) → k.good := by
  intro all
  have good : Progresses two (.recv 1 false) := Machine.good_of_judged all two_reach.reach rfl
  exact absurd (good.2 [1, 2] [] rfl).1 (by decide)

end Dce.Netlink
