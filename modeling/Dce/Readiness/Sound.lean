import Dce.Lib.Watchers
import Dce.Readiness.Calls

/- What holds of the files and of the threads that poll while one thread runs, and the changes that keep it. -/

namespace Dce.Readiness

open Coroutine
open LocalStream (maxBuffer)

section

variable {a b m : Events} {c d e : Prop} [Decidable c] [Decidable d] [Decidable e]

theorem meets_or : Meets (a ||| b) m ↔ Meets a m ∨ Meets b m := by
  have distributes : (a ||| b) &&& m = a &&& m ||| b &&& m := by
    rw [BitVec.and_comm, BitVec.and_or_distrib_left, BitVec.and_comm m a, BitVec.and_comm m b]
  have zero : a &&& m ||| b &&& m = 0 ↔ a &&& m = 0 ∧ b &&& m = 0 := BitVec.or_eq_zero_iff
  rw [Meets, distributes, Ne, zero, not_and_or]
  rfl

theorem meets_bit : Meets (bit c a) m ↔ c ∧ Meets a m := by
  unfold bit
  split
  next holds =>
    exact (and_iff_right holds).symm
  next fails =>
    have nothing : ¬ Meets 0 m := fun meets => meets (BitVec.zero_and ..)
    exact iff_of_false nothing fun both => fails both.1

theorem meets_bits : Meets (bit c POLLIN ||| bit d POLLOUT ||| bit e POLLHUP) m ↔
    c ∧ Meets POLLIN m ∨ d ∧ Meets POLLOUT m ∨ e ∧ Meets POLLHUP m := by
  rw [meets_or, meets_or, meets_bit, meets_bit, meets_bit, or_assoc]

theorem meets_hup (events : Events) : Meets POLLHUP (pollMask events) := by
  intro none
  have fourth := congrArg (BitVec.getLsbD · 4) none
  simp [pollMask, POLLHUP] at fourth

end

variable {T β : Type*} [DecidableEq T]

section

/-- A poll that asks for `events` would find the file ready. -/
def Ready (n : Node T β) (f : File) (events : Events) : Prop := Meets (poll n f) (pollMask events)

/-- A socket in this state is no listener yet or no more. -/
def Unqueued (s : LocalStream.State) : Prop := s = .CREATED ∨ s = .BINDED ∨ s = .CLOSED

/-- The pointers between the files. -/
structure Linked (n : Node T β) : Prop where
  paired : ∀ a p, (n.pipes a).m_peer = some p → (n.pipes p).m_peer = some a ∧
    (n.pipes p).m_readSide = !(n.pipes a).m_readSide
  joined : ∀ a p, (n.streams a).m_state = .CONNECTED → (n.streams a).m_peer = some p →
    (n.streams p).m_state = .CONNECTED ∧ (n.streams p).m_peer = some a
  emptied : ∀ a, Unqueued (n.streams a).m_state → (n.streams a).m_cnxQueue = []
  queued : ∀ l a, a ∈ (n.streams l).m_cnxQueue → (n.streams a).m_state = .CONNECTING ∨
    (n.streams a).m_state = .CONNECTED ∨
    (n.streams a).m_state = .REMOTECLOSED ∨ (n.streams a).m_state = .CLOSED
  unmade : ∀ a, n.fresh ≤ a → n.streams a = ⟨.CREATED, none, true, []⟩
  member : ∀ a d, (n.datagrams a).m_state = .CONNECTED → (n.datagrams a).m_peer = some d →
    (n.datagrams d).m_state = .BINDED ∧ a ∈ (n.datagrams d).m_myPeers
  connected : ∀ a d, (n.datagrams a).m_peer = some d → (n.datagrams a).m_state = .CONNECTED
  bound : ∀ d a, a ∈ (n.datagrams d).m_myPeers → (n.datagrams d).m_state = .BINDED

/-- What an accept that waits at the socket relies on. -/
structure Acceptor (n : Node T β) (a : Nat) : Prop where
  state : (n.streams a).m_state = .ACCEPTING ∨ (n.streams a).m_state = .LISTENING ∨ (n.streams a).m_state = .CLOSED
  single : ∀ l, a ∉ (n.streams l).m_cnxQueue

/-- The thread `u` is in a poll that asks for `events` of `f`. -/
def Watches (w : W T β) (u : T) (f : File) (events : Events) : Prop :=
  ∃ fds endtime, w.place u = .inside (.poll fds endtime) ∧ (f, events) ∈ fds

/-- The thread `u` sleeps in a poll that asks for `events` of `f`. -/
structure Polls (w : W T β) (u : T) (f : File) (events : Events) : Prop where
  asleep : w.status u = .blocked
  watches : Watches w u f events

/-- Who sleeps in a poll, for what, and what a poll would find. -/
def watchers (w : W T β) : Watchers T File Events where
  asleep u := w.status u = .blocked
  watches := Watches w
  ready := Ready w.shared

/-- What holds while `t` runs; the waiters of the files in `X` are still to be woken. -/
structure During (t : T) (X : File → Prop) (w : W T β) : Prop where
  linked : Linked w.shared
  acceptor : ∀ u, u ≠ t → ∀ a last, w.place u = .inside (.accept a last) → Acceptor w.shared a
  registered : ∀ u, u ≠ t → ∀ f events, Watches w u f events → ⟨u, pollMask events⟩ ∈ w.shared.m_waitQueueList f
  prompt : (watchers w).Prompt t X

/-- Nothing is still to be woken. -/
abbrev Settled : File → Prop := fun _ => False

variable {t : T} {X Y : File → Prop} {w : W T β} {n : Node T β} {f : File} {key : Events}

omit [DecidableEq T] in
theorem Linked.congr {n' : Node T β} (linked : Linked n) (pipes : ∀ a, (n'.pipes a).m_peer = (n.pipes a).m_peer ∧
    (n'.pipes a).m_readSide = (n.pipes a).m_readSide) (streams : n'.streams = n.streams) (datagrams :
      n'.datagrams = n.datagrams)
    (fresh : n'.fresh = n.fresh) : Linked n' := by
  refine ⟨fun a p peer => ?_, ?_, ?_, ?_, ?_, ?_, ?_, ?_⟩
  · rw [(pipes a).1] at peer
    rw [(pipes p).1, (pipes p).2, (pipes a).2]
    exact linked.paired a p peer
  · rw [streams]
    exact linked.joined
  · rw [streams]
    exact linked.emptied
  · rw [streams]
    exact linked.queued
  · rw [streams, fresh]
    exact linked.unmade
  · rw [datagrams]
    exact linked.member
  · rw [datagrams]
    exact linked.connected
  · rw [datagrams]
    exact linked.bound

/-- On the way from `w` to `v` the waiters of the files are woken with the keys that `K` says. -/
structure Woken (K : File → Events → Prop) (w v : W T β) : Prop where
  place : v.place = w.place
  queues : v.shared.m_waitQueueList = w.shared.m_waitQueueList
  asleep : ∀ u, v.status u = .blocked → w.status u = .blocked ∧
    ∀ f key, K f key → ∀ m, ⟨u, m⟩ ∈ w.shared.m_waitQueueList f → ¬ Meets key m

omit [DecidableEq T] in
theorem Woken.change (w : W T β) (queues : n.m_waitQueueList = w.shared.m_waitQueueList) :
    Woken (fun _ _ => False) w { w with shared := n } :=
  ⟨rfl, queues, fun _ sleeps => ⟨sleeps, fun _ _ wakes => wakes.elim⟩⟩

theorem Woken.wake (w : W T β) (key : Events) (f : File) :
    Woken (fun g k => g = f ∧ k = key) w (wakeWaiters key f w) := by
  have shared := wakeWaiters_shared key f w
  refine ⟨World.wakeAll_place .., by rw [shared], fun u sleeps => ?_⟩
  obtain ⟨others, before⟩ := (World.wakeAll_status_blocked w u (waiters key f w.shared)).mp sleeps
  refine ⟨before, ?_⟩
  rintro g k ⟨rfl, rfl⟩ m entry meets
  exact others (List.mem_map.mpr ⟨_, List.mem_filter.mpr ⟨entry, decide_eq_true meets⟩, rfl⟩)

section

omit [DecidableEq T]

theorem Woken.trans {K L : File → Events → Prop} {v x : W T β} (first : Woken K w v) (second : Woken L v x) :
    Woken (fun f key => K f key ∨ L f key) w x := by
  refine ⟨second.place.trans first.place, second.queues.trans first.queues, fun u sleeps => ?_⟩
  obtain ⟨middle, later⟩ := second.asleep u sleeps
  obtain ⟨before, sooner⟩ := first.asleep u middle
  refine ⟨before, fun f key wakes m entry => ?_⟩
  rcases wakes with wakes | wakes
  · exact sooner f key wakes m entry
  · exact later f key wakes m (first.queues ▸ entry)

theorem Woken.mono {K L : File → Events → Prop} {v : W T β} (woken : Woken K w v)
    (fewer : ∀ f key, L f key → K f key) : Woken L w v :=
  ⟨woken.place, woken.queues, fun u sleeps =>
    ⟨(woken.asleep u sleeps).1, fun f key wakes => (woken.asleep u sleeps).2 f key (fewer f key wakes)⟩⟩

end

section

variable (during : During t X w)
include during

omit [DecidableEq T] in
theorem During.woken {K : File → Events → Prop} {v : W T β} (woken : Woken K w v) (linked : Linked v.shared)
    (acceptors : ∀ u, u ≠ t → ∀ a last, w.place u = .inside (.accept a last) → Acceptor w.shared a →
      Acceptor v.shared a)
    (ready : ∀ u, u ≠ t → ∀ g events, Polls w u g events → ¬ Y g → Ready v.shared g events →
      (∃ key, K g key ∧ Meets key (pollMask events)) ∨ ¬ X g ∧ Ready w.shared g events) : During t Y v := by
  have watches : ∀ u g events, (watchers v).watches u g events → (watchers w).watches u g events := by
    rintro u g events ⟨fds, endtime, here, inside⟩
    exact ⟨fds, endtime, woken.place ▸ here, inside⟩
  refine ⟨linked, fun u other a last here => ?_, fun u other g events watched => ?_, ?_⟩
  · have before := woken.place ▸ here
    exact acceptors u other a last before (during.acceptor u other a last before)
  · have entry := during.registered u other g events (watches u g events watched)
    exact woken.queues ▸ entry
  · refine during.prompt.step (fun u _ sleeps => (woken.asleep u sleeps).1) (fun u _ => watches u)
      fun u other sleeps g events watched settled now => ?_
    obtain ⟨before, others⟩ := woken.asleep u sleeps
    have here := watches u g events watched
    have entry := during.registered u other g events here
    rcases ready u other g events ⟨before, here⟩ settled now with ⟨key, wakes, meets⟩ | before
    · exact absurd meets (others g key wakes _ entry)
    · exact before

section

variable (queues : n.m_waitQueueList = w.shared.m_waitQueueList)
include queues

theorem During.changeWake (linked : Linked n)
    (acceptors : ∀ u, u ≠ t → ∀ a last, w.place u = .inside (.accept a last) → Acceptor w.shared a → Acceptor n a)
    (ready : ∀ g events, ¬ Y g → Ready n g events → g = f ∧ Meets key (pollMask events) ∨ ¬ X g ∧
      Ready w.shared g events) :
    During t Y (wakeWaiters key f { w with shared := n }) := by
  have shared : (wakeWaiters key f { w with shared := n }).shared = n := wakeWaiters_shared ..
  refine during.woken ((Woken.change w queues).trans (.wake _ key f)) (shared.symm ▸ linked)
    (shared.symm ▸ acceptors) fun u _ g events _ settled now => ?_
  refine (ready g events settled (shared ▸ now)).imp_left fun woken => ?_
  exact ⟨key, .inr ⟨woken.1, rfl⟩, woken.2⟩

omit [DecidableEq T] in
theorem During.change (linked : Linked n)
    (acceptors : ∀ u, u ≠ t → ∀ a last, w.place u = .inside (.accept a last) → Acceptor w.shared a → Acceptor n a)
    (ready : ∀ g events, ¬ Y g → Ready n g events → ¬ X g ∧ Ready w.shared g events) : During t Y
    { w with shared := n } :=
  during.woken (.change w queues) linked acceptors fun _ _ g events _ settled now =>
    .inr (ready g events settled now)

end

theorem During.wake (key : Events) (f : File) : During t X (wakeWaiters key f w) :=
  during.changeWake (n := w.shared) rfl during.linked (fun _ _ _ _ _ => id) fun _ _ settled now =>
    .inr ⟨settled, now⟩

end

theorem During.wakeHup (during : During t (fun g => X g ∨ g = f) w) : During t X (wakeWaiters POLLHUP f w) := by
  refine during.changeWake (n := w.shared) rfl during.linked (fun _ _ _ _ _ => id) fun g events settled now => ?_
  by_cases same : g = f
  · exact .inl ⟨same, meets_hup events⟩
  · exact .inr ⟨fun wrong => wrong.elim settled same, now⟩

end

end Dce.Readiness
