import Dce.Readiness.Changes

/- The calls on datagram sockets wake whoever polls a socket that they make ready, but for a read that makes room for
those that are connected. -/

namespace Dce.Readiness

open Coroutine
open LocalStream (maxBuffer How)

variable {T β : Type*} {t : T} {X : File → Prop} {w v x : W T β} {n n' : Node T β} {a b p : Nat} {events : Events}

theorem datagrams_setDatagram (s : LocalDatagramSocketFd) :
    (setDatagram a s w).shared.datagrams b = if b = a then s else w.shared.datagrams b := by
  by_cases same : b = a
  · subst same
    simp [setDatagram]
  · simp [setDatagram, same]

theorem ready_setDatagram {s : LocalDatagramSocketFd} {g : File} (other : g ≠ .socket .datagram a)
    (now : Ready (setDatagram a s w).shared g events) : Ready w.shared g events := by
  cases g with
  | pipe b => exact now
  | timer b => exact absurd now not_ready_timer
  | socket k b =>
    cases k with
    | stream => exact now
    | datagram =>
      have away : b ≠ a := fun same => other (by rw [same])
      have record : (setDatagram a s w).shared.datagrams b = w.shared.datagrams b := by rw
        [datagrams_setDatagram, if_neg away]
      rw [ready_datagram, datagramCanRecv_iff, datagramCanSend_iff, record] at now
      rw [ready_datagram, datagramCanRecv_iff, datagramCanSend_iff]
      exact now

/-- A socket that is bound or connected is ready for no more than it was before, where it was neither. -/
theorem ready_setDatagram_self {s : LocalDatagramSocketFd} (before : (w.shared.datagrams a).m_state ≠ .CONNECTED)
    (free : s.m_state = .CONNECTED ∨ s.m_state = .BINDED ∧ (w.shared.datagrams a).m_state = .CREATED)
    (now : Ready (setDatagram a s w).shared (.socket .datagram a) events) :
    Ready w.shared (.socket .datagram a) events := by
  have record : (setDatagram a s w).shared.datagrams a = s := by rw [datagrams_setDatagram, if_pos rfl]
  rw [ready_datagram, datagramCanRecv_iff, record] at now
  rw [ready_datagram, datagramCanRecv_iff, datagramCanSend_iff]
  rcases now with ⟨input, meets⟩ | ⟨-, meets⟩ | ⟨hung, -⟩
  · rcases free with connected | ⟨bound, created⟩
    · simp [connected] at input
    · exact .inl ⟨.inl (.inr created), meets⟩
  · exact .inr (.inl ⟨.inl before, meets⟩)
  · rcases free with connected | ⟨bound, -⟩
    · cases connected.symm.trans hung
    · cases bound.symm.trans hung

theorem During.setDatagram {s : LocalDatagramSocketFd} (during : During t X w)
    (linked : Linked (setDatagram a s w).shared)
    (calm : ∀ events, Ready (setDatagram a s w).shared (.socket .datagram a) events →
      Ready w.shared (.socket .datagram a) events) :
    During t X (setDatagram a s w) := by
  refine during.change rfl linked (fun _ _ _ _ _ held => ⟨held.state, held.single⟩) fun g events settled now =>
    ⟨settled, ?_⟩
  by_cases same : g = .socket .datagram a
  · subst same
    exact calm events now
  · exact ready_setDatagram same now

section

/-- A read of `count` bytes from the full socket `a` makes room for those that are connected to it. -/
def Frees (n : Node T β) (a count : Nat) : Prop :=
  maxBuffer ≤ (n.sockets .datagram a).m_readBufferSize ∧
    (n.sockets .datagram a).m_readBufferSize -
    (LocalStream.readData (n.sockets .datagram a).m_readBuffer count).2.length < maxBuffer

/-- Nobody sleeps in a poll for room at the socket `a`. -/
def NoneWaits (w : W T β) (a : Nat) : Prop := ∀ b, Sends w.shared .datagram b a →
  ∀ u events, Polls w u (.socket .datagram b) events → ¬ Meets POLLOUT (pollMask events)

variable [DecidableEq T] (during : During t Settled w)
include during

theorem During.datagramWrite (a : Nat) (buf : List β) : After t (datagramWrite t a buf w) := by
  unfold Readiness.datagramWrite
  dsimp only
  split
  · exact during.fails _
  · split
    · exact during.fails _
    next peer _ =>
      split
      · exact during.fails _
      · have received := during.doRecvPacket .datagram peer buf
        split
        · exact received.fails _
        · exact received.ret _

theorem During.sendLoop (a l : Nat) (dontwait : Bool) (iovs : List (List β)) (retval : Int)
    (wq : Option (Option Nat)) : After t (sendLoop t a l dontwait iovs retval wq w) := by
  induction iovs generalizing w retval with
  | nil => exact during.ret _
  | cons buf iovs ih =>
    unfold Readiness.sendLoop
    split
    · exact ih during retval
    · have received := during.doRecvPacket .datagram l buf
      dsimp only
      split
      · split
        · exact received.fails _
        · exact received.waitOn _ _ _ (show Frame.Plain (.send a l (buf :: iovs) retval _) from trivial)
            (received.fails _)
      · split
        · exact ih received _
        · exact received.fails _

theorem During.sendOn (a l : Nat) (iovs : List (List β)) (retval : Int) (last : Option Nat)
    (interrupted : Bool) : After t (sendOn t a l iovs retval last interrupted w) := by
  have removed := during.removeWaitQueue (.socket .datagram a)
  unfold Readiness.sendOn
  dsimp only
  split
  · split
    · exact removed.fails _
    · exact removed.sendLoop a l false iovs retval _
  · exact removed.fails _
  · exact removed.fails _

theorem During.sendTo (a : Nat) (iovs : List (List β)) (dontwait : Bool) (listener : Option Nat) :
    After t (sendTo t a iovs dontwait listener w) := by
  cases listener with
  | none => exact during.fails _
  | some l => exact during.sendLoop a l dontwait iovs 0 none

theorem During.sendmsg (a : Nat) (name : Option Binder.Path) (iovs : List (List β)) (dontwait : Bool) :
    After t (sendmsg t a name iovs dontwait w) := by
  unfold Readiness.sendmsg
  split
  · exact during.sendTo a iovs dontwait _
  · split
    · exact during.fails _
    · exact during.sendTo a iovs dontwait _
  · exact during.fails _
  · exact during.fails _

theorem During.datagramShutdown (a : Nat) (how : How) : After t (datagramShutdown t a how w) := by
  unfold Readiness.datagramShutdown
  split
  · exact during.fails _
  · refine During.ret ?_ _
    cases how <;> exact during.setSocket rfl

variable (a count : Nat)

omit [DecidableEq T] in
theorem During.takeDatagram (unseen : Frees w.shared a count → NoneWaits w a) :
    During t Settled (takeData .datagram a count w).1 := by
  have linked : Linked (Readiness.takeData .datagram a count w).1.shared :=
    during.linked.congr (fun _ => ⟨rfl, rfl⟩) rfl rfl rfl
  refine during.woken (.change w rfl) linked (fun _ _ _ _ _ held => ⟨held.state, held.single⟩)
    fun u _ g events polls settled now => .inr ⟨settled, ?_⟩
  rcases (requeued_setSocket .datagram a _ w).ready now with before | ⟨-, more, -⟩ | ⟨b, rfl, sends,
    less, full, output⟩
  · exact before
  · rw [size_setSocket] at more
    exact absurd more (not_lt.mpr (Nat.sub_le _ _))
  · rw [size_setSocket] at less
    exact absurd output (unseen ⟨full, less⟩ b sends u events polls)

theorem During.recvLoop (noWait peek : Bool) (wq : Option (Option Nat))
    (unseen : peek = false → Frees w.shared a count → NoneWaits w a) :
    After t (recvLoop t a count noWait peek wq w) := by
  unfold Readiness.recvLoop
  dsimp only
  split
  · exact during.fails _
  · split
    · split
      · split
        · split
          · exact (during.wake _ _).ret _
          · exact during.ret _
        · exact during.ret _
      next whole =>
        have taken := during.takeDatagram a count (unseen (Bool.eq_false_iff.mpr whole))
        split
        · split
          · exact (taken.wake _ _).ret _
          · exact taken.ret _
        · exact taken.ret _
    · split
      · exact during.ret _
      · split
        · exact during.fails _
        · exact during.waitOn _ _ _ (show Frame.Plain (.recv a count peek _) from trivial) (during.fails _)

theorem During.recvOn (peek : Bool) (last : Option Nat) (interrupted : Bool)
    (unseen : peek = false → Frees w.shared a count → NoneWaits w a) :
    After t (recvOn t a count peek last interrupted w) := by
  have removed := during.removeWaitQueue (.socket .datagram a)
  have goesOn : After t (Readiness.recvLoop t a count false peek (some last)
    (Readiness.removeWaitQueue t (.socket .datagram a) w)) :=
    removed.recvLoop a count false peek (some last) fun whole frees b sends u events polls =>
      unseen whole frees b sends u events ⟨polls.asleep, polls.watches⟩
  unfold Readiness.recvOn
  dsimp only
  split
  · exact goesOn
  · split
    · exact removed.fails _
    · exact goesOn
  · split
    · exact removed.fails _
    · exact goesOn

end

section

theorem Linked.setDatagram {s : LocalDatagramSocketFd} (linked : Linked w.shared)
    (mem : s.m_state = .CONNECTED → ∀ d, s.m_peer = some d →
      d ≠ a ∧ (w.shared.datagrams d).m_state = .BINDED ∧ a ∈ (w.shared.datagrams d).m_myPeers)
    (known : ∀ b, (w.shared.datagrams b).m_state = .CONNECTED → (w.shared.datagrams b).m_peer = some a →
      s.m_state = .BINDED ∧ b ∈ s.m_myPeers)
    (connected : ∀ d, s.m_peer = some d → s.m_state = .CONNECTED) (bound : ∀ b ∈ s.m_myPeers, s.m_state = .BINDED) :
    Linked (setDatagram a s w).shared := by
  have record : ∀ b, (Readiness.setDatagram a s w).shared.datagrams b = if b = a then s
    else w.shared.datagrams b := fun b =>
      datagrams_setDatagram s
  refine ⟨linked.paired, linked.joined, linked.emptied, linked.queued, linked.unmade, fun b d state peer => ?_,
    fun b d peer => ?_,
    fun d b inside => ?_⟩
  · rw [record] at state peer
    split at state
    next same =>
      rw [if_pos same] at peer
      obtain ⟨other, its_state, inside⟩ := mem state d peer
      rw [record, if_neg other]
      exact ⟨its_state, same ▸ inside⟩
    next other =>
      rw [if_neg other] at peer
      rw [record]
      split
      next same =>
        exact known b state (same ▸ peer)
      · exact linked.member b d state peer
  · rw [record] at peer ⊢
    split at peer
    next same =>
      rw [if_pos same]
      exact connected d peer
    next other =>
      rw [if_neg other]
      exact linked.connected b d peer
  · rw [record] at inside ⊢
    split at inside
    next same =>
      rw [if_pos same]
      exact bound b inside
    next other =>
      rw [if_neg other]
      exact linked.bound d b inside

theorem Linked.unknown (linked : Linked n) (unbound : (n.datagrams a).m_state ≠ .BINDED) :
    (∀ b, (n.datagrams b).m_state = .CONNECTED → (n.datagrams b).m_peer ≠ some a) ∧
    (n.datagrams a).m_myPeers = [] := by
  refine ⟨fun b state peer => unbound (linked.member b a state peer).1,
    List.eq_nil_iff_forall_not_mem.mpr fun b inside => ?_⟩
  exact unbound (linked.bound a b inside)

theorem Linked.alone (linked : Linked n) (apart : (n.datagrams a).m_state ≠ .CONNECTED) :
    (n.datagrams a).m_peer = none := by
  cases peer : (n.datagrams a).m_peer with
  | none => rfl
  | some d => exact absurd (linked.connected a d peer) apart

variable [DecidableEq T] (during : During t Settled w)
include during

theorem During.datagramBind (a : Nat) (unix : Bool) (path : Binder.Path) (host : Option Nat) :
    After t (datagramBind t a unix path host w) := by
  unfold Readiness.datagramBind
  dsimp only
  split
  · exact during.fails _
  · split
    · exact during.ret _
    next created =>
      rw [not_not] at created
      cases host with
      | some errno => exact during.fails _
      | none =>
        have apart : (w.shared.datagrams a).m_state ≠ .CONNECTED := by simp [created]
        obtain ⟨strangers, -⟩ := during.linked.unknown (a := a) (by simp [created])
        have linked : Linked (Readiness.setDatagram a { w.shared.datagrams a with
          m_state := .BINDED } w).shared := by
          refine during.linked.setDatagram nofun (fun b state peer => absurd peer (strangers b state))
            (fun d peer => ?_) fun _ _ => rfl
          cases (during.linked.alone apart).symm.trans peer
        have bound : During t Settled (Readiness.setDatagram a { w.shared.datagrams a with m_state := .BINDED } w) :=
          during.setDatagram linked fun events => ready_setDatagram_self apart (.inr ⟨rfl, created⟩)
        exact ((bound.setSocket (k := .datagram) (a := a)
          (s := { w.shared.sockets .datagram a with m_bindPath := some path })
          rfl).setBinder path _).ret _

omit during in
omit [DecidableEq T] in
theorem setDatagram_comm (other : a ≠ b) (s s' : LocalDatagramSocketFd) :
    setDatagram a s (setDatagram b s' w) = setDatagram b s' (setDatagram a s w) := by
  unfold setDatagram
  simp only [Function.update_comm other]

omit [DecidableEq T] in
/-- A socket comes to those that are connected to `l`, which is seen before the socket is connected itself. -/
theorem During.addConnected {l : Nat} (bound : (w.shared.datagrams l).m_state = .BINDED)
    (apart : (w.shared.datagrams a).m_state ≠ .CONNECTED) (unbound : (w.shared.datagrams a).m_state ≠ .BINDED) :
    During t Settled (addConnected l a
      (Readiness.setDatagram a { w.shared.datagrams a with m_state := .CONNECTED, m_peer := some l } w)) := by
  have other : l ≠ a := fun same => unbound (same ▸ bound)
  let s := w.shared.datagrams l
  let q := if a ∈ s.m_myPeers then s.m_myPeers else s.m_myPeers ++ [a]
  have listed : a ∈ q := by
    simp only [q]
    split
    · assumption
    · simp
  have kept : ∀ c ∈ s.m_myPeers, c ∈ q := by
    intro c inside
    simp only [q]
    split
    · exact inside
    · exact List.mem_append_left _ inside
  have record : ∀ b, (Readiness.setDatagram l { s with m_myPeers := q } w).shared.datagrams b =
      if b = l then { s with m_myPeers := q } else w.shared.datagrams b := fun b => datagrams_setDatagram _
  have first : During t Settled (Readiness.setDatagram l { s with m_myPeers := q } w) := by
    have linked : Linked (Readiness.setDatagram l { s with m_myPeers := q } w).shared := by
      refine during.linked.setDatagram (fun state => ?_) (fun b state peer => ?_)
        (during.linked.connected l) fun _ _ => bound
      · cases bound.symm.trans state
      · obtain ⟨still, inside⟩ := during.linked.member b l state peer
        exact ⟨still, kept b inside⟩
    refine during.setDatagram linked fun events now => ?_
    rw [ready_datagram, datagramCanRecv_iff, datagramCanSend_iff, record, if_pos rfl] at now
    rw [ready_datagram, datagramCanRecv_iff, datagramCanSend_iff]
    exact now
  have same : (Readiness.setDatagram l { s with m_myPeers := q } w).shared.datagrams a = w.shared.datagrams a := by
    rw [record, if_neg (Ne.symm other)]
  have moved : Readiness.addConnected l a
      (Readiness.setDatagram a { w.shared.datagrams a with m_state := .CONNECTED, m_peer := some l } w) =
      Readiness.setDatagram a { w.shared.datagrams a with m_state := .CONNECTED, m_peer := some l }
        (Readiness.setDatagram l { s with m_myPeers := q } w) := by
    rw [← setDatagram_comm other]
    unfold Readiness.addConnected
    rw [show (Readiness.setDatagram a { w.shared.datagrams a with
      m_state := .CONNECTED, m_peer := some l } w).shared.datagrams l = s
      from (datagrams_setDatagram _).trans (if_neg other)]
  rw [moved]
  have apart' : ((Readiness.setDatagram l { s with m_myPeers := q } w).shared.datagrams a).m_state ≠ .CONNECTED :=
    same.symm ▸ apart
  obtain ⟨strangers, -⟩ := first.linked.unknown (a := a) (same.symm ▸ unbound)
  obtain ⟨-, nobody⟩ := during.linked.unknown unbound
  refine first.setDatagram (first.linked.setDatagram (fun _ d peer => ?_) (fun b state peer =>
    absurd peer (strangers b state))
    (fun _ _ => rfl) fun b inside => ?_) fun events => ready_setDatagram_self apart' (.inl rfl)
  · cases peer
    rw [record, if_pos rfl]
    exact ⟨other, bound, listed⟩
  · rw [nobody] at inside
    cases inside

theorem During.datagramConnect (a : Nat) (path : Binder.Path) : After t (datagramConnect t a path w) := by
  unfold Readiness.datagramConnect
  dsimp only
  split
  · exact during.fails _
  · exact during.fails _
  next unbound apart =>
    split
    next l _ =>
      split
      · exact during.fails _
      next bound =>
        rw [not_not] at bound
        exact (during.addConnected bound apart unbound).ret _
    · exact during.fails _

end

end Dce.Readiness
