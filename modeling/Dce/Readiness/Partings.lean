import Dce.Readiness.Datagrams

/- The `Close` of a datagram socket, which tells all that are connected with it. -/

namespace Dce.Readiness

open Coroutine

variable {T β : Type*} {t : T} {X : File → Prop} {w v x : W T β} {n n' : Node T β} {a b p : Nat} {events : Events}
  {s s' s'' : LocalDatagramSocketFd}

/-- What a socket is after the socket `a` has left it: hung up, or without this one in its list. -/
structure Told (a : Nat) (s s' : LocalDatagramSocketFd) : Prop where
  state : s'.m_state = s.m_state ∧ s'.m_peer = s.m_peer ∨ s.m_state = .CONNECTED ∧ s'.m_state = .REMOTECLOSED ∧
    s'.m_peer = none
  fewer : ∀ c ∈ s'.m_myPeers, c ∈ s.m_myPeers
  rest : ∀ c, c ≠ a → c ∈ s.m_myPeers → c ∈ s'.m_myPeers

theorem Told.refl (a : Nat) (s : LocalDatagramSocketFd) : Told a s s := ⟨.inl ⟨rfl, rfl⟩, fun _ => id, fun _ _ => id⟩

theorem Told.trans (first : Told a s s') (second : Told a s' s'') : Told a s s'' := by
  refine ⟨?_, fun c inside => first.fewer c (second.fewer c inside), fun c other inside =>
    second.rest c other (first.rest c other inside)⟩
  rcases second.state with ⟨state, peer⟩ | ⟨connected, hung, alone⟩
  · rcases first.state with ⟨state', peer'⟩ | ⟨connected, hung, alone⟩
    · exact .inl ⟨state.trans state', peer.trans peer'⟩
    · exact .inr ⟨connected, state.trans hung, peer.trans alone⟩
  · rcases first.state with ⟨state', -⟩ | ⟨-, hung', -⟩
    · exact .inr ⟨state'.symm.trans connected, hung, alone⟩
    · cases hung'.symm.trans connected

theorem Told.apart (told : Told a s s') (apart : s.m_state ≠ .CONNECTED) : s'.m_state ≠ .CONNECTED := by
  rcases told.state with ⟨state, -⟩ | ⟨connected, -⟩
  · rw [state]
    exact apart
  · exact absurd connected apart

section

/-- The wakes of those that are hung up on the way from `w` to `v`. -/
def HungUp (a : Nat) (w v : W T β) (g : File) (key : Events) : Prop :=
  key = POLLHUP ∧ ∃ b, g = .socket .datagram b ∧ b ≠ a ∧
  (v.shared.datagrams b).m_state ≠ (w.shared.datagrams b).m_state

/-- The socket `a` changes, and tells others that it leaves them. -/
structure Parting (a : Nat) (w v : W T β) : Prop where
  woken : Woken (HungUp a w v) w v
  pipes : v.shared.pipes = w.shared.pipes
  streams : v.shared.streams = w.shared.streams
  fresh : v.shared.fresh = w.shared.fresh
  sizes : ∀ k b, (k, b) ≠ (.datagram, a) → (v.shared.sockets k b).m_readBufferSize =
    (w.shared.sockets k b).m_readBufferSize
  told : ∀ b, b ≠ a → Told a (w.shared.datagrams b) (v.shared.datagrams b)

theorem Parting.trans (first : Parting a w v) (second : Parting a v x) : Parting a w x := by
  refine ⟨(first.woken.trans second.woken).mono ?_, second.pipes.trans first.pipes,
    second.streams.trans first.streams,
    second.fresh.trans first.fresh, fun k b other => (second.sizes k b other).trans (first.sizes k b other),
    fun b other => (first.told b other).trans (second.told b other)⟩
  rintro g key ⟨rfl, b, rfl, other, changed⟩
  by_cases early : (v.shared.datagrams b).m_state = (w.shared.datagrams b).m_state
  · exact .inr ⟨rfl, b, rfl, other, early ▸ changed⟩
  · exact .inl ⟨rfl, b, rfl, other, early⟩

theorem Parting.own (queues : n.m_waitQueueList = w.shared.m_waitQueueList) (pipes : n.pipes = w.shared.pipes)
    (streams : n.streams = w.shared.streams) (fresh : n.fresh = w.shared.fresh)
    (sizes : ∀ k b, (k, b) ≠ (.datagram, a) → (n.sockets k b).m_readBufferSize =
      (w.shared.sockets k b).m_readBufferSize)
    (datagrams : ∀ b, b ≠ a → n.datagrams b = w.shared.datagrams b) : Parting a w { w with shared := n } := by
  refine ⟨(Woken.change w queues).mono ?_, pipes, streams, fresh, sizes, fun b other => ?_⟩
  · rintro g key ⟨-, b, -, other, changed⟩
    exact changed (congrArg LocalDatagramSocketFd.m_state (datagrams b other))
  · have same : ({ w with shared := n } : W T β).shared.datagrams b = w.shared.datagrams b := datagrams b other
    exact same.symm ▸ Told.refl a _

theorem Parting.refl (a : Nat) (w : W T β) : Parting a w w := .own rfl rfl rfl rfl (fun _ _ _ => rfl) fun _ _ => rfl

theorem Parting.setDatagram (s : LocalDatagramSocketFd) : Parting a w (setDatagram a s w) :=
  .own rfl rfl rfl rfl (fun _ _ _ => rfl) fun _ other => (datagrams_setDatagram s).trans (if_neg other)

theorem Parting.setSocket (s : LocalSocketFd β) : Parting a w (setSocket .datagram a s w) :=
  .own rfl rfl rfl rfl (requeued_setSocket .datagram a s w).others fun _ _ => rfl

theorem Parting.unRegisterBinder : Parting a w (unRegisterBinder .datagram a w) := by
  unfold Readiness.unRegisterBinder
  split
  · exact .own rfl rfl rfl rfl (fun _ _ _ => rfl) fun _ _ => rfl
  · exact .refl a w

variable [DecidableEq T]

/-- The record of the socket `p` after `RemoveConnected`. -/
def removed (freeOne : Nat) (s : LocalDatagramSocketFd) : LocalDatagramSocketFd :=
  match s.m_state with
  | .BINDED => { s with m_myPeers := s.m_myPeers.erase freeOne }
  | .CONNECTED => { s with m_peer := none, m_state := .REMOTECLOSED }
  | _ => s

section

omit [DecidableEq T]

theorem told_removed (a : Nat) (s : LocalDatagramSocketFd) : Told a s (removed a s) := by
  unfold removed
  split
  · exact ⟨.inl ⟨rfl, rfl⟩, fun c => List.mem_of_mem_erase, fun c other => (List.mem_erase_of_ne other).mpr⟩
  next connected => exact ⟨.inr ⟨connected, rfl, rfl⟩, fun _ => id, fun _ _ => id⟩
  · exact .refl a s

theorem removed_apart (a : Nat) (s : LocalDatagramSocketFd) : (removed a s).m_state ≠ .CONNECTED := by
  unfold removed
  split
  next bound => simp [bound]
  next => simp
  next apart => exact fun connected => apart connected

end

theorem removeConnected_cases (a p : Nat) (w : W T β) : removeConnected a true p w =
        wakeWaiters POLLHUP (.socket .datagram p) (setDatagram p (removed a (w.shared.datagrams p)) w) ∨
      removeConnected a true p w = w ∧ removed a (w.shared.datagrams p) = w.shared.datagrams p := by
  unfold removeConnected
  dsimp only
  split
  next bound => exact .inl (by simp only [removed, bound, hangUp, if_true])
  next connected => exact .inl (by simp only [removed, connected, hangUp, if_true])
  next unbound apart =>
    refine .inr ⟨rfl, ?_⟩
    unfold removed
    split
    next bound => exact absurd bound unbound
    next connected => exact absurd connected apart
    next => rfl

theorem removeConnected_datagrams : (removeConnected a true p w).shared.datagrams b =
    if b = p then removed a (w.shared.datagrams p) else w.shared.datagrams b := by
  rcases removeConnected_cases a p w with told | ⟨nothing, same⟩
  · rw [told, wakeWaiters_shared]
    exact datagrams_setDatagram _
  · rw [nothing, same]
    split
    next here =>
      rw [here]
    · rfl

theorem Parting.tell (told : Told a (w.shared.datagrams p) s) :
    Parting a w (wakeWaiters POLLHUP (.socket .datagram p) (Readiness.setDatagram p s w)) := by
  have shared : (wakeWaiters POLLHUP (.socket .datagram p) (Readiness.setDatagram p s w)).shared =
      (Readiness.setDatagram p s w).shared := wakeWaiters_shared ..
  have record : ∀ b, (wakeWaiters POLLHUP (.socket .datagram p) (Readiness.setDatagram p s w)).shared.datagrams b =
      if b = p then s else w.shared.datagrams b := fun b => by
    rw [shared]
    exact datagrams_setDatagram s
  have changed : Woken (fun _ _ => False) w (Readiness.setDatagram p s w) := .change w rfl
  refine ⟨(changed.trans (.wake _ POLLHUP _)).mono ?_, ?_, ?_, ?_, ?_, fun b _ => ?_⟩
  · rintro g key ⟨rfl, b, rfl, -, changed⟩
    rw [record] at changed
    split at changed
    next same =>
      exact .inr ⟨by rw [same], rfl⟩
    · exact absurd rfl changed
  · rw [shared]
    rfl
  · rw [shared]
    rfl
  · rw [shared]
    rfl
  · intro k b _
    rw [shared]
    rfl
  · rw [record]
    split
    next same =>
      exact same ▸ told
    · exact .refl a _

theorem Parting.removeConnected (a p : Nat) (w : W T β) : Parting a w (removeConnected a true p w) := by
  rcases removeConnected_cases a p w with told | ⟨nothing, -⟩
  · rw [told]
    exact .tell (told_removed a _)
  · rw [nothing]
    exact .refl a w

theorem Parting.removeAll (ps : List Nat) (w : W T β) :
    Parting a w (ps.foldl (fun w i => Readiness.removeConnected a true i w) w) ∧
      ∀ b ∈ ps, b ≠ a → ((ps.foldl (fun w i => Readiness.removeConnected a true i w) w).shared.datagrams b).m_state ≠
      .CONNECTED := by
  induction ps generalizing w with
  | nil => exact ⟨.refl a w, nofun⟩
  | cons p ps ih =>
    obtain ⟨others, apart⟩ := ih (Readiness.removeConnected a true p w)
    refine ⟨(Parting.removeConnected a p w).trans others, fun b inside other => ?_⟩
    rcases List.mem_cons.mp inside with rfl | inside
    · refine (others.told b other).apart ?_
      rw [removeConnected_datagrams, if_pos rfl]
      exact removed_apart a _
    · exact apart b inside other

theorem removeAll_own (ps : List Nat) (closed : (w.shared.datagrams a).m_state = .CLOSED) :
    (ps.foldl (fun w i => removeConnected a true i w) w).shared.datagrams a = w.shared.datagrams a := by
  induction ps generalizing w with
  | nil => rfl
  | cons p ps ih =>
    have same : (removeConnected a true p w).shared.datagrams a = w.shared.datagrams a := by
      rw [removeConnected_datagrams]
      split
      next here =>
        rw [← here, removed, closed]
      · rfl
    exact (ih (same.symm ▸ closed)).trans same

section

variable (closed : (w.shared.datagrams a).m_state = .CLOSED)
include closed

theorem Parting.clearPeer : Parting a w (clearPeer a true w) ∧
    (clearPeer a true w).shared.datagrams a = { w.shared.datagrams a with m_peer := none } := by
  have own : (Readiness.setDatagram a { w.shared.datagrams a with m_peer := none } w).shared.datagrams a =
      { w.shared.datagrams a with m_peer := none } := (datagrams_setDatagram _).trans (if_pos rfl)
  unfold Readiness.clearPeer
  dsimp only
  split
  · refine ⟨(Parting.setDatagram _).trans (.removeConnected a _ _), ?_⟩
    exact (removeAll_own [_] (by rw [own]; exact closed)).trans own
  next alone =>
    refine ⟨.refl a w, ?_⟩
    rw [← alone]

theorem Parting.clearMyPeers : Parting a w (clearMyPeers a true w) ∧
    (clearMyPeers a true w).shared.datagrams a = { w.shared.datagrams a with m_myPeers := [] } ∧
    ∀ b ∈ (w.shared.datagrams a).m_myPeers, b ≠ a →
    ((clearMyPeers a true w).shared.datagrams b).m_state ≠ .CONNECTED := by
  have own : (Readiness.setDatagram a { w.shared.datagrams a with m_myPeers := [] } w).shared.datagrams a =
      { w.shared.datagrams a with m_myPeers := [] } := (datagrams_setDatagram _).trans (if_pos rfl)
  obtain ⟨parting, apart⟩ := Parting.removeAll (a := a) (w.shared.datagrams a).m_myPeers
    (Readiness.setDatagram a { w.shared.datagrams a with m_myPeers := [] } w)
  refine ⟨(Parting.setDatagram _).trans parting, ?_, apart⟩
  exact (removeAll_own _ (by rw [own]; exact closed)).trans own

end

/-- The end of `ClearAll`, but for the wake. -/
def clearRest (a : Nat) (w : W T β) : W T β :=
  clearReadBuffer .datagram a (clearBindPath .datagram a (unRegisterBinder .datagram a w))

omit [DecidableEq T] in
theorem Parting.clearRest (a : Nat) (w : W T β) : Parting a w (clearRest a w) ∧
    (clearRest a w).shared.datagrams = w.shared.datagrams := by
  refine ⟨(Parting.unRegisterBinder.trans (.setSocket _)).trans (.setSocket _), ?_⟩
  unfold Readiness.clearRest Readiness.unRegisterBinder
  split <;> rfl

/-- The socket is closed, and no other one is connected to it any more. -/
structure Parted (a : Nat) (w v : W T β) : Prop extends Parting a w v where
  own : v.shared.datagrams a = ⟨.CLOSED, none, []⟩
  left : ∀ b ∈ (w.shared.datagrams a).m_myPeers, b ≠ a → (v.shared.datagrams b).m_state ≠ .CONNECTED

theorem datagramClose_told (open_ : (w.shared.datagrams a).m_state = .CONNECTED ∨
      (w.shared.datagrams a).m_state = .BINDED) :
    ∃ v, datagramClose a w = wakeWaiters POLLHUP (.socket .datagram a) v ∧ Parted a w v := by
  let w₁ := Readiness.setDatagram a { w.shared.datagrams a with m_state := .CLOSED } w
  have own₁ : w₁.shared.datagrams a = { w.shared.datagrams a with m_state := .CLOSED } :=
    (datagrams_setDatagram _).trans (if_pos rfl)
  obtain ⟨second, own₂⟩ := Parting.clearPeer (w := w₁) (a := a) (by rw [own₁])
  obtain ⟨third, own₃, left⟩ :=
    Parting.clearMyPeers (w := Readiness.clearPeer a true w₁) (a := a) (by rw [own₂, own₁])
  obtain ⟨fourth, same⟩ := Parting.clearRest a (Readiness.clearMyPeers a true (Readiness.clearPeer a true w₁))
  refine ⟨Readiness.clearRest a (Readiness.clearMyPeers a true (Readiness.clearPeer a true w₁)), ?_,
    ((Parting.setDatagram _).trans second).trans (third.trans fourth), ?_, fun b inside other => ?_⟩
  · unfold datagramClose
    dsimp only
    rw [show decide ((w.shared.datagrams a).m_state = .CONNECTED ∨
      (w.shared.datagrams a).m_state = .BINDED) = true from
      decide_eq_true open_]
    rfl
  · rw [same, own₃, own₂, own₁]
  · rw [same]
    refine left b ?_ other
    rw [own₂, own₁]
    exact inside

theorem datagramClose_quiet (linked : Linked w.shared) (apart : (w.shared.datagrams a).m_state ≠ .CONNECTED)
    (unbound : (w.shared.datagrams a).m_state ≠ .BINDED) : Parted a w (datagramClose a w) := by
  have alone := linked.alone apart
  obtain ⟨-, nobody⟩ := linked.unknown unbound
  let w₁ := Readiness.setDatagram a { w.shared.datagrams a with m_state := .CLOSED } w
  have own₁ : w₁.shared.datagrams a = { w.shared.datagrams a with m_state := .CLOSED } :=
    (datagrams_setDatagram _).trans (if_pos rfl)
  have second : Readiness.clearPeer a false w₁ = w₁ := by
    unfold Readiness.clearPeer
    dsimp only
    rw [own₁, alone]
  have third : Readiness.clearMyPeers a false w₁ = Readiness.setDatagram a
      { w₁.shared.datagrams a with m_myPeers := [] } w₁ := by
    unfold Readiness.clearMyPeers
    dsimp only
    rw [own₁, nobody]
    rfl
  have closes : datagramClose a w =
      Readiness.clearRest a (Readiness.setDatagram a { w₁.shared.datagrams a with m_myPeers := [] } w₁) := by
    unfold datagramClose
    dsimp only
    rw [show decide ((w.shared.datagrams a).m_state = .CONNECTED ∨
      (w.shared.datagrams a).m_state = .BINDED) = false from
      decide_eq_false (not_or.mpr ⟨apart, unbound⟩)]
    rw [second, third]
    rfl
  rw [closes]
  obtain ⟨fourth, same⟩ :=
    Parting.clearRest a (Readiness.setDatagram a { w₁.shared.datagrams a with m_myPeers := [] } w₁)
  refine ⟨((Parting.setDatagram _).trans (.setDatagram _)).trans fourth, ?_, fun b inside => ?_⟩
  · rw [same]
    refine ((datagrams_setDatagram _).trans (if_pos rfl)).trans ?_
    rw [own₁]
    simp only [alone]
  · rw [nobody] at inside
    cases inside

end

section

theorem Parted.same (parted : Parted a w v) (linked : Linked w.shared)
    (state : (v.shared.datagrams b).m_state = .CONNECTED) :
    b ≠ a ∧ (w.shared.datagrams b).m_state = .CONNECTED ∧
    (v.shared.datagrams b).m_peer = (w.shared.datagrams b).m_peer ∧
      (w.shared.datagrams b).m_peer ≠ some a := by
  have other : b ≠ a := by
    rintro rfl
    rw [parted.own] at state
    cases state
  rcases (parted.told b other).state with ⟨same, peer⟩ | ⟨-, hung, -⟩
  · have before : (w.shared.datagrams b).m_state = .CONNECTED := same.symm.trans state
    refine ⟨other, before, peer, fun mine => ?_⟩
    exact parted.left b (linked.member b a before mine).2 other state
  · cases hung.symm.trans state

theorem Parted.linked (parted : Parted a w v) (linked : Linked w.shared) : Linked v.shared := by
  refine ⟨parted.pipes ▸ linked.paired, parted.streams ▸ linked.joined, parted.streams ▸ linked.emptied,
    parted.streams ▸ linked.queued, ?_, fun b d state peer => ?_, fun b d peer => ?_, fun d b inside => ?_⟩
  · rw [parted.streams, parted.fresh]
    exact linked.unmade
  · obtain ⟨other, before, same, away⟩ := parted.same linked state
    rw [same] at peer
    have notA : d ≠ a := by
      rintro rfl
      exact away peer
    obtain ⟨bound, inside⟩ := linked.member b d before peer
    have told := parted.told d notA
    refine ⟨?_, told.rest b other inside⟩
    rcases told.state with ⟨same, -⟩ | ⟨connected, -⟩
    · exact same.trans bound
    · cases bound.symm.trans connected
  · by_cases here : b = a
    · rw [here, parted.own] at peer
      cases peer
    · rcases (parted.told b here).state with ⟨same, same_peer⟩ | ⟨-, -, alone⟩
      · rw [same_peer] at peer
        exact same.trans (linked.connected b d peer)
      · cases alone.symm.trans peer
  · by_cases here : d = a
    · rw [here, parted.own] at inside
      cases inside
    · have told := parted.told d here
      have bound := linked.bound d b (told.fewer b inside)
      rcases told.state with ⟨same, -⟩ | ⟨connected, -⟩
      · exact same.trans bound
      · cases bound.symm.trans connected

theorem Parted.ready (parted : Parted a w v) (linked : Linked w.shared) {g : File} (now : Ready v.shared g events) :
    g = .socket .datagram a ∨ HungUp a w v g POLLHUP ∨ Ready w.shared g events := by
  cases g with
  | pipe b =>
    rw [ready_pipe, parted.pipes] at now
    exact .inr (.inr (ready_pipe.mpr now))
  | timer b => exact absurd now not_ready_timer
  | socket k b =>
    cases k with
    | stream =>
      have sizes : ∀ c, (v.shared.sockets .stream c).m_readBufferSize =
        (w.shared.sockets .stream c).m_readBufferSize := fun c =>
          parted.sizes .stream c nofun
      rw [ready_stream, streamCanRecv_iff, streamCanSend_iff, parted.streams] at now
      simp only [sizes] at now
      exact .inr (.inr (ready_stream.mpr (by rw [streamCanRecv_iff, streamCanSend_iff]; exact now)))
    | datagram =>
      by_cases here : b = a
      · exact .inl (by rw [here])
      · by_cases same : (v.shared.datagrams b).m_state = (w.shared.datagrams b).m_state
        · refine .inr (.inr ?_)
          rw [ready_datagram, datagramCanRecv_iff, datagramCanSend_iff, same,
            parted.sizes .datagram b (by simp [here])] at now
          rw [ready_datagram, datagramCanRecv_iff, datagramCanSend_iff]
          refine now.imp_right fun rest => rest.imp_left fun output => output.imp_left fun sends => ?_
          by_cases state : (w.shared.datagrams b).m_state = .CONNECTED
          · obtain ⟨p, peer, room⟩ := sends.resolve_left fun other => other state
            obtain ⟨-, -, same_peer, away⟩ := parted.same linked (same.trans state)
            rw [same_peer] at peer
            have other : p ≠ a := by
              rintro rfl
              exact away peer
            exact .inr ⟨p, peer, parted.sizes .datagram p (by simp [other]) ▸ room⟩
          · exact .inl state
        · exact .inr (.inl ⟨rfl, b, rfl, here, same⟩)

theorem Parted.acceptor (parted : Parted a w v) (held : Acceptor w.shared b) : Acceptor v.shared b :=
  ⟨parted.streams ▸ held.state, parted.streams ▸ held.single⟩

variable [DecidableEq T]

theorem During.datagramClose (during : During t Settled w) (a : Nat) : During t Settled (datagramClose a w) := by
  by_cases open_ : (w.shared.datagrams a).m_state = .CONNECTED ∨ (w.shared.datagrams a).m_state = .BINDED
  · obtain ⟨v, closes, parted⟩ := datagramClose_told open_
    rw [closes]
    have shared : (wakeWaiters POLLHUP (.socket .datagram a) v).shared = v.shared := wakeWaiters_shared ..
    refine during.woken (parted.woken.trans (.wake v POLLHUP _)) (shared ▸ parted.linked during.linked)
      (fun _ _ _ _ _ held => shared ▸ parted.acceptor held) fun u _ g events _ settled now => ?_
    rw [shared] at now
    rcases parted.ready during.linked now with rfl | hung | before
    · exact .inl ⟨_, .inr ⟨rfl, rfl⟩, meets_hup events⟩
    · exact .inl ⟨_, .inl hung, meets_hup events⟩
    · exact .inr ⟨settled, before⟩
  · obtain ⟨apart, unbound⟩ := not_or.mp open_
    have parted := datagramClose_quiet during.linked apart unbound
    refine during.woken parted.woken (parted.linked during.linked) (fun _ _ _ _ _ held => parted.acceptor held)
      fun u _ g events _ settled now => ?_
    rcases parted.ready during.linked now with rfl | hung | before
    · -- it was writable before, and readable or hung up
      refine .inr ⟨settled, ?_⟩
      rw [ready_datagram, datagramCanRecv_iff, datagramCanSend_iff]
      rw [ready_datagram, parted.own] at now
      cases state : (w.shared.datagrams a).m_state with
      | BINDED => exact absurd state unbound
      | CONNECTED => exact absurd state apart
      | REMOTECLOSED => exact .inr (.inr ⟨rfl, meets_hup events⟩)
      | CREATED | CLOSED =>
        rcases now with ⟨-, input⟩ | ⟨-, output⟩ | ⟨hung, -⟩
        · exact .inl ⟨.inl (by simp), input⟩
        · exact .inr (.inl ⟨.inl nofun, output⟩)
        · cases hung
    · exact .inl ⟨_, hung, meets_hup events⟩
    · exact .inr ⟨settled, before⟩

end

end Dce.Readiness
