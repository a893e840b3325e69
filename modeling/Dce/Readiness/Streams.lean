import Dce.Readiness.Changes
import Dce.Readiness.FailedCalls

/- The calls on stream sockets wake whoever polls a socket that they make ready, but for the `Close` of one that is
not connected yet. -/

namespace Dce.Readiness

open Coroutine List Option
open LocalStream (maxBuffer How)

variable {T β : Type*} {t : T} {X Y : File → Prop} {w : W T β} {n n' : Node T β} {a b f p : Nat} {events : Events}

section

/-- The states of a socket that was put in the queue of a listener. -/
def Joining (s : LocalStream.State) : Prop := s = .CONNECTING ∨ s = .CONNECTED ∨ s = .REMOTECLOSED ∨ s = .CLOSED

theorem streams_setStream (s : LocalStreamSocketFd) :
    (setStream a s w).shared.streams b = if b = a then s else w.shared.streams b := by
  by_cases same : b = a
  · subst same
    simp [setStream]
  · simp [setStream, same]

variable {s : LocalStreamSocketFd} {st : LocalStream.State} {q : List Nat}

theorem ready_setStream {g : File} (other : g ≠ .socket .stream a) (now : Ready (setStream a s w).shared g events) :
    Ready w.shared g events := by
  cases g with
  | pipe b => exact now
  | timer b => exact absurd now not_ready_timer
  | socket k b =>
    cases k with
    | datagram => exact now
    | stream =>
      have away : b ≠ a := fun same => other (by rw [same])
      have record : (setStream a s w).shared.streams b = w.shared.streams b := by rw [streams_setStream, if_neg away]
      rw [ready_stream, streamCanRecv_iff, streamCanSend_iff, record] at now
      rw [ready_stream, streamCanRecv_iff, streamCanSend_iff]
      exact now

theorem ready_setStream_self (now : Ready (setStream a s w).shared (.socket .stream a) events) :
    (((s.m_state = .CONNECTED ∨ s.m_state = .REMOTECLOSED) ∧ 0 < (w.shared.sockets .stream a).m_readBufferSize ∨
          (s.m_state = .LISTENING ∨ s.m_state = .ACCEPTING) ∧ 0 < s.m_cnxQueue.length) ∧
          Meets POLLIN (pollMask events)) ∨
      ((s.m_state ≠ .CONNECTED ∨ ∃ p, s.m_peer = some p ∧
        (w.shared.sockets .stream p).m_readBufferSize < maxBuffer) ∧
          Meets POLLOUT (pollMask events)) ∨
      ((s.m_state = .CLOSED ∨ s.m_state = .REMOTECLOSED) ∧ Meets POLLHUP (pollMask events)) := by
  have record : (setStream a s w).shared.streams a = s := by rw [streams_setStream, if_pos rfl]
  rw [ready_stream, streamCanRecv_iff, streamCanSend_iff, record] at now
  exact now

theorem Linked.setStream (linked : Linked w.shared) (made : w.shared.fresh ≤ a → s = w.shared.streams a)
    (mine : s.m_state = .CONNECTED → s = { w.shared.streams a with m_cnxQueue := s.m_cnxQueue })
    (theirs : (w.shared.streams a).m_state = .CONNECTED → s.m_state ≠ .CONNECTED →
      ∀ b, (w.shared.streams b).m_state = .CONNECTED →
      (w.shared.streams b).m_peer ≠ some a)
    (emptied : Unqueued s.m_state → s.m_cnxQueue = [])
    (queue : ∀ b ∈ s.m_cnxQueue, if b = a then Joining s.m_state else Joining (w.shared.streams b).m_state)
    (queued : ∀ l, l ≠ a → a ∈ (w.shared.streams l).m_cnxQueue → Joining s.m_state) :
    Linked (setStream a s w).shared := by
  have record : ∀ b, (Readiness.setStream a s w).shared.streams b = if b = a then s
    else w.shared.streams b := fun b =>
      streams_setStream s
  refine ⟨linked.paired, fun b p state peer => ?_, fun b state => ?_, fun l b inside => ?_, fun b above => ?_,
    linked.member,
    linked.connected, linked.bound⟩
  · -- neither socket of the pair has changed as far as the other one sees
    have before : (w.shared.streams b).m_state = .CONNECTED ∧ (w.shared.streams b).m_peer = some p := by
      rw [record] at state peer
      split at state
      next same =>
        rw [if_pos same, mine state] at peer
        rw [mine state] at state
        exact ⟨same ▸ state, same ▸ peer⟩
      next other =>
        rw [if_neg other] at peer
        exact ⟨state, peer⟩
    obtain ⟨its_state, its_peer⟩ := linked.joined b p before.1 before.2
    rw [record]
    split
    next same =>
      subst same
      by_cases still : s.m_state = .CONNECTED
      · rw [mine still]
        exact ⟨its_state, its_peer⟩
      · exact absurd before.2 (theirs its_state still b before.1)
    · exact ⟨its_state, its_peer⟩
  · rw [record] at state ⊢
    split at state
    next same =>
      rw [if_pos same]
      exact emptied state
    next other =>
      rw [if_neg other]
      exact linked.emptied b state
  · rw [record] at inside ⊢
    split at inside
    · have there := queue b inside
      split
      next same =>
        rwa [if_pos same] at there
      next other =>
        rwa [if_neg other] at there
    next other =>
      split
      next same =>
        exact queued l other (same ▸ inside)
      · exact linked.queued l b inside
  · rw [record]
    split
    next same =>
      subst same
      exact (made above).trans (linked.unmade b above)
    · exact linked.unmade b above

/-- The states of a socket at which an accept may wait. -/
def Accepting (s : LocalStream.State) : Prop := s = .ACCEPTING ∨ s = .LISTENING ∨ s = .CLOSED

/-- The new record is ready for nothing that the old one was not. -/
structure Calm (s s' : LocalStreamSocketFd) : Prop where
  input : s'.m_state = .CONNECTED ∨ s'.m_state = .REMOTECLOSED → s.m_state = .CONNECTED ∨ s.m_state = .REMOTECLOSED
  queue : s'.m_state = .LISTENING ∨ s'.m_state = .ACCEPTING → 0 < s'.m_cnxQueue.length →
    (s.m_state = .LISTENING ∨ s.m_state = .ACCEPTING) ∧ 0 < s.m_cnxQueue.length
  output : s.m_state = .CONNECTED → s'.m_state = .CONNECTED ∧ s'.m_peer = s.m_peer
  hangup : s'.m_state = .CLOSED ∨ s'.m_state = .REMOTECLOSED → s.m_state = .CLOSED ∨ s.m_state = .REMOTECLOSED

theorem Calm.ready (calm : Calm (w.shared.streams a) s) {g : File}
    (now : Ready (setStream a s w).shared g events) : Ready w.shared g events := by
  by_cases other : g ≠ .socket .stream a
  · exact ready_setStream other now
  · obtain rfl := not_not.mp other
    rw [ready_stream, streamCanRecv_iff, streamCanSend_iff]
    rcases ready_setStream_self now with ⟨⟨state, bytes⟩ | ⟨state, queue⟩, input⟩ | ⟨output, writes⟩ | ⟨state, hup⟩
    · exact .inl ⟨.inl ⟨calm.input state, bytes⟩, input⟩
    · exact .inl ⟨.inr (calm.queue state queue), input⟩
    · refine .inr (.inl ⟨?_, writes⟩)
      by_cases connected : (w.shared.streams a).m_state = .CONNECTED
      · obtain ⟨still, peer⟩ := calm.output connected
        rw [peer] at output
        exact .inr (output.resolve_left fun changed => changed still)
      · exact .inl connected
    · exact .inr (.inr ⟨calm.hangup state, hup⟩)

theorem Calm.state (apart : s.m_state ≠ .CONNECTED)
    (plain : st = .BINDED ∨ st = .LISTENING ∨ st = .ACCEPTING ∨ st = .CONNECTING)
    (listens : st = .LISTENING ∨ st = .ACCEPTING → 0 < s.m_cnxQueue.length →
      s.m_state = .LISTENING ∨ s.m_state = .ACCEPTING) :
    Calm s { s with m_state := st } := by
  refine ⟨fun state => ?_, fun state some => ⟨listens state some, some⟩, fun connected => absurd connected apart,
    fun state => ?_⟩ <;>
  · rcases plain with rfl | rfl | rfl | rfl <;> simp at state

theorem Calm.fewer (fewer : ∀ b ∈ q, b ∈ s.m_cnxQueue) : Calm s { s with m_cnxQueue := q } := by
  refine ⟨id, fun state some => ⟨state, ?_⟩, fun connected => ⟨connected, rfl⟩, id⟩
  obtain ⟨b, inside⟩ := exists_mem_of_length_pos some
  exact length_pos_of_mem (fewer b inside)

theorem Acceptor.setStream (held : Acceptor w.shared b) (state : b = a → Accepting s.m_state)
    (queue : b ∉ (w.shared.streams a).m_cnxQueue → b ∉ s.m_cnxQueue) : Acceptor (setStream a s w).shared b := by
  refine ⟨?_, fun l inside => ?_⟩
  · rw [streams_setStream]
    split
    next same =>
      exact state same
    · exact held.state
  · rw [streams_setStream] at inside
    split at inside
    · exact queue (held.single a) inside
    · exact held.single l inside

section

variable (linked : Linked w.shared)
include linked

theorem Linked.setStreamState (made : a < w.shared.fresh)
    (apart : (w.shared.streams a).m_state ≠ .CONNECTED) (single : st ≠ .CONNECTED)
    (emptied : Unqueued st → (w.shared.streams a).m_cnxQueue = [])
    (queued : Joining (w.shared.streams a).m_state → Joining st) : Linked (setStreamState a st w).shared := by
  refine linked.setStream (fun above => absurd made (not_lt.mpr above)) (fun connected => absurd connected single)
    (fun connected => absurd connected apart) emptied (fun b inside => ?_) fun l _ inside =>
      queued (linked.queued l a inside)
  have joining := linked.queued a b inside
  split
  next same =>
    exact queued (same ▸ joining)
  · exact joining

theorem Linked.setCnxQueue (made : w.shared.fresh ≤ a → q = (w.shared.streams a).m_cnxQueue)
    (emptied : Unqueued (w.shared.streams a).m_state → q = [])
    (queue : ∀ b ∈ q, b ∈ (w.shared.streams a).m_cnxQueue ∨ Joining (w.shared.streams b).m_state) :
    Linked (Readiness.setStream a { w.shared.streams a with m_cnxQueue := q } w).shared := by
  refine linked.setStream (fun above => ?_) (fun _ => rfl) (fun connected changed =>
    absurd connected changed) emptied
    (fun b inside => ?_) fun l _ inside => linked.queued l a inside
  · rw [made above]
  have joining : Joining (w.shared.streams b).m_state := (queue b inside).elim (linked.queued a b) id
  split
  next same =>
    exact same ▸ joining
  · exact joining

theorem Linked.made (used : (w.shared.streams a).m_state ≠ .CREATED) : a < w.shared.fresh := by
  by_contra above
  exact used (congrArg LocalStreamSocketFd.m_state (linked.unmade a (not_lt.mp above)))

end

theorem During.setStream (during : During t X w) (calm : Calm (w.shared.streams a) s)
    (linked : Linked (setStream a s w).shared)
    (state : ∀ u, u ≠ t → ∀ last, w.place u = .inside (.accept a last) → Accepting s.m_state)
    (fewer : ∀ b ∈ s.m_cnxQueue, b ∈ (w.shared.streams a).m_cnxQueue) : During t X (setStream a s w) := by
  refine during.change rfl linked (fun u other b last here held => ?_) fun g events settled now =>
    ⟨settled, calm.ready now⟩
  exact held.setStream (fun same => state u other last (same ▸ here)) fun outside inside => outside (fewer b inside)

end

section

variable [DecidableEq T] (during : During t Settled w)
include during

theorem During.streamBind (made : a < w.shared.fresh) (unix : Bool) (path : Binder.Path)
    (host : Option Nat) : After t (streamBind t a unix path host w) := by
  unfold Readiness.streamBind
  split
  · exact during.fails _
  · split
    · exact during.ret _
    next created =>
      rw [not_not] at created
      cases host with
      | some errno => exact during.fails _
      | none =>
        have empty := during.linked.emptied a (.inl created)
        have apart : (w.shared.streams a).m_state ≠ .CONNECTED := by simp [created]
        have bound : During t Settled (setStreamState a .BINDED w) := by
          refine during.setStream (.state apart (.inl rfl) nofun) ?_ (fun u other last here => ?_) fun _ => id
          · exact during.linked.setStreamState made apart nofun (fun _ => empty) (by simp [created, Joining])
          · have state := (during.acceptor u other a last here).state
            simp [created] at state
        exact ((bound.setSocket (k := .stream) (a := a)
          (s := { w.shared.sockets .stream a with m_bindPath := some path })
          rfl).setBinder path _).ret _

theorem During.streamListen (made : a < w.shared.fresh) : After t (streamListen t a w) := by
  unfold Readiness.streamListen
  split
  · exact during.fails _
  next bound =>
    rw [not_not] at bound
    have empty := during.linked.emptied a (.inr (.inl bound))
    have apart : (w.shared.streams a).m_state ≠ .CONNECTED := by simp [bound]
    have listens : During t Settled (setStreamState a .LISTENING w) := by
      refine during.setStream (.state apart (.inr (.inl rfl)) (by simp [empty])) ?_ (fun _ _ _ _ =>
        .inr (.inl rfl)) fun _ => id
      exact during.linked.setStreamState made apart nofun (fun _ => empty) (by simp [bound, Joining])
    dsimp only
    split
    · exact (listens.setBinder _ _).ret _
    · exact listens.ret _

omit during in
theorem During.connectionCreated {l : Nat} (during : During t X w)
    (joining : (w.shared.streams a).m_state = .CONNECTING)
    (listens : ¬ Unqueued (w.shared.streams l).m_state)
    (nobody : ∀ u, u ≠ t → ∀ last, w.place u ≠ .inside (.accept a last)) : During t X (connectionCreated l a w) := by
  have made : l < w.shared.fresh := during.linked.made fun created => listens (.inl created)
  refine during.changeWake rfl ?_ (fun u other b last here held => ?_) fun g events settled now => ?_
  · refine during.linked.setCnxQueue (fun above => absurd made (not_lt.mpr above)) (fun none => absurd none listens)
      fun b inside => ?_
    rcases mem_append.mp inside with before | new
    · exact .inl before
    · obtain rfl := mem_singleton.mp new
      exact .inr (.inl joining)
  · refine held.setStream (fun same => same ▸ held.state) fun outside inside => ?_
    rcases mem_append.mp inside with before | new
    · exact outside before
    · obtain rfl := mem_singleton.mp new
      exact nobody u other last here
  · by_cases same : g = .socket .stream l
    · subst same
      rcases ready_setStream_self now with ⟨-, input⟩ | output | hup
      · exact .inl ⟨rfl, input⟩
      · exact .inr ⟨settled, ready_stream.mpr (.inr (.inl ⟨streamCanSend_iff.mpr output.1, output.2⟩))⟩
      · exact .inr ⟨settled, ready_stream.mpr (.inr (.inr hup))⟩
    · exact .inr ⟨settled, ready_setStream same now⟩

theorem During.streamConnect (opened : Open w.shared (.socket .stream a)) (path : Binder.Path)
    (careful : Waits w.shared a path → (w.shared.streams a).m_state ≠ .CONNECTED ∧
      ∀ u, u ≠ t → ∀ last, w.place u ≠ .inside (.accept a last)) : After t (streamConnect t a path w) := by
  unfold Readiness.streamConnect
  split
  · exact during.fails _
  next factory =>
    split
    · exact during.fails _
    next l found =>
      dsimp only
      split
      · exact during.ret _
      next listens =>
        rw [not_and_or, not_not, not_not] at listens
        split
        · exact during.fails _
        next ready =>
          rw [not_and_or, Bool.not_eq_true] at ready
          have waits : Waits w.shared a path := by
            refine ⟨opened, by simpa using factory, l, found, ?_⟩
            tauto
          obtain ⟨apart, nobody⟩ := careful waits
          have connects : During t Settled (setStreamState a .CONNECTING w) := by
            refine during.setStream (.state apart (by simp) (by simp)) ?_ (fun u other last here =>
              absurd here (nobody u other last))
              fun _ => id
            exact during.linked.setStreamState opened.1 apart (by rintro ⟨⟩) (by simp [Unqueued]) (by simp [Joining])
          have waits := connects.addWaitQueue readerMask (.socket .stream a)
          have record : ∀ b, (setStreamState a .CONNECTING w).shared.streams b =
              if b = a then { w.shared.streams a with m_state := .CONNECTING } else w.shared.streams b :=
            fun b => streams_setStream _
          have queued := waits.connectionCreated (a := a) (l := l) ?_ ?_ nobody
          · split
            · exact queued.sleepUntil trivial
            · exact queued.sleep trivial
          · show ((setStreamState a .CONNECTING w).shared.streams a).m_state = .CONNECTING
            rw [record, if_pos rfl]
          · show ¬ Unqueued ((setStreamState a .CONNECTING w).shared.streams l).m_state
            rw [record]
            split
            · simp [Unqueued]
            · rcases listens with state | state <;> simp [state, Unqueued]

theorem During.connectOn (a l : Nat) : After t (connectOn t a l w) := by
  have removed := during.removeWaitQueue (.socket .stream a)
  unfold Readiness.connectOn
  dsimp only
  split
  · exact removed.ret _
  · have fewer : ∀ b ∈ (w.shared.streams l).m_cnxQueue.filter (· ≠ a), b ∈ (w.shared.streams l).m_cnxQueue :=
      fun b inside =>
        mem_of_mem_filter inside
    refine During.fails (removed.setStream (.fewer fewer) ?_ (fun u other last here => ?_) fewer) _
    · refine removed.linked.setCnxQueue (fun above => ?_) (fun none => ?_) fun b inside => .inl (fewer b inside)
      · rw [show (Readiness.removeWaitQueue t (.socket .stream a) w).shared.streams = w.shared.streams from rfl,
          during.linked.unmade l above]
        rfl
      · rw [during.linked.emptied l none]
        rfl
    · exact (removed.acceptor u other l last here).state

end

section

variable [DecidableEq T]

omit [DecidableEq T] in
theorem During.shut (during : During t X w) (k : Kind) (a : Nat) (how : How) : During t X (shut k a how w) := by
  cases how <;> exact during.setSocket rfl

section

variable (during : During t Settled w)
include during

theorem During.streamShutdown (a : Nat) (how : How) : After t (streamShutdown t a how w) := by
  unfold Readiness.streamShutdown
  split
  · exact during.fails _
  · exact (during.shut .stream a how).ret _

theorem During.writeLoop (a tot : Nat) (rest : List β) (wq : Option (Option Nat)) :
    After t (writeLoop t a tot rest wq w) := by
  induction length : rest.length using Nat.strong_induction_on generalizing w tot rest with
  | _ k ih =>
    unfold Readiness.writeLoop
    split
    · exact during.ret _
    next p peer =>
      have received := during.doRecvPacket .stream p rest
      dsimp only
      split
      · split
        · exact received.fails _
        · exact received.waitOn _ _ _ (show Frame.Plain (.write a tot rest _) from trivial)
            (received.shortReturn _ tot)
      · split
        · split
          · refine ih _ ?_ received _ _ rfl
            rw [length_drop]
            omega
          · exact received.ret _
        · exact received.shortReturn _ tot

theorem During.write (a : Nat) (buf : List β) : After t (write t a buf w) := by
  unfold Readiness.write
  split
  · split
    · exact during.ret _
    · exact during.fails _
  · split
    · exact during.fails _
    · exact during.writeLoop a 0 buf none

theorem During.writeOn (a tot : Nat) (rest : List β) (last : Option Nat) (interrupted : Bool) :
    After t (writeOn t a tot rest last interrupted w) := by
  have removed := during.removeWaitQueue (.socket .stream a)
  unfold Readiness.writeOn
  dsimp only
  split
  · split
    · exact removed.writeLoop a tot rest _
    · split
      · exact removed.fails _
      · exact removed.ret _
  · exact removed.shortReturn _ tot
  · exact removed.shortReturn _ tot

end

variable {rest : Nat}

omit [DecidableEq T] in
theorem ready_takeData (linked : Linked w.shared) {g : File}
    (now : Ready (takeData .stream a rest w).1.shared g events) :
    Ready w.shared g events ∨
      ∃ p, (w.shared.streams a).m_peer = some p ∧ g = .socket .stream p ∧ Meets POLLOUT (pollMask events) := by
  rcases (requeued_setSocket .stream a _ w).ready now with before | ⟨-, more, -⟩ | ⟨b, rfl, sends, -, -, output⟩
  · exact .inl before
  · rw [size_setSocket] at more
    exact absurd more (not_lt.mpr (Nat.sub_le _ _))
  · exact .inr ⟨b, (linked.joined b a sends.1 sends.2).2, rfl, output⟩

variable (during : During t Settled w)
include during

theorem During.takeData (a rest : Nat) : During t Settled (match (w.shared.streams a).m_peer with
      | some p => wakeWaiters POLLOUT (.socket .stream p) (takeData .stream a rest w).1
      | none => (takeData .stream a rest w).1) := by
  have linked : Linked (Readiness.takeData .stream a rest w).1.shared :=
    during.linked.congr (fun _ => ⟨rfl, rfl⟩) rfl rfl rfl
  split
  next p peer =>
    refine during.changeWake rfl linked (fun _ _ _ _ _ held => ⟨held.state, held.single⟩)
      fun g events settled now => ?_
    rcases ready_takeData during.linked now with before | ⟨q, back, rfl, output⟩
    · exact .inr ⟨settled, before⟩
    · cases peer.symm.trans back
      exact .inl ⟨rfl, output⟩
  next alone =>
    refine during.change rfl linked (fun _ _ _ _ _ held => ⟨held.state, held.single⟩) fun g events settled now =>
      ⟨settled, ?_⟩
    rcases ready_takeData during.linked now with before | ⟨q, back, -⟩
    · exact before
    · cases alone.symm.trans back

omit [DecidableEq T] in
theorem During.tookNothing {k : Kind} (none : (Readiness.takeData k a rest w).2 = 0) :
    During t Settled (Readiness.takeData k a rest w).1 := by
  refine during.setSocket ?_
  rw [show (LocalStream.readData (w.shared.sockets k a).m_readBuffer rest).2.length = 0 from none, Nat.sub_zero]

theorem During.readLoop (a filled rest : Nat) (wq : Option (Option Nat)) :
    After t (readLoop t a filled rest wq w) := by
  induction rest using Nat.strong_induction_on generalizing w filled with
  | _ rest ih =>
    unfold Readiness.readLoop
    split
    · dsimp only
      split
      next nothing =>
        have same := during.tookNothing nothing
        split
        · exact same.shortReturn _ filled
        · split
          · exact same.ret _
          · exact same.waitOn _ _ _ (show Frame.Plain (.read a filled rest _) from trivial)
              (same.shortReturn _ filled)
      · exact ih _ (by omega) (during.takeData a rest) _
    · exact during.ret _

theorem During.read (a count : Nat) : After t (read t a count w) := by
  unfold Readiness.read
  split
  · exact during.fails _
  · exact during.readLoop a 0 count none

theorem During.readOn (a filled rest : Nat) (last : Option Nat) (interrupted : Bool) :
    After t (readOn t a filled rest last interrupted w) := by
  have removed := during.removeWaitQueue (.socket .stream a)
  unfold Readiness.readOn
  dsimp only
  split
  · exact removed.readLoop a filled rest _
  · exact removed.shortReturn _ filled
  · exact removed.shortReturn _ filled

end

section

/-- The socket `a` is closed, and the peer that it was connected with has seen it. -/
structure Closed (a : Nat) (n n' : Node T β) : Prop where
  pipes : n'.pipes = n.pipes
  datagrams : n'.datagrams = n.datagrams
  fresh : n'.fresh = n.fresh
  own : n'.streams a = ⟨.CLOSED, none, false, []⟩
  others : ∀ b, b ≠ a → n'.streams b = n.streams b ∨
    (n.streams a).m_state = .CONNECTED ∧ (n.streams a).m_peer = some b ∧ (n.streams b).m_state = .CONNECTED ∧
      n'.streams b = { n.streams b with m_peer := none, m_state := .REMOTECLOSED }
  left : ∀ b, b ≠ a → (n'.streams b).m_state = .CONNECTED → (n'.streams b).m_peer ≠ some a
  sizes : ∀ k b, (k, b) ≠ (.stream, a) → (n'.sockets k b).m_readBufferSize = (n.sockets k b).m_readBufferSize

section

variable (closed : Closed a n n')
include closed

theorem Closed.same (state : (n'.streams b).m_state = .CONNECTED) : b ≠ a ∧ n'.streams b = n.streams b := by
  have away : b ≠ a := by
    rintro rfl
    simp [closed.own] at state
  rcases closed.others b away with same | ⟨-, -, -, hung⟩
  · exact ⟨away, same⟩
  · simp [hung] at state

theorem Closed.linked (linked : Linked n) (made : a < n.fresh) : Linked n' := by
  have queues : ∀ b, b ≠ a → (n'.streams b).m_cnxQueue = (n.streams b).m_cnxQueue := fun b away => by
    rcases closed.others b away with same | ⟨-, -, -, hung⟩
    · rw [same]
    · rw [hung]
  refine ⟨closed.pipes ▸ linked.paired, fun b p state peer => ?_, fun b state => ?_, fun l b inside => ?_,
    fun b above => ?_,
    closed.datagrams ▸ linked.member, closed.datagrams ▸ linked.connected, closed.datagrams ▸ linked.bound⟩
  · obtain ⟨away, same⟩ := closed.same state
    have other : p ≠ a := fun here => closed.left b away state (here ▸ peer)
    rw [same] at state peer
    have back := linked.joined b p state peer
    rcases closed.others p other with same' | ⟨connected, its, -, -⟩
    · rwa [same']
    · exact absurd (some.inj (back.2.symm.trans (linked.joined a p connected its).2)) away
  · by_cases here : b = a
    · rw [here, closed.own]
    · rcases closed.others b here with same | ⟨-, -, -, hung⟩
      · rw [same] at state ⊢
        exact linked.emptied b state
      · simp [hung, Unqueued] at state
  · have away : l ≠ a := by
      rintro rfl
      simp [closed.own] at inside
    rw [queues l away] at inside
    by_cases here : b = a
    · rw [here, closed.own]
      exact .inr (.inr (.inr rfl))
    · rcases closed.others b here with same | ⟨-, -, -, hung⟩
      · rw [same]
        exact linked.queued l b inside
      · rw [hung]
        exact .inr (.inr (.inl rfl))
  · rw [closed.fresh] at above
    rcases closed.others b (by omega) with same | ⟨-, -, connected, -⟩
    · rw [same]
      exact linked.unmade b above
    · rw [linked.unmade b above] at connected
      cases connected

theorem Closed.acceptor (held : Acceptor n b) : Acceptor n' b := by
  refine ⟨?_, fun l inside => ?_⟩
  · by_cases here : b = a
    · rw [here, closed.own]
      exact .inr (.inr rfl)
    · rcases closed.others b here with same | ⟨-, -, connected, -⟩
      · rw [same]
        exact held.state
      · have state := held.state
        simp [connected] at state
  · by_cases here : l = a
    · simp [here, closed.own] at inside
    · rcases closed.others l here with same | ⟨-, -, -, hung⟩
      · exact held.single l (same ▸ inside)
      · rw [hung] at inside
        exact held.single l inside

theorem Closed.ready {g : File} (now : Ready n' g events) : g = .socket .stream a ∨
      (∃ p, (n.streams a).m_state = .CONNECTED ∧ (n.streams a).m_peer = some p ∧ g = .socket .stream p) ∨
      Ready n g events := by
  cases g with
  | pipe b =>
    rw [ready_pipe, closed.pipes] at now
    exact .inr (.inr (ready_pipe.mpr now))
  | timer b => exact absurd now not_ready_timer
  | socket k b =>
    cases k with
    | datagram =>
      have sizes : ∀ c, (n'.sockets .datagram c).m_readBufferSize = (n.sockets .datagram c).m_readBufferSize :=
        fun c =>
          closed.sizes .datagram c nofun
      rw [ready_datagram, datagramCanRecv_iff, datagramCanSend_iff, closed.datagrams] at now
      simp only [sizes] at now
      exact .inr (.inr (ready_datagram.mpr (by rw [datagramCanRecv_iff, datagramCanSend_iff]; exact now)))
    | stream =>
      by_cases here : b = a
      · exact .inl (by rw [here])
      · rcases closed.others b here with same | ⟨connected, its, -, -⟩
        · refine .inr (.inr ?_)
          have size := closed.sizes .stream b (by simp [here])
          rw [ready_stream, streamCanRecv_iff, streamCanSend_iff, size, same] at now
          rw [ready_stream, streamCanRecv_iff, streamCanSend_iff]
          refine now.imp_right fun rest => rest.imp_left fun output => output.imp_left fun sends => ?_
          by_cases state : (n.streams b).m_state = .CONNECTED
          · obtain ⟨p, peer, room⟩ := sends.resolve_left fun other => other state
            have other : p ≠ a := by
              rintro rfl
              exact closed.left b here (same ▸ state) (same ▸ peer)
            exact .inr ⟨p, peer, closed.sizes .stream p (by simp [other]) ▸ room⟩
          · exact .inl state
        · exact .inr (.inl ⟨b, connected, its, rfl⟩)

end

variable [DecidableEq T] {v : W T β} {K : File → Events → Prop}

omit [DecidableEq T] in
theorem During.closed (during : During t Settled w) (woken : Woken K w v) (closed : Closed a w.shared v.shared)
    (made : a < w.shared.fresh)
    (peer : ∀ p, (w.shared.streams a).m_state = .CONNECTED → (w.shared.streams a).m_peer = some p →
      K (.socket .stream p) POLLHUP)
    (own : ∀ u, u ≠ t → ∀ events, Polls w u (.socket .stream a) events → Ready v.shared (.socket .stream a) events →
      K (.socket .stream a) POLLHUP ∨ Ready w.shared (.socket .stream a) events) : During t Settled v := by
  refine during.woken woken (closed.linked during.linked made) (fun _ _ _ _ _ held => closed.acceptor held)
    fun u other g events polls settled now => ?_
  rcases closed.ready now with rfl | ⟨p, connected, its, rfl⟩ | before
  · exact (own u other events polls now).imp (fun wakes => ⟨_, wakes, meets_hup events⟩) fun before =>
      ⟨settled, before⟩
  · exact .inl ⟨_, peer p connected its, meets_hup events⟩
  · exact .inr ⟨settled, before⟩

theorem streamClearAll_shared (a : Nat) (andWakeUp : Bool) (w : W T β) : (streamClearAll a andWakeUp w).shared =
      (clearReadBuffer .stream a (clearBindPath .stream a (setStream a ⟨.CLOSED, none, false, []⟩ w))).shared := by
  unfold streamClearAll
  split
  · exact wakeWaiters_shared ..
  · rfl

theorem woken_streamClearAll (a : Nat) (andWakeUp : Bool) (w : W T β) :
    Woken (fun g key => andWakeUp = true ∧ g = .socket .stream a ∧ key = POLLHUP) w
    (streamClearAll a andWakeUp w) := by
  have changed : Woken (fun _ _ => False) w
      (clearReadBuffer .stream a (clearBindPath .stream a (setStream a ⟨.CLOSED, none, false, []⟩ w))) :=
    .change w rfl
  unfold streamClearAll
  cases andWakeUp with
  | false => exact changed.mono fun _ _ wakes => Bool.noConfusion wakes.1
  | true => exact (changed.trans (.wake _ POLLHUP _)).mono fun _ _ wakes => .inr wakes.2

theorem closed_streamClearAll (andWakeUp : Bool) (alone : ∀ b, b ≠ a → (w.shared.streams b).m_state = .CONNECTED →
    (w.shared.streams b).m_peer ≠ some a) : Closed a w.shared (streamClearAll a andWakeUp w).shared := by
  have record : ∀ b, (streamClearAll a andWakeUp w).shared.streams b =
      if b = a then ⟨.CLOSED, none, false, []⟩ else w.shared.streams b := fun b => by
    rw [streamClearAll_shared]
    exact streams_setStream _
  have sockets : ∀ k b, (k, b) ≠ (.stream, a) → (streamClearAll a andWakeUp w).shared.sockets k b =
      w.shared.sockets k b := by
    intro k b other
    rw [streamClearAll_shared]
    by_cases same : k = .stream
    · have away : b ≠ a := fun here => other (by rw [same, here])
      simp [same, clearReadBuffer, clearBindPath, Readiness.setSocket, Readiness.setStream, away]
    · simp [clearReadBuffer, clearBindPath, Readiness.setSocket, Readiness.setStream, same]
  refine ⟨?_, ?_, ?_, (record a).trans (if_pos rfl), fun b away => .inl ((record b).trans (if_neg away)),
    fun b away => ?_,
    fun k b other => by rw [sockets k b other]⟩
  · rw [streamClearAll_shared]
    rfl
  · rw [streamClearAll_shared]
    rfl
  · rw [streamClearAll_shared]
    rfl
  · rw [record, if_neg away]
    exact alone b away

section

variable (connected : (w.shared.streams p).m_state = .CONNECTED)
include connected

theorem peerClosed_shared : (peerClosed p w).shared =
    (setStream p { w.shared.streams p with m_peer := none, m_state := .REMOTECLOSED } w).shared := by
  unfold peerClosed
  rw [if_pos connected]
  exact wakeWaiters_shared ..

theorem woken_peerClosed : Woken (fun g key => g = .socket .stream p ∧ key = POLLHUP) w (peerClosed p w) := by
  unfold peerClosed
  rw [if_pos connected]
  have changed : Woken (fun _ _ => False) w
      (setStream p { w.shared.streams p with m_peer := none, m_state := .REMOTECLOSED } w) :=
    .change w rfl
  exact (changed.trans (.wake _ POLLHUP _)).mono fun _ _ wakes => .inr wakes

end

theorem closed_connected (linked : Linked w.shared) (connected : (w.shared.streams a).m_state = .CONNECTED)
    (peer : (w.shared.streams a).m_peer = some p) :
    Closed a w.shared (streamClearAll a true (peerClosed p w)).shared := by
  obtain ⟨its_state, its_peer⟩ := linked.joined a p connected peer
  have shared := peerClosed_shared its_state
  have record : ∀ b, (peerClosed p w).shared.streams b =
      if b = p then { w.shared.streams p with m_peer := none, m_state := .REMOTECLOSED }
      else w.shared.streams b := fun b => by
    rw [shared]
    exact streams_setStream _
  have closed : Closed a (peerClosed p w).shared (streamClearAll a true (peerClosed p w)).shared := by
    refine closed_streamClearAll true fun b away state back => ?_
    rw [record] at state back
    split at state
    · cases state
    next other =>
      rw [if_neg other] at back
      exact other (some.inj ((linked.joined b a state back).2.symm.trans peer))
  refine ⟨closed.pipes.trans (by rw [shared]; rfl), closed.datagrams.trans (by rw [shared]; rfl),
    closed.fresh.trans (by rw [shared]; rfl), closed.own, fun b away => ?_, closed.left, fun k b other => ?_⟩
  · have same : (streamClearAll a true (peerClosed p w)).shared.streams b = (peerClosed p w).shared.streams b := by
      rcases closed.others b away with same | ⟨-, its, -, hung⟩
      · exact same
      · rw [record] at its
        split at its
        · cases its
        · cases peer.symm.trans its
          rw [hung, record, if_pos rfl]
    rw [same, record]
    split
    next here =>
      subst here
      exact .inr ⟨connected, peer, its_state, rfl⟩
    · exact .inl rfl
  · rw [closed.sizes k b other, shared]
    rfl

theorem During.streamClearAll (during : During t Settled w) (made : a < w.shared.fresh) (andWakeUp : Bool)
    (apart : (w.shared.streams a).m_state ≠ .CONNECTED)
    (own : ∀ u, u ≠ t → ∀ events, Polls w u (.socket .stream a) events →
      andWakeUp = true ∨ (w.shared.streams a).m_state = .REMOTECLOSED) :
      During t Settled (streamClearAll a andWakeUp w) := by
  have closed : Closed a w.shared (Readiness.streamClearAll a andWakeUp w).shared :=
    closed_streamClearAll andWakeUp fun b _ state back => apart (during.linked.joined b a state back).1
  refine during.closed (woken_streamClearAll a andWakeUp w) closed made (fun p connected => absurd connected apart)
    fun u other events polls now => ?_
  rcases own u other events polls with wakes | hung
  · exact .inl ⟨wakes, rfl, rfl⟩
  · rw [ready_stream, streamCanRecv_iff, closed.own] at now
    rw [ready_stream, streamCanSend_iff, hung]
    rcases now with ⟨⟨state, -⟩ | ⟨state, -⟩, -⟩ | output | hup
    · simp at state
    · simp at state
    · exact .inr (.inr (.inl ⟨.inl nofun, output.2⟩))
    · exact .inr (.inr (.inr ⟨.inr rfl, hup.2⟩))

omit [DecidableEq T] in
theorem During.unRegisterBinder (during : During t X w) (k : Kind) (a : Nat) :
    During t X (unRegisterBinder k a w) := by
  unfold Readiness.unRegisterBinder
  split
  · exact during.setBinder _ _
  · exact during

theorem During.streamClose (during : During t Settled w) (made : a < w.shared.fresh)
    (closes : streamClose a w = some v)
    (unwatched : (w.shared.streams a).m_state = .CREATED ∨ (w.shared.streams a).m_state = .BINDED ∨
      (w.shared.streams a).m_state = .LISTENING → ∀ u, u ≠ t → ∀ events, ¬ Polls w u (.socket .stream a) events) :
    During t Settled v := by
  -- a socket that is bound leaves its path first
  have unbinds : ∀ andWakeUp : Bool, (w.shared.streams a).m_state ≠ .CONNECTED →
      (andWakeUp = true ∨ ∀ u, u ≠ t → ∀ events, ¬ Polls w u (.socket .stream a) events) →
      During t Settled (Readiness.streamClearAll a andWakeUp
        (clearBindPath .stream a (Readiness.unRegisterBinder .stream a w))) := by
    intro andWakeUp apart own
    have same : (Readiness.unRegisterBinder .stream a w).shared.streams = w.shared.streams ∧
        (Readiness.unRegisterBinder .stream a w).shared.fresh = w.shared.fresh ∧
        (Readiness.unRegisterBinder .stream a w).status = w.status ∧
        (Readiness.unRegisterBinder .stream a w).place = w.place := by
      unfold Readiness.unRegisterBinder
      split <;> exact ⟨rfl, rfl, rfl, rfl⟩
    obtain ⟨streams, fresh, status, place⟩ := same
    have unbound : During t Settled (clearBindPath .stream a (Readiness.unRegisterBinder .stream a w)) :=
      (during.unRegisterBinder .stream a).setSocket rfl
    refine unbound.streamClearAll (fresh ▸ made) andWakeUp (streams ▸ apart) fun u other events polls => ?_
    refine own.elim .inl fun nobody => absurd ⟨status ▸ polls.asleep, ?_⟩ (nobody u other events)
    obtain ⟨fds, endtime, here, inside⟩ := polls.watches
    exact ⟨fds, endtime, place ▸ here, inside⟩
  unfold Readiness.streamClose at closes
  dsimp only at closes
  split at closes
  next created =>
    refine some.inj closes ▸ during.streamClearAll made false (by simp [created]) fun u other events polls => ?_
    exact absurd polls (unwatched (.inl created) u other events)
  next bound =>
    split at closes
    next =>
      refine some.inj closes ▸ unbinds _ (by simp [bound]) (.inr (unwatched (.inr (.inl bound))))
    next => cases closes
  next listening =>
    split at closes
    next =>
      refine some.inj closes ▸ unbinds _ (by simp [listening]) (.inr (unwatched (.inr (.inr listening))))
    next => cases closes
  next accepting =>
    split at closes
    next => exact some.inj closes ▸ unbinds _ (by simp [accepting]) (.inl (decide_eq_true accepting))
    next => cases closes
  next connecting =>
    exact some.inj closes ▸ during.streamClearAll made true (by simp [connecting]) fun _ _ _ _ => .inl rfl
  next connected =>
    obtain ⟨p, peer, rfl⟩ := map_eq_some_iff.mp closes
    have its := (during.linked.joined a p connected peer).1
    refine during.closed ((woken_peerClosed its).trans (woken_streamClearAll a true _))
      (closed_connected during.linked connected peer) made (fun q _ other => ?_) fun _ _ _ _ _ =>
        .inl (.inr ⟨rfl, rfl, rfl⟩)
    cases peer.symm.trans other
    exact .inl ⟨rfl, rfl⟩
  next hung =>
    exact some.inj closes ▸ during.streamClearAll made false (by simp [hung]) fun _ _ _ _ => .inr hung
  next => exact some.inj closes ▸ during

end

section

variable {first : Nat}

/-- The socket `first` is connected with the new one. -/
structure Joined (first : Nat) (n n' : Node T β) : Prop where
  pipes : n'.pipes = n.pipes
  datagrams : n'.datagrams = n.datagrams
  fresh : n'.fresh = n.fresh + 1
  streams : ∀ b, n'.streams b = if b = first
    then { n.streams first with m_state := .CONNECTED, m_peer := some n.fresh }
    else if b = n.fresh then ⟨.CONNECTED, some first, false, []⟩ else n.streams b
  empty : (n'.sockets .stream n.fresh).m_readBufferSize = 0
  sizes : ∀ k b, (k, b) ≠ (.stream, n.fresh) → (n'.sockets k b).m_readBufferSize = (n.sockets k b).m_readBufferSize

theorem Joined.linked (joined : Joined first n n') (linked : Linked n)
    (connecting : (n.streams first).m_state = .CONNECTING) :
    Linked n' := by
  have unmade := linked.unmade n.fresh le_rfl
  have other : first ≠ n.fresh := by
    rintro rfl
    simp [unmade] at connecting
  have queues : ∀ b, (n'.streams b).m_cnxQueue = (n.streams b).m_cnxQueue := fun b => by
    rw [joined.streams]
    split
    next here =>
      rw [here]
    · split
      next here =>
        rw [here, unmade]
      · rfl
  refine ⟨joined.pipes ▸ linked.paired, fun b p state peer => ?_, fun b state => ?_, fun l b inside => ?_,
    fun b above => ?_,
    joined.datagrams ▸ linked.member, joined.datagrams ▸ linked.connected, joined.datagrams ▸ linked.bound⟩
  · rw [joined.streams] at state peer
    split at state
    next here =>
      rw [if_pos here] at peer
      cases peer
      rw [joined.streams, if_neg (Ne.symm other), if_pos rfl, here]
      exact ⟨rfl, rfl⟩
    next not_first =>
      rw [if_neg not_first] at peer
      split at state
      next here =>
        rw [if_pos here] at peer
        cases peer
        rw [joined.streams, if_pos rfl, here]
        exact ⟨rfl, rfl⟩
      next not_fresh =>
        rw [if_neg not_fresh] at peer
        obtain ⟨its_state, its_peer⟩ := linked.joined b p state peer
        have p_not_first : p ≠ first := by
          rintro rfl
          simp [connecting] at its_state
        have p_not_fresh : p ≠ n.fresh := by
          rintro rfl
          simp [unmade] at its_state
        rw [joined.streams, if_neg p_not_first, if_neg p_not_fresh]
        exact ⟨its_state, its_peer⟩
  · rw [queues]
    rw [joined.streams] at state
    split at state
    · simp [Unqueued] at state
    · split at state
      · simp [Unqueued] at state
      · exact linked.emptied b state
  · have before := linked.queued l b (queues l ▸ inside)
    rw [joined.streams]
    split
    · exact .inr (.inl rfl)
    · split
      · exact .inr (.inl rfl)
      · exact before
  · have later : n.fresh < b := by
      rw [joined.fresh] at above
      omega
    have b_not_first : b ≠ first := by
      rintro rfl
      simp [linked.unmade b later.le] at connecting
    rw [joined.streams, if_neg b_not_first, if_neg (ne_of_gt later)]
    exact linked.unmade b later.le

theorem Joined.acceptor (joined : Joined first n n') (linked : Linked n)
    (connecting : (n.streams first).m_state = .CONNECTING)
    (held : Acceptor n b) : Acceptor n' b := by
  have unmade := linked.unmade n.fresh le_rfl
  refine ⟨?_, fun l inside => ?_⟩
  · have state := held.state
    rw [joined.streams]
    split
    next here =>
      simp [here, connecting] at state
    · split
      next here =>
        simp [here, unmade] at state
      · exact state
  · rw [joined.streams] at inside
    split at inside
    · exact held.single first inside
    · split at inside
      · cases inside
      · exact held.single l inside

theorem Joined.ready (joined : Joined first n n') (linked : Linked n) {g : File} (now : Ready n' g events) :
    g = .socket .stream first ∧ Meets (POLLIN ||| POLLOUT) (pollMask events) ∨ Ready n g events := by
  have unmade := linked.unmade n.fresh le_rfl
  cases g with
  | pipe b =>
    rw [ready_pipe, joined.pipes] at now
    exact .inr (ready_pipe.mpr now)
  | timer b => exact absurd now not_ready_timer
  | socket k b =>
    cases k with
    | datagram =>
      have sizes : ∀ c, (n'.sockets .datagram c).m_readBufferSize = (n.sockets .datagram c).m_readBufferSize :=
        fun c =>
          joined.sizes .datagram c nofun
      rw [ready_datagram, datagramCanRecv_iff, datagramCanSend_iff, joined.datagrams] at now
      simp only [sizes] at now
      exact .inr (ready_datagram.mpr (by rw [datagramCanRecv_iff, datagramCanSend_iff]; exact now))
    | stream =>
      rw [ready_stream, streamCanRecv_iff, streamCanSend_iff, joined.streams] at now
      by_cases here : b = first
      · rw [if_pos here] at now
        refine .inl ⟨by rw [here], meets_or.mpr ?_⟩
        rcases now with input | output | ⟨state, -⟩
        · exact .inl input.2
        · exact .inr output.2
        · simp at state
      · rw [if_neg here] at now
        rw [ready_stream, streamCanRecv_iff, streamCanSend_iff]
        refine .inr ?_
        by_cases new : b = n.fresh
        · subst new
          rw [joined.empty] at now
          rcases now with ⟨⟨-, bytes⟩ | ⟨state, -⟩, -⟩ | output | ⟨state, -⟩
          · exact absurd bytes (lt_irrefl 0)
          · simp at state
          · exact .inr (.inl ⟨.inl (by simp [unmade]), output.2⟩)
          · simp at state
        · rw [if_neg new, joined.sizes .stream b (by simp [new])] at now
          refine now.imp_right fun rest => rest.imp_left fun output => output.imp_left fun sends => ?_
          by_cases state : (n.streams b).m_state = .CONNECTED
          · obtain ⟨p, peer, room⟩ := sends.resolve_left fun other => other state
            have old : p ≠ n.fresh := by
              rintro rfl
              have its := (linked.joined b _ state peer).1
              simp [unmade] at its
            exact .inr ⟨p, peer, joined.sizes .stream p (by simp [old]) ▸ room⟩
          · exact .inl state

variable [DecidableEq T]

theorem joined_join (a : Nat) (linked : Linked w.shared)
    (connecting : (w.shared.streams first).m_state = .CONNECTING) :
    Joined first w.shared (join a first w).shared := by
  have other : first ≠ w.shared.fresh := by
    rintro rfl
    simp [linked.unmade _ le_rfl] at connecting
  have streams : ∀ b, (join a first w).shared.streams b = if b = first then
      { w.shared.streams first with m_state := .CONNECTED, m_peer := some w.shared.fresh }
      else if b = w.shared.fresh then ⟨.CONNECTED, some first, false, []⟩ else w.shared.streams b := fun b => by
    unfold join
    by_cases at_first : b = first
    · subst at_first
      simp [Readiness.setStream, Readiness.setSocket, setStreamState, other]
    · by_cases at_fresh : b = w.shared.fresh
      · subst at_fresh
        simp [Readiness.setStream, Readiness.setSocket, at_first]
      · simp [Readiness.setStream, Readiness.setSocket, setStreamState, at_first, at_fresh]
  have sockets : ∀ k b, (join a first w).shared.sockets k b = if (k, b) = (.stream, w.shared.fresh) then
      ⟨[], 0, 0, 0, (w.shared.sockets .stream a).m_bindPath, false, false, false⟩
      else w.shared.sockets k b := fun k b => by
    unfold join
    by_cases same : k = .stream
    · subst same
      by_cases at_fresh : b = w.shared.fresh
      · simp [Readiness.setStream, Readiness.setSocket, setStreamState, at_fresh]
      · simp [Readiness.setStream, Readiness.setSocket, setStreamState, at_fresh]
    · simp [Readiness.setStream, Readiness.setSocket, setStreamState, same]
  refine ⟨?_, ?_, ?_, streams, ?_, fun k b away => ?_⟩
  · simp [join, Readiness.setStream, Readiness.setSocket, setStreamState]
  · simp [join, Readiness.setStream, Readiness.setSocket, setStreamState]
  · simp [join, Readiness.setStream, Readiness.setSocket, setStreamState]
  · rw [sockets, if_pos rfl]
  · rw [sockets, if_neg away]

theorem woken_join (a first : Nat) (w : W T β) :
    Woken (fun g key => g = .socket .stream first ∧ key = POLLIN ||| POLLOUT) w (join a first w) := by
  have changed : Woken (fun _ _ => False) w (setStreamState first .CONNECTED w) := .change w rfl
  have woken := changed.trans (.wake _ (POLLIN ||| POLLOUT) (.socket .stream first))
  refine (woken.trans (.change _ ?_)).mono fun g key wakes => .inl (.inr wakes)
  rfl

theorem During.join (during : During t Settled w) (a : Nat)
    (connecting : (w.shared.streams first).m_state = .CONNECTING) :
    During t Settled (join a first w) := by
  have joined := joined_join a during.linked connecting
  refine during.woken (woken_join a first w) (joined.linked during.linked connecting)
    (fun _ _ _ _ _ held => joined.acceptor during.linked connecting held)
    fun u other g events polls settled now => ?_
  rcases joined.ready during.linked now with ⟨rfl, meets⟩ | before
  · exact .inl ⟨_, ⟨rfl, rfl⟩, meets⟩
  · exact .inr ⟨settled, before⟩

variable (during : During t Settled w)
include during

theorem During.acceptLoop (noFd : Bool) {q : List Nat} (queue : (w.shared.streams a).m_cnxQueue = q) :
    After t (acceptLoop t a noFd q w) := by
  induction q generalizing w with
  | nil => exact during.ret _
  | cons first rest ih =>
    have fewer : ∀ b ∈ rest, b ∈ (w.shared.streams a).m_cnxQueue := fun b inside => queue ▸ mem_cons_of_mem _ inside
    have joining : Joining (w.shared.streams first).m_state := during.linked.queued a first (queue ▸ mem_cons_self)
    have taken : During t Settled (Readiness.setStream a { w.shared.streams a with m_cnxQueue := rest } w) := by
      refine during.setStream (.fewer fewer) ?_ (fun u other last here =>
        (during.acceptor u other a last here).state) fewer
      refine during.linked.setCnxQueue (fun above => ?_) (fun none => ?_) fun b inside => .inl (fewer b inside)
      · rw [during.linked.unmade a above] at queue
        cases queue
      · cases (during.linked.emptied a none).symm.trans queue
    have record : ∀ b, (Readiness.setStream a { w.shared.streams a with m_cnxQueue := rest } w).shared.streams b =
        if b = a then { w.shared.streams a with m_cnxQueue := rest } else w.shared.streams b :=
          fun b => streams_setStream _
    have state :
      ((Readiness.setStream a { w.shared.streams a with m_cnxQueue := rest } w).shared.streams first).m_state =
        (w.shared.streams first).m_state := by
      rw [record]
      split
      next here =>
        rw [here]
      · rfl
    have made : first < w.shared.fresh := during.linked.made fun created => by simp [created, Joining] at joining
    unfold Readiness.acceptLoop
    dsimp only
    split
    · split
      next v closes =>
        refine (taken.streamClose made closes fun early => ?_).fails _
        rw [state] at early
        rcases joining with here | here | here | here <;> simp [here] at early
      · exact taken.ret _
    · split
      next connecting =>
        exact (taken.join a connecting).ret _
      · exact ih taken (by rw [record, if_pos rfl])

variable (held : Acceptor w.shared a)
include held

omit [DecidableEq T] in
theorem During.setAccepting {st : LocalStream.State}
    (listens : st = .LISTENING ∨ st = .ACCEPTING)
    (some : (w.shared.streams a).m_state = .CLOSED → (w.shared.streams a).m_cnxQueue = []) :
    During t Settled (setStreamState a st w) := by
  have apart : (w.shared.streams a).m_state ≠ .CONNECTED := by
    rcases held.state with here | here | here <;> simp [here]
  have made : a < w.shared.fresh := during.linked.made (by rcases held.state with here | here | here <;> simp [here])
  have single : st ≠ .CONNECTED := by rcases listens with rfl | rfl <;> simp
  refine during.setStream (.state apart (listens.elim (.inr ∘ .inl) (.inr ∘ .inr ∘ .inl)) fun _ queue => ?_) ?_
    (fun _ _ _ _ => listens.elim (.inr ∘ .inl) .inl) fun _ => id
  · rcases held.state with here | here | here
    · exact .inr here
    · exact .inl here
    · rw [some here] at queue
      exact absurd queue (lt_irrefl 0)
  · refine during.linked.setStream (fun above => absurd made (not_lt.mpr above)) (fun connected =>
      absurd connected single)
      (fun connected => absurd connected apart) (fun none => ?_) (fun b inside => ?_) fun l _ inside =>
        absurd inside (held.single l)
    · rcases listens with rfl | rfl <;> simp [Unqueued] at none
    · rw [if_neg]
      · exact during.linked.queued a b inside
      · rintro rfl
        exact held.single b inside

theorem During.acceptFirst (noFd : Bool) (wq : Option (Option Nat)) : After t (acceptFirst t a noFd wq w) := by
  have closed : (w.shared.streams a).m_state = .CLOSED → (w.shared.streams a).m_cnxQueue = [] := fun state =>
    during.linked.emptied a (.inr (.inr state))
  have record : ∀ st, (setStreamState a st w).shared.streams a = { w.shared.streams a with m_state := st } :=
    fun st =>
      (streams_setStream _).trans (if_pos rfl)
  unfold Readiness.acceptFirst
  split
  · split
    · exact during.fails _
    · have waits := during.setAccepting held (.inr rfl) closed
      have kept : Acceptor (setStreamState a .ACCEPTING w).shared a :=
        held.setStream (fun _ => .inl rfl) id
      dsimp only
      unfold Readiness.waitOn
      split
      · exact waits.fails _
      · unfold Readiness.sleepOn
        split
        · exact (waits.addWaitQueue _ _).sleepUntil ⟨kept.state, kept.single⟩
        · exact (waits.addWaitQueue _ _).sleep ⟨kept.state, kept.single⟩
  · have listens := during.setAccepting held (.inl rfl) closed
    exact listens.acceptLoop noFd rfl

omit held in
theorem During.accept (a : Nat) (noFd : Bool) : After t (accept t a noFd w) := by
  unfold Readiness.accept
  split
  · exact during.fails _
  next listening =>
    rw [not_not] at listening
    refine during.acceptFirst ⟨.inr (.inl listening), fun l inside => ?_⟩ noFd none
    have joining := during.linked.queued l a inside
    simp [listening] at joining

theorem During.acceptOn (last : Option Nat) (e : Answer) : After t (acceptOn t a last e w) := by
  have removed := during.removeWaitQueue (.socket .stream a)
  unfold Readiness.acceptOn
  dsimp only
  split
  · exact removed.acceptFirst ⟨held.state, held.single⟩ e.noFd _
  · exact removed.fails _
  · exact removed.fails _

end

end Dce.Readiness
