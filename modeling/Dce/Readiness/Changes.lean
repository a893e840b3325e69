import Dce.Readiness.Sound

/- What the single changes of the files make ready, and whom they leave asleep. -/

namespace Dce.Readiness

open Coroutine Function
open LocalStream (maxBuffer)
open Pipe (pipeCapacity)

variable {T β : Type*}

section

variable {n n' : Node T β} {a b : Nat} {events : Events}

theorem streamCanRecv_iff : streamCanRecv n a ↔
    ((n.streams a).m_state = .CONNECTED ∨ (n.streams a).m_state = .REMOTECLOSED) ∧
    0 < (n.sockets .stream a).m_readBufferSize ∨
      ((n.streams a).m_state = .LISTENING ∨ (n.streams a).m_state = .ACCEPTING) ∧
      0 < (n.streams a).m_cnxQueue.length := by
  unfold streamCanRecv
  cases (n.streams a).m_state <;> simp

theorem streamCanSend_iff : streamCanSend n a ↔
    (n.streams a).m_state ≠ .CONNECTED ∨ ∃ p, (n.streams a).m_peer = some p ∧
    (n.sockets .stream p).m_readBufferSize < maxBuffer := by
  unfold streamCanSend
  rw [Option.any_eq_true]
  by_cases connected : (n.streams a).m_state = .CONNECTED <;> simp [connected]

theorem datagramCanRecv_iff : datagramCanRecv n a ↔
    ((n.datagrams a).m_state = .CLOSED ∨ (n.datagrams a).m_state = .CREATED) ∨
      (n.datagrams a).m_state = .BINDED ∧ 0 < (n.sockets .datagram a).m_readBufferSize := by
  unfold datagramCanRecv
  cases (n.datagrams a).m_state <;> simp

theorem datagramCanSend_iff : datagramCanSend n a ↔ (n.datagrams a).m_state ≠ .CONNECTED ∨
    ∃ p, (n.datagrams a).m_peer = some p ∧ (n.sockets .datagram p).m_readBufferSize < maxBuffer := by
  unfold datagramCanSend
  rw [Option.any_eq_true]
  by_cases connected : (n.datagrams a).m_state = .CONNECTED <;> simp [connected]

theorem ready_pipe : Ready n (.pipe a) events ↔
    ((n.pipes a).m_readSide = true ∧ 0 < (n.pipes a).m_buf.contents.length) ∧ Meets POLLIN (pollMask events) ∨
      ((n.pipes a).m_readSide = false ∧ ∃ p, (n.pipes a).m_peer = some p ∧
        (n.pipes p).m_buf.contents.length < pipeCapacity) ∧
        Meets POLLOUT (pollMask events) ∨
      (n.pipes a).m_peer = none ∧ Meets POLLHUP (pollMask events) := by
  have room : ((n.pipes a).m_peer.any fun p => (n.pipes p).m_buf.contents.length < pipeCapacity) = true ↔
      ∃ p, (n.pipes a).m_peer = some p ∧ (n.pipes p).m_buf.contents.length < pipeCapacity := by
    rw [Option.any_eq_true]
    simp
  rw [← room]
  exact meets_bits

theorem ready_stream : Ready n (.socket .stream a) events ↔
    streamCanRecv n a ∧ Meets POLLIN (pollMask events) ∨ streamCanSend n a ∧ Meets POLLOUT (pollMask events) ∨
      ((n.streams a).m_state = .CLOSED ∨ (n.streams a).m_state = .REMOTECLOSED) ∧
      Meets POLLHUP (pollMask events) := meets_bits

theorem ready_datagram : Ready n (.socket .datagram a) events ↔
    datagramCanRecv n a ∧ Meets POLLIN (pollMask events) ∨ datagramCanSend n a ∧ Meets POLLOUT (pollMask events) ∨
      (n.datagrams a).m_state = .REMOTECLOSED ∧ Meets POLLHUP (pollMask events) := meets_bits

theorem not_ready_timer : ¬ Ready n (.timer a) events := fun ready => ready (BitVec.zero_and ..)

/-- The socket `b` sends to `a`. -/
def Sends (n : Node T β) : Kind → Nat → Nat → Prop
  | .stream, b, a => (n.streams b).m_state = .CONNECTED ∧ (n.streams b).m_peer = some a
  | .datagram, b, a => (n.datagrams b).m_state = .CONNECTED ∧ (n.datagrams b).m_peer = some a

/-- The queue of the socket `a` of the kind `k` is now another one. -/
structure Requeued (k : Kind) (a : Nat) (n n' : Node T β) : Prop where
  pipes : n'.pipes = n.pipes
  streams : n'.streams = n.streams
  datagrams : n'.datagrams = n.datagrams
  others : ∀ j b, (j, b) ≠ (k, a) → (n'.sockets j b).m_readBufferSize = (n.sockets j b).m_readBufferSize

theorem Requeued.ready {k : Kind} (requeued : Requeued k a n n') {g : File} (now : Ready n' g events) :
    Ready n g events ∨
      (g = .socket k a ∧ (n.sockets k a).m_readBufferSize < (n'.sockets k a).m_readBufferSize ∧
        Meets POLLIN (pollMask events)) ∨
      ∃ b, g = .socket k b ∧ Sends n k b a ∧ (n'.sockets k a).m_readBufferSize < maxBuffer ∧
        maxBuffer ≤ (n.sockets k a).m_readBufferSize ∧ Meets POLLOUT (pollMask events) := by
  cases g with
  | pipe b =>
    rw [ready_pipe, requeued.pipes] at now
    exact .inl (ready_pipe.mpr now)
  | timer b => exact absurd now not_ready_timer
  | socket j b =>
    -- how the room of a peer and the bytes of the socket itself compare to those before
    have bytes : 0 < (n'.sockets j b).m_readBufferSize → 0 < (n.sockets j b).m_readBufferSize ∨
        (j, b) = (k, a) ∧ (n.sockets j b).m_readBufferSize < (n'.sockets j b).m_readBufferSize := fun some => by
      by_cases same : (j, b) = (k, a)
      · by_cases before : 0 < (n.sockets j b).m_readBufferSize
        · exact .inl before
        · exact .inr ⟨same, by omega⟩
      · exact .inl (requeued.others j b same ▸ some)
    have room : ∀ p, (n'.sockets j p).m_readBufferSize < maxBuffer → (n.sockets j p).m_readBufferSize < maxBuffer ∨
        (j, p) = (k, a) ∧ maxBuffer ≤ (n.sockets j p).m_readBufferSize := fun p free => by
      by_cases same : (j, p) = (k, a)
      · by_cases before : (n.sockets j p).m_readBufferSize < maxBuffer
        · exact .inl before
        · exact .inr ⟨same, by omega⟩
      · exact .inl (requeued.others j p same ▸ free)
    cases j with
    | stream =>
      rw [ready_stream, streamCanRecv_iff, streamCanSend_iff, requeued.streams] at now
      rcases now with ⟨(⟨state, some⟩ | queue), input⟩ | ⟨(state | ⟨p, peer, free⟩), output⟩ | hup
      · rcases bytes some with before | ⟨same, more⟩
        · exact .inl (ready_stream.mpr (.inl ⟨streamCanRecv_iff.mpr (.inl ⟨state, before⟩), input⟩))
        · obtain ⟨rfl, rfl⟩ := Prod.mk.inj same
          exact .inr (.inl ⟨rfl, more, input⟩)
      · exact .inl (ready_stream.mpr (.inl ⟨streamCanRecv_iff.mpr (.inr queue), input⟩))
      · exact .inl (ready_stream.mpr (.inr (.inl ⟨streamCanSend_iff.mpr (.inl state), output⟩)))
      · rcases room p free with before | ⟨same, full⟩
        · exact .inl (ready_stream.mpr (.inr (.inl ⟨streamCanSend_iff.mpr (.inr ⟨p, peer, before⟩), output⟩)))
        · obtain ⟨rfl, rfl⟩ := Prod.mk.inj same
          by_cases state : (n.streams b).m_state = .CONNECTED
          · exact .inr (.inr ⟨b, rfl, ⟨state, peer⟩, free, full, output⟩)
          · exact .inl (ready_stream.mpr (.inr (.inl ⟨streamCanSend_iff.mpr (.inl state), output⟩)))
      · exact .inl (ready_stream.mpr (.inr (.inr hup)))
    | datagram =>
      rw [ready_datagram, datagramCanRecv_iff, datagramCanSend_iff, requeued.datagrams] at now
      rcases now with ⟨(state | ⟨state, some⟩), input⟩ | ⟨(state | ⟨p, peer, free⟩), output⟩ | hup
      · exact .inl (ready_datagram.mpr (.inl ⟨datagramCanRecv_iff.mpr (.inl state), input⟩))
      · rcases bytes some with before | ⟨same, more⟩
        · exact .inl (ready_datagram.mpr (.inl ⟨datagramCanRecv_iff.mpr (.inr ⟨state, before⟩), input⟩))
        · obtain ⟨rfl, rfl⟩ := Prod.mk.inj same
          exact .inr (.inl ⟨rfl, more, input⟩)
      · exact .inl (ready_datagram.mpr (.inr (.inl ⟨datagramCanSend_iff.mpr (.inl state), output⟩)))
      · rcases room p free with before | ⟨same, full⟩
        · exact .inl (ready_datagram.mpr (.inr (.inl ⟨datagramCanSend_iff.mpr (.inr ⟨p, peer, before⟩), output⟩)))
        · obtain ⟨rfl, rfl⟩ := Prod.mk.inj same
          by_cases state : (n.datagrams b).m_state = .CONNECTED
          · exact .inr (.inr ⟨b, rfl, ⟨state, peer⟩, free, full, output⟩)
          · exact .inl (ready_datagram.mpr (.inr (.inl ⟨datagramCanSend_iff.mpr (.inl state), output⟩)))
      · exact .inl (ready_datagram.mpr (.inr (.inr hup)))

/-- What a poll looks at is the same. -/
structure SameFiles (n n' : Node T β) : Prop where
  pipes : n'.pipes = n.pipes
  sockets : n'.sockets = n.sockets
  streams : n'.streams = n.streams
  datagrams : n'.datagrams = n.datagrams
  fresh : n'.fresh = n.fresh

variable (same : SameFiles n n')
include same

theorem SameFiles.ready {g : File} : Ready n' g events ↔ Ready n g events := by
  have polls : poll n' g = poll n g := by
    cases g with
    | pipe b => simp only [poll, pipePoll, same.pipes]
    | timer b => rfl
    | socket k b =>
      cases k with
      | stream =>
        have recv : streamCanRecv n' b ↔ streamCanRecv n b := by rw [streamCanRecv_iff, streamCanRecv_iff,
          same.sockets, same.streams]
        have send : streamCanSend n' b ↔ streamCanSend n b := by rw [streamCanSend_iff, streamCanSend_iff,
          same.sockets, same.streams]
        simp only [poll, streamPoll, recv, send, same.streams]
      | datagram =>
        have recv : datagramCanRecv n' b ↔ datagramCanRecv n b := by
          rw [datagramCanRecv_iff, datagramCanRecv_iff, same.sockets, same.datagrams]
        have send : datagramCanSend n' b ↔ datagramCanSend n b := by
          rw [datagramCanSend_iff, datagramCanSend_iff, same.sockets, same.datagrams]
        simp only [poll, datagramPoll, recv, send, same.datagrams]
  rw [Ready, polls, Ready]

theorem SameFiles.linked (linked : Linked n) : Linked n' :=
  linked.congr (fun a => by rw [same.pipes]; exact ⟨rfl, rfl⟩) same.streams same.datagrams same.fresh

theorem SameFiles.acceptor (acceptor : Acceptor n a) : Acceptor n' a :=
  ⟨same.streams ▸ acceptor.state, same.streams ▸ acceptor.single⟩

end

section

variable [DecidableEq T] {t : T} {X : File → Prop} {w v : W T β} (during : During t X w)
include during

omit [DecidableEq T] in
/-- `t` changes nothing that a poll looks at, and nothing of the other threads but that it may wake them. -/
theorem During.own (same : SameFiles w.shared v.shared) (place : ∀ u, u ≠ t → v.place u = w.place u)
    (status : ∀ u, u ≠ t → v.status u = .blocked → w.status u = .blocked)
    (entries : ∀ u, u ≠ t → ∀ f m, ⟨u, m⟩ ∈ w.shared.m_waitQueueList f → ⟨u, m⟩ ∈ v.shared.m_waitQueueList f) :
    During t X v := by
  have watches : ∀ u, u ≠ t → ∀ g events, Watches v u g events → Watches w u g events := by
    rintro u other g events ⟨fds, endtime, here, inside⟩
    exact ⟨fds, endtime, place u other ▸ here, inside⟩
  refine ⟨same.linked during.linked, fun u other a last here => ?_, fun u other g events watched => ?_, ?_⟩
  · exact same.acceptor (during.acceptor u other a last (place u other ▸ here))
  · exact entries u other g _ (during.registered u other g events (watches u other g events watched))
  · exact during.prompt.step status watches fun u other _ g events _ settled now =>
      ⟨settled, same.ready.mp now⟩

omit during in
omit [DecidableEq T] in
theorem SameFiles.refl (n : Node T β) : SameFiles n n := ⟨rfl, rfl, rfl, rfl, rfl⟩

theorem During.setErr (err : Errno) : During t X (setErr t err w) :=
  during.own ⟨rfl, rfl, rfl, rfl, rfl⟩ (fun _ _ => rfl) (fun _ _ => id) fun _ _ _ _ => id

section

omit [DecidableEq T]

theorem During.setBinder (path : Binder.Path) (l : Option (Kind × Nat)) : During t X (setBinder path l w) :=
  during.own ⟨rfl, rfl, rfl, rfl, rfl⟩ (fun _ _ => rfl) (fun _ _ => id) fun _ _ _ _ => id

theorem During.setTimer (a : Nat) (s : UnixTimerFd T) : During t X (setTimer a s w) :=
  during.own ⟨rfl, rfl, rfl, rfl, rfl⟩ (fun _ _ => rfl) (fun _ _ => id) fun _ _ _ _ => id

end

theorem During.wakeOne (u : T) : During t X (w.wake u) := by
  have shared : (w.wake u).shared = w.shared := World.wake_shared ..
  refine during.own (shared ▸ .refl _) (fun j _ => by rw [World.wake_place]) (fun j _ sleeps => ?_) fun _ _ _ _ =>
    shared ▸ id
  exact ((w.wake_status_blocked u j).mp sleeps).2

omit [DecidableEq T] in
theorem During.addWaitQueue (mask : Events) (f : File) : During t X (addWaitQueue t mask f w) := by
  refine during.own ⟨rfl, rfl, rfl, rfl, rfl⟩ (fun _ _ => rfl) (fun _ _ => id) fun u _ g m entry => ?_
  by_cases same : g = f
  · subst same
    have queue : (Readiness.addWaitQueue t mask g w).shared.m_waitQueueList g = w.shared.m_waitQueueList g ++
        [⟨t, mask⟩] :=
      update_self ..
    exact queue ▸ List.mem_append_left _ entry
  · have queue : (Readiness.addWaitQueue t mask f w).shared.m_waitQueueList g = w.shared.m_waitQueueList g :=
      update_of_ne same _ _
    exact queue ▸ entry

theorem During.removeWaitQueue (f : File) : During t X (removeWaitQueue t f w) := by
  refine during.own ⟨rfl, rfl, rfl, rfl, rfl⟩ (fun _ _ => rfl) (fun _ _ => id) fun u other g m entry => ?_
  by_cases same : g = f
  · subst same
    have queue : (Readiness.removeWaitQueue t g w).shared.m_waitQueueList g =
        (w.shared.m_waitQueueList g).filter fun entry => entry.thread ≠ t := update_self ..
    exact queue ▸ List.mem_filter.mpr ⟨entry, decide_eq_true other⟩
  · have queue : (Readiness.removeWaitQueue t f w).shared.m_waitQueueList g = w.shared.m_waitQueueList g :=
      update_of_ne same _ _
    exact queue ▸ entry

end

section

variable [DecidableEq T] {t u : T} {w : W T β}

/-- What a call relies on while it waits. -/
def Frame.Kept (u : T) (w : W T β) : Frame β → Prop
  | .poll fds _ => (∀ x ∈ fds, ⟨u, pollMask x.2⟩ ∈ w.shared.m_waitQueueList x.1) ∧
      (w.status u = .blocked → ∀ x ∈ fds, ¬ Ready w.shared x.1 x.2)
  | .accept a _ => Acceptor w.shared a
  | _ => True

/-- What holds between the steps. -/
structure Sound (w : W T β) : Prop where
  linked : Linked w.shared
  kept : ∀ u frame, w.place u = .inside frame → frame.Kept u w

/-- `t` has just returned from a call or gone into its wait. -/
structure After (t : T) (w : W T β) : Prop where
  during : During t Settled w
  kept : ∀ frame, w.place t = .inside frame → frame.Kept t w

/-- A wait that relies on nothing. -/
def Frame.Plain : Frame β → Prop
  | .poll .. | .accept .. => False
  | _ => True

variable {frame : Frame β}

section

omit [DecidableEq T]

theorem Frame.Plain.kept (plain : frame.Plain) : frame.Kept u w := by
  cases frame <;> trivial

theorem Sound.during (sound : Sound w) (t : T) : During t Settled w := by
  refine ⟨sound.linked, fun u _ a last here => sound.kept u _ here, fun u _ f events watched => ?_,
    fun u _ sleeps f events watched _ => ?_⟩
  · obtain ⟨fds, endtime, here, inside⟩ := watched
    exact (sound.kept u _ here).1 _ inside
  · obtain ⟨fds, endtime, here, inside⟩ := watched
    exact (sound.kept u _ here).2 sleeps _ inside

end

theorem After.sound (after : After t w) : Sound w := by
  refine ⟨after.during.linked, fun u frame here => ?_⟩
  by_cases same : u = t
  · exact same ▸ after.kept frame (same ▸ here)
  · cases frame with
    | poll fds endtime =>
      refine ⟨fun x inside => ?_, fun sleeps x inside => ?_⟩
      · exact after.during.registered u same x.1 x.2 ⟨fds, endtime, here, inside⟩
      · exact after.during.prompt u same sleeps x.1 x.2 ⟨fds, endtime, here, inside⟩ id
    | accept a last => exact after.during.acceptor u same a last here
    | _ => trivial

variable (during : During t Settled w)
include during

theorem During.ret (r : Result) : After t (w.ret t r) := by
  refine ⟨during.own (.refl _) (fun _ other => update_of_ne other _ _) (fun _ _ => id) fun _ _ _ _ => id,
    fun frame here => ?_⟩
  have own : (w.ret t r).place t = .own (some r) := update_self ..
  cases own.symm.trans here

theorem During.fails (err : Errno) : After t (fails t err w) := (during.setErr err).ret _

theorem During.sleep (kept : frame.Kept t (w.sleep t frame)) : After t (w.sleep t frame) := by
  refine ⟨during.own (.refl _) (fun _ other => update_of_ne other _ _)
    (fun _ other sleeps => (update_of_ne other _ _).symm.trans sleeps) fun _ _ _ _ => id, fun k here => ?_⟩
  have inside : (w.sleep t frame).place t = .inside frame := update_self ..
  cases inside.symm.trans here
  exact kept

theorem During.sleepUntil {e : Nat} (kept : frame.Kept t (w.sleepUntil t frame e)) :
    After t (w.sleepUntil t frame e) := by
  refine ⟨during.own (.refl _) (fun _ other => update_of_ne other _ _)
    (fun _ other sleeps => (update_of_ne other _ _).symm.trans sleeps) fun _ _ _ _ => id, fun k here => ?_⟩
  have inside : (w.sleepUntil t frame e).place t = .inside frame := update_self ..
  cases inside.symm.trans here
  exact kept

theorem During.sleepOn (f : File) (mask : Events) (plain : frame.Plain)
    (last : Option Nat) : After t (sleepOn t f mask frame last w) := by
  cases last with
  | none => exact (during.addWaitQueue mask f).sleep plain.kept
  | some last => exact (during.addWaitQueue mask f).sleepUntil plain.kept

theorem During.waitOn (f : File) (mask : Events) (last : Option Nat)
    (plain : frame.Plain) {late : W T β → W T β} (fine : After t (late w)) :
    After t (waitOn t f mask last frame late w) := by
  unfold Readiness.waitOn
  split
  · exact fine
  · exact during.sleepOn f mask plain last

theorem During.shortReturn (err : Errno) (sofar : Nat) : After t (shortReturn t err sofar w) := by
  unfold Readiness.shortReturn
  split
  · exact during.fails err
  · exact during.ret _

end

section

variable [DecidableEq T] {t : T} {X : File → Prop} {w : W T β} {k : Kind} {a : Nat}

section

omit [DecidableEq T]

theorem requeued_setSocket (k : Kind) (a : Nat) (s : LocalSocketFd β) (w : W T β) :
    Requeued k a w.shared (setSocket k a s w).shared where
  pipes := rfl
  streams := rfl
  datagrams := rfl
  others j b other := by
    by_cases same : j = k
    · subst same
      have away : b ≠ a := fun here => other (by rw [here])
      simp [setSocket, away]
    · simp [setSocket, same]

theorem size_setSocket (s : LocalSocketFd β) : ((setSocket k a s w).shared.sockets k a) = s := by simp [setSocket]

theorem During.setSocket {s : LocalSocketFd β} (during : During t X w)
    (size : s.m_readBufferSize = (w.shared.sockets k a).m_readBufferSize) : During t X (setSocket k a s w) := by
  refine during.change rfl (during.linked.congr (fun _ => ⟨rfl, rfl⟩) rfl rfl rfl) (fun _ _ _ _ _ held =>
    ⟨held.state, held.single⟩)
    fun g events settled now => ⟨settled, ?_⟩
  rcases (requeued_setSocket k a s w).ready now with before | ⟨-, more, -⟩ | ⟨b, -, -, less, full, -⟩
  · exact before
  · rw [size_setSocket, size] at more
    exact absurd more (lt_irrefl _)
  · rw [size_setSocket, size] at less
    exact absurd less (not_lt.mpr full)

end

theorem During.doRecvPacket (during : During t X w) (k : Kind) (a : Nat)
    (buf : List β) : During t X (doRecvPacket k a buf w).1 := by
  unfold Readiness.doRecvPacket
  dsimp only
  split
  · exact during
  · split
    · exact during
    · refine during.changeWake rfl (during.linked.congr (fun _ => ⟨rfl, rfl⟩) rfl rfl rfl)
        (fun _ _ _ _ _ held => ⟨held.state, held.single⟩)
        fun g events settled now => ?_
      rcases (requeued_setSocket k a _ w).ready now with before | ⟨rfl, -, input⟩ | ⟨b, -, -, less, full, -⟩
      · exact .inr ⟨settled, before⟩
      · exact .inl ⟨rfl, input⟩
      · rw [size_setSocket] at less
        exact absurd less (not_lt.mpr (full.trans (Nat.le_add_right _ _)))

end

end Dce.Readiness
