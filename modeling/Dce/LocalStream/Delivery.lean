import Dce.LocalStream.Receiving
import Dce.LocalStream.Sending

/- The bytes of a pair in every run. -/

namespace Dce.LocalStream

open Working Coroutine

variable {T β : Type*} [DecidableEq T] {s v : W T β} {t u : T} {e : Side} {d : Doing}

section

variable (working : Working d t s)
include working

theorem Working.resets {q : SocketFd T β} (queue : Queue q) (same : SameBytes (socket e s) q)
    (lost : q.m_state = .CLOSED → (socket e s).m_state = .CLOSED ∨ ∀ u filled rest last asked retval lens, u ≠ t →
        s.place u = .inside (.read e filled rest last asked retval lens) → s.shared.moved u = [] →
        left (socket e s) = 0) : Working d t (setSocket e q s) := by
  have bytes : ∀ f, SameBytes (socket f s) (socket f (setSocket e q s)) := by
    intro f
    rcases e.eq_or f with rfl | rfl
    · rw [socket_setSocket_self]
      exact same
    · rw [socket_setSocket_other]
      exact ⟨rfl, rfl, rfl, rfl⟩
  have untouched : ∀ u, Untouched u s (setSocket e q s) := fun u => .of_same rfl bytes
  refine ⟨fun f => ?_, fun u other => ⟨fun frame inside => ?_, fun r own => ?_, ?_⟩, working.mine.same (untouched t)⟩
  · rcases e.eq_or f with rfl | rfl
    · rw [socket_setSocket_self]
      exact queue
    · rw [socket_setSocket_other]
      exact working.queues _
  · have before := (working.others u other).inside frame inside
    cases frame with
    | write f tot rest last message retval iovs => exact before
    | read f filled rest last asked retval lens =>
      obtain ⟨n, count, length, positive, gone⟩ := before
      refine ⟨n, count, length, positive, fun closed none => ?_⟩
      rw [left, (bytes f).accepted, (bytes f).delivered]
      rcases e.eq_or f with rfl | rfl
      · rw [socket_setSocket_self] at closed
        rcases lost closed with already | spared
        · exact gone already none
        · exact spared u filled rest last asked retval lens other inside none
      · rw [socket_setSocket_other] at closed
        exact gone closed none
  · exact (working.others u other).own r own
  · exact (working.others u other).accounts.same (untouched u)

theorem Working.wakes (event : PollEvent) : Working d t (wakeWaiters event e s) := by
  refine working.calm (fun f => ?_) (wakeWaiters_place ..) (by rw [wakeWaiters_shared])
    (fun f => ?_) fun f closed => ?_
  · rw [socket_wakeWaiters]
    exact working.queues f
  · rw [socket_wakeWaiters]
    exact ⟨rfl, rfl, rfl, rfl⟩
  · rwa [socket_wakeWaiters] at closed

theorem Working.peerLeaves : Working d t (peerClosed e s) := by
  have queue := working.queues e
  unfold peerClosed
  dsimp only
  split
  next connected =>
    refine wakes ?_ .POLLHUP
    exact working.resets (queue.abandoned connected) ⟨rfl, rfl, rfl, rfl⟩ fun closed => by simp at closed
  next =>
    refine working.resets ?_ ⟨rfl, rfl, rfl, rfl⟩ .inl
    exact ⟨queue.joined, queue.fresh, queue.size, queue.flow, queue.order⟩

theorem Working.clears (andWakeUp : Bool) (lost : ∀ u filled rest last asked retval lens, u ≠ t →
      s.place u = .inside (.read e filled rest last asked retval lens) → s.shared.moved u = [] →
      left (socket e s) = 0) : Working d t (clearAll e andWakeUp s) := by
  have closed : Working d t (setSocket e { socket e s with
      m_state := .CLOSED, m_peer := false, m_readBuffer := [], m_readBufferSize := 0 } s) :=
    working.resets (working.queues e).cleared ⟨rfl, rfl, rfl, rfl⟩ fun _ => .inr lost
  unfold clearAll
  split
  · exact closed.wakes .POLLHUP
  · exact closed

end

variable {r : Option (Result β)} {frame : Frame β} {interrupted : Bool}

theorem Tended.calls (tended : Tended s) (own : s.place t = .own r) : Working d t (clearMoved t s) := by
  have mine : Accounts d (clearMoved t s) t := by
    have before := (tended.kept t).accounts
    rw [own] at before
    have none : (clearMoved t s).shared.moved t = [] := by simp [clearMoved]
    refine ⟨fun f => ?_, fun f => ?_⟩
    · rw [none, ite_self]
      exact before.written f
    · rw [none, ite_self]
      exact before.read f
  have here : Working .own t s := by
    have accounts := (tended.kept t).accounts
    rw [own] at accounts
    exact ⟨tended.queues, fun u _ => tended.kept u, accounts⟩
  refine here.step tended.queues (fun _ _ => rfl) (fun u other => ?_) mine fun _ closed => ⟨closed, rfl⟩
  exact ⟨by simp [clearMoved, other], fun _ => rfl, fun _ => rfl, fun _ => rfl, fun _ => rfl⟩

theorem Tended.goesOn (tended : Tended s) (inside : s.place t = .inside frame) :
    Working (doing (.inside frame)) t (s.give t) ∧ frame.Kept (s.give t) t := by
  have untouched : ∀ u, Untouched u s (s.give t) := fun u => .of_same rfl fun _ => ⟨rfl, rfl, rfl, rfl⟩
  have stays : ∀ (u : T) (frame : Frame β), frame.Kept s u → frame.Kept (s.give t) u := fun u frame before =>
    before.mono rfl fun f closed => ⟨id, .inl closed⟩
  refine ⟨⟨tended.queues, fun u _ => ⟨fun frame' at' => ?_, (tended.kept u).own, ?_⟩, ?_⟩, ?_⟩
  · exact stays u frame' ((tended.kept u).inside frame' at')
  · exact (tended.kept u).accounts.same (untouched u)
  · rw [← inside]
    exact (tended.kept t).accounts.same (untouched t)
  · exact stays t frame ((tended.kept t).inside frame inside)

theorem HonestCall.cleared {op : Op β} (honest : HonestCall s op) : HonestCall (clearMoved t s) op := by
  cases op with
  | write e buf =>
    intro opened
    have found := honest ⟨opened.connected, opened.shutWrite, opened.takes⟩
    exact ⟨found.nonempty, found.whole⟩
  | sendmsg e named iovs =>
    intro unnamed opened
    have found := honest unnamed ⟨opened.connected, opened.shutWrite, opened.takes⟩
    exact ⟨found.nonempty, found.whole⟩
  | read e count => exact ⟨honest.shut, honest.whole⟩
  | recvmsg e lens => exact ⟨⟨honest.1.shut, honest.1.whole⟩, honest.2⟩
  | close e => exact honest
  | shutdown e how => trivial
  | setfl e nonblock => trivial
  | setTimeouts e send recv => trivial

theorem HonestReturn.given (honest : HonestReturn s interrupted frame) :
    HonestReturn (s.give t) interrupted frame := by
  cases frame with
  | write e tot rest last message retval iovs =>
    refine ⟨fun several => ?_, fun ok connected takes => ?_⟩
    · obtain ⟨ok, opened⟩ := honest.1 several
      exact ⟨ok, opened.connected, opened.shutWrite, opened.takes⟩
    · have found := honest.2 ok connected takes
      exact ⟨found.nonempty, found.whole⟩
  | read e filled rest last asked retval lens =>
    refine ⟨honest.1, fun ok => ?_⟩
    have found := honest.2 ok
    exact ⟨found.shut, found.whole⟩

theorem Working.closing (working : Working .own t s)
    (honest : Attached (socket e s) → 0 < available e s → ∀ u filled rest last asked retval lens,
      s.place u = .inside (.read e filled rest last asked retval lens) → 0 < filled ∨ retval ≠ 0) :
    Tended (close t e s) := by
  have lost : Attached (socket e s) → ∀ u filled rest last asked retval lens, u ≠ t →
      s.place u = .inside (.read e filled rest last asked retval lens) → s.shared.moved u = [] →
      left (socket e s) = 0 := by
    intro attached u filled rest last asked retval lens other inside none
    obtain ⟨n, rfl, length, -⟩ := (working.others u other).inside _ inside
    rw [none, List.length_nil] at length
    rw [(working.queues e).left_eq attached.not_closed]
    by_contra some
    rcases honest attached (by omega) u filled rest last asked n lens inside with got | got
    · omega
    · omega
  unfold close
  split
  next connected =>
    refine ret (clears working.peerLeaves true ?_) _ trivial
    have same : socket e (peerClosed e.other s) = socket e s := by
      unfold peerClosed
      dsimp only
      split
      · rw [socket_wakeWaiters, socket_other_setSocket]
      · rw [socket_other_setSocket]
    have place : (peerClosed e.other s).place = s.place := by
      unfold peerClosed
      dsimp only
      split
      · rw [wakeWaiters_place, setSocket_place]
      · rw [setSocket_place]
    have moved : (peerClosed e.other s).shared.moved = s.shared.moved := by
      unfold peerClosed
      dsimp only
      split
      · rw [wakeWaiters_shared, setSocket_moved]
      · rw [setSocket_moved]
    rw [same, place, moved]
    exact lost (.inl connected)
  next remote => exact (working.clears false (lost (.inr remote))).ret _ trivial
  next => exact working.ret _ trivial

theorem Working.shuts (working : Working .own t s) (how : How) : Tended (shutdown t e how s) := by
  have queue := working.queues e
  unfold shutdown
  dsimp only
  split
  · exact (working.failing .ENOTCONN).ret _ trivial
  next =>
    cases how
    all_goals
      refine ret ?_ _ trivial
      refine working.resets ?_ ⟨rfl, rfl, rfl, rfl⟩ .inl
      exact ⟨queue.joined, queue.fresh, queue.size, queue.flow, queue.order⟩

theorem Tended.enter (tended : Tended s) {op : Op β} (own : s.place t = .own r)
    (honest : HonestCall s op) : Tended (LocalStream.enter t op s) := by
  have none : (clearMoved t s).shared.moved t = [] := by simp [clearMoved]
  have honest := honest.cleared (t := t)
  unfold LocalStream.enter
  cases op with
  | write e buf =>
    have working : Working (.writing e) t (clearMoved t s) := tended.calls own
    exact working.startSendmsg none [buf] honest
  | sendmsg e named iovs =>
    have working : Working (.writing e) t (clearMoved t s) := tended.calls own
    cases named with
    | true => exact (working.failing .EISCONN).sent none
    | false => exact working.startSendmsg none iovs (honest rfl)
  | read e count =>
    have working : Working (.reading e) t (clearMoved t s) := tended.calls own
    refine working.startRecvmsg none [count] ⟨honest.shut, fun connected nonblock => ?_⟩ fun _ _ some => ?_
    · exact .inl (by simp)
    · simpa using ne_of_gt some
  | recvmsg e lens =>
    have working : Working (.reading e) t (clearMoved t s) := tended.calls own
    exact working.startRecvmsg none lens honest.1 honest.2
  | shutdown e how => exact (tended.calls own).shuts how
  | close e => exact (tended.calls own).closing honest
  | setfl e nonblock =>
    have working : Working .own t (clearMoved t s) := tended.calls own
    have queue := working.queues e
    refine ret ?_ _ trivial
    refine working.resets ?_ ⟨rfl, rfl, rfl, rfl⟩ .inl
    exact ⟨queue.joined, queue.fresh, queue.size, queue.flow, queue.order⟩
  | setTimeouts e send recv =>
    have working : Working .own t (clearMoved t s) := tended.calls own
    have queue := working.queues e
    refine ret ?_ _ trivial
    refine working.resets ?_ ⟨rfl, rfl, rfl, rfl⟩ .inl
    exact ⟨queue.joined, queue.fresh, queue.size, queue.flow, queue.order⟩

theorem Tended.resume (tended : Tended s) (inside : s.place t = .inside frame)
    (honest : HonestReturn s interrupted frame) :
    Tended (LocalStream.resume t frame interrupted (s.give t)) := by
  obtain ⟨working, kept⟩ := tended.goesOn inside
  have honest := honest.given (t := t)
  cases frame with
  | write e tot rest last message retval iovs =>
    obtain ⟨n, rfl, count, whole⟩ := kept
    exact resumeWrite working count whole honest
  | read e filled rest last asked retval lens =>
    obtain ⟨n, rfl, length, positive, gone⟩ := kept
    exact resumeRead working positive length gone honest

theorem tended_of_joined (first : (program T β).Start s) : Tended s := by
  have joined : Pair.Joined s.shared := first.shared
  have accepted : ∀ e, (socket e s).accepted = [] := joined.accepted
  have delivered : ∀ e, (socket e s).delivered = [] := joined.delivered
  refine ⟨fun e => ?_, fun u => ⟨fun frame inside => ?_, fun r own => ?_, ?_⟩⟩
  · have buffer : (socket e s).m_readBuffer = [] := joined.buffer e
    have size : (socket e s).m_readBufferSize = 0 := joined.size e
    refine ⟨.inl (.inl (joined.state e)), by simp [buffer, Fresh], by simp [buffer, size], fun _ => ?_, ?_⟩
    · simp [accepted, delivered, buffer, Stream.Conserved]
    · simp [delivered]
  · simp [first.own u] at inside
  · simp [first.own u] at own
  · have told : ∀ e, (socket e s).toldWritten u = [] ∧ (socket e s).toldRead u = [] := fun e =>
      ⟨joined.toldWritten e u, joined.toldRead e u⟩
    rw [first.own u]
    exact ⟨fun e => by simp [accepted, told, movedBy, doing], fun e => by simp [delivered, told, movedBy, doing]⟩

theorem Tended.idle (tended : Tended s) (idle : Program.Idle s v) : Tended v := by
  have sockets : ∀ e, socket e v = socket e s := fun e => by rw [socket, idle.shared, socket]
  refine ⟨fun e => ?_, fun u => ⟨fun frame inside => ?_, fun r own => ?_, ?_⟩⟩
  · rw [sockets]
    exact tended.queues e
  · rw [idle.place] at inside
    refine ((tended.kept u).inside frame inside).mono (by rw [idle.shared]) fun e closed => ?_
    rw [sockets] at closed ⊢
    exact ⟨id, .inl closed⟩
  · rw [idle.place] at own
    exact (tended.kept u).own r own
  · rw [idle.place]
    refine (tended.kept u).accounts.same (.of_same (by rw [idle.shared]) fun e => ?_)
    rw [sockets]
    exact ⟨rfl, rfl, rfl, rfl⟩

theorem tended_of_reach (reach : (machine T β).ReachBy Honest s) : Tended s := by
  refine reach.invariant (fun s first => tended_of_joined (s := s) first) fun s a v tended honest run => ?_
  rcases Program.step_cases run with ⟨t, op, r, rfl, -, own, rfl⟩ | ⟨t, interrupted, frame, rfl, -, -,
    inside, rfl⟩ | idle
  · exact tended.enter own honest
  · exact tended.resume inside (honest frame inside)
  · exact tended.idle idle

theorem movedBy_all {bytes : List (T × β)} (alone : ∀ b ∈ bytes, b.1 = u) :
    movedBy u bytes = bytes.map Prod.snd := by
  rw [movedBy, List.filter_eq_self.mpr fun b mem => by simpa using alone b mem]

/-- In the runs along `C` the bytes that one side reports as read are those that the other
reports as written, as far as they go. -/
structure KeepsBytes (T β : Type*) [DecidableEq T] (C : W T β → Act T (Op β) Bool → Prop) : Prop where
  faithful : ∀ s, (machine T β).ReachBy C s → Faithful s
  stream : ∀ s e reader writer, (machine T β).ReachBy C s →
    (∀ b ∈ (socket e s).delivered, b.1 = reader) → (∀ b ∈ (socket e s).accepted, b.1 = writer) →
    (socket e s).toldRead reader <+: (socket e.other s).toldWritten writer ++
      if doing (s.place writer) = .writing e.other then s.shared.moved writer else []

theorem keepsBytes_of_honest (T β : Type*) [DecidableEq T] : KeepsBytes T β Honest where
  faithful s reach := by
    have tended := tended_of_reach reach
    exact ⟨fun e => (tended.queues e).order, fun t => (tended.kept t).accounts, fun t => (tended.kept t).own⟩
  stream s e reader writer reach read written := by
    have tended := tended_of_reach reach
    have out := (tended.kept reader).accounts.read e
    have into := (tended.kept writer).accounts.written e.other
    rw [movedBy_all read] at out
    rw [Side.other_other, movedBy_all written] at into
    rw [← into]
    refine .trans ?_ (tended.queues e).order
    rw [out]
    exact List.prefix_append _ _

/-- Two bytes go to the side `b`. -/
def twoWritten : W Bool Nat :=
  sendmsgReturn true .a [1, 2] 2 (fill (clearMoved true (newPair.give true)) .b true [1, 2])

theorem enter_twoWritten : enter true (.write .a [1, 2]) (newPair.give true) = twoWritten := by
  let asked : W Bool Nat := clearMoved true (newPair.give true)
  have opened : Open .a asked := ⟨rfl, rfl, rfl, by decide⟩
  have loop : writeLoop true .a 0 [1, 2] none asked = (fill asked .b true [1, 2], .returned 2) :=
    writeLoop_fits (e := .a) opened.takes (by decide) (by decide)
  show sendmsgLoop true .a [1, 2] [[1, 2]] 0 asked = twoWritten
  rw [sendmsgLoop, write_open opened, loop]
  rfl

/-- The writer shuts its side, and a read of five bytes copies the two and returns 0. -/
theorem not_keepsBytes : ¬ KeepsBytes Bool Nat fun _ _ => True := by
  intro keeps
  let shut : W Bool Nat := enter true (.shutdown .a .SHUT_WR) twoWritten
  let asked : W Bool Nat := clearMoved true shut
  have here : (machine Bool Nat).Reach (newPair.give true) :=
    .next (a := .dispatch true false) (.start newPair_start) trivial rfl
  have wrote : (machine Bool Nat).Reach twoWritten :=
    .next (a := .call true (.write .a [1, 2])) here trivial (congrArg some enter_twoWritten)
  have closed : (machine Bool Nat).Reach shut :=
    .next (a := .call true (.shutdown .a .SHUT_WR)) wrote trivial rfl
  have read : (machine Bool Nat).Reach (enter true (.read .b 5) shut) :=
    .next (a := .call true (.read .b 5)) closed trivial rfl
  have loop : readLoop true .b 0 5 none asked = (drain asked .b true 5, .returned 0) :=
    (readLoop_part (e := .b) (by decide) (.inl rfl) (by decide) (by decide)).trans rfl
  have returned : (enter true (.read .b 5) shut).place true = .own (some (.read 5 0 [1, 2] 0)) := by
    show (recvmsgLoop true .b 5 [5] 0 asked).place true = _
    rw [recvmsgLoop, read_attached (.inl rfl), loop]
    rfl
  have sound := ((keeps.faithful _ read).reported true _ returned).1
  cases sound

end Dce.LocalStream
