import Dce.LocalStream.Delivery
import Dce.LocalStream.Gathering

/- The messages of every run. -/

namespace Dce.LocalStream

open Carrying Coroutine

variable {T β : Type*} [DecidableEq T] {s v : W T β} {t u : T} {e : Side} {d : Doing}

section

variable (carrying : Carrying d t s)
include carrying

theorem Carrying.resets {q : SocketFd T β} (stock : Stock q)
    (same : SameBytes (socket e s) q) : Carrying d t (setSocket e q s) := by
  have untouched : ∀ u, Untouched u s (setSocket e q s) := by
    refine fun u => .of_same rfl fun f => ?_
    rcases e.eq_or f with rfl | rfl
    · rw [socket_setSocket_self]
      exact same
    · rw [socket_setSocket_other]
      exact ⟨rfl, rfl, rfl, rfl⟩
  exact carrying.sets stock (fun u _ => untouched u) (carrying.mine.same (untouched t))

theorem Carrying.wakes (event : PollEvent) : Carrying d t (wakeWaiters event e s) := by
  refine carrying.calm (fun f => ?_) (wakeWaiters_place ..) fun u =>
    .of_same (by rw [wakeWaiters_shared]) fun f => ?_
  · rw [socket_wakeWaiters]
    exact carrying.stocks f
  · rw [socket_wakeWaiters]
    exact ⟨rfl, rfl, rfl, rfl⟩

theorem Carrying.peerLeaves : Carrying d t (peerClosed e s) := by
  have stock := carrying.stocks e
  unfold peerClosed
  dsimp only
  split
  next connected =>
    refine wakes ?_ .POLLHUP
    exact carrying.resets ⟨fun _ => stock.flow (by simp [connected]), stock.order⟩ ⟨rfl, rfl, rfl, rfl⟩
  next => exact carrying.resets ⟨stock.flow, stock.order⟩ ⟨rfl, rfl, rfl, rfl⟩

theorem Carrying.clears (andWakeUp : Bool) : Carrying d t (clearAll e andWakeUp s) := by
  have closed : Carrying d t (setSocket e { socket e s with
      m_state := .CLOSED, m_peer := false, m_readBuffer := [], m_readBufferSize := 0 } s) :=
    carrying.resets ⟨fun alive => absurd rfl alive, (carrying.stocks e).order⟩ ⟨rfl, rfl, rfl, rfl⟩
  unfold clearAll
  split
  · exact closed.wakes .POLLHUP
  · exact closed

end

theorem Carrying.closes (carrying : Carrying .own t s) : Carried (close t e s) := by
  unfold close
  split
  next => exact (carrying.peerLeaves.clears true).ret _ trivial
  next => exact (carrying.clears false).ret _ trivial
  next => exact carrying.ret _ trivial

theorem Carrying.shuts (carrying : Carrying .own t s) (how : How) : Carried (shutdown t e how s) := by
  have stock := carrying.stocks e
  unfold shutdown
  dsimp only
  split
  · exact (carrying.failing .ENOTCONN).ret _ trivial
  next =>
    cases how
    all_goals
      refine ret ?_ _ trivial
      exact carrying.resets ⟨stock.flow, stock.order⟩ ⟨rfl, rfl, rfl, rfl⟩

theorem Carried.calls (carried : Carried s) {r : Option (Result β)} (own : s.place t = .own r) :
    Carrying d t (clearMoved t s) := by
  refine ⟨carried.stocks, fun u other => (carried.exact u).kept rfl ?_, ?_⟩
  · exact ⟨by simp [clearMoved, other], fun _ => rfl, fun _ => rfl, fun _ => rfl, fun _ => rfl⟩
  · have before := (carried.exact t).accounts
    rw [own] at before
    have none : (clearMoved t s).shared.moved t = [] := by simp [clearMoved]
    refine ⟨fun f => ?_, fun f => ?_⟩
    · rw [none, ite_self]
      exact before.written f
    · rw [none, ite_self]
      exact before.read f

theorem Carried.enter (carried : Carried s) {op : Op β} {r : Option (Result β)} (own : s.place t = .own r)
    (whole : WholeCall s op) : Carried (LocalStream.enter t op s) := by
  have none : (clearMoved t s).shared.moved t = [] := by simp [clearMoved]
  have count : ((clearMoved t s).shared.moved t).length = 0 := by rw [none, List.length_nil]
  have whole := whole.requeued (v := clearMoved t s) (.of_eq fun _ => rfl)
  unfold LocalStream.enter
  cases op with
  | write e buf => exact (carried.calls own).sends [buf] count (by rw [none, List.nil_append]) whole
  | sendmsg e named iovs =>
    have carrying : Carrying (.writing e) t (clearMoved t s) := carried.calls own
    cases named with
    | true => exact (carrying.failing .EISCONN).sent (by simp [none]) (.inr ⟨rfl, none⟩)
    | false => exact carrying.sends iovs count (by rw [none, List.nil_append]) (whole rfl)
  | read e len =>
    have carrying : Carrying (.reading e) t (clearMoved t s) := carried.calls own
    exact carrying.startsRecvmsg none [len] whole fun _ => le_refl 1
  | recvmsg e lens =>
    have carrying : Carrying (.reading e) t (clearMoved t s) := carried.calls own
    exact carrying.startsRecvmsg none lens whole.1 whole.2
  | shutdown e how => exact (carried.calls own).shuts how
  | close e => exact (carried.calls own).closes
  | setfl e nonblock =>
    have carrying : Carrying .own t (clearMoved t s) := carried.calls own
    refine ret ?_ _ trivial
    exact carrying.resets ⟨(carrying.stocks e).flow, (carrying.stocks e).order⟩ ⟨rfl, rfl, rfl, rfl⟩
  | setTimeouts e send recv =>
    have carrying : Carrying .own t (clearMoved t s) := carried.calls own
    refine ret ?_ _ trivial
    exact carrying.resets ⟨(carrying.stocks e).flow, (carrying.stocks e).order⟩ ⟨rfl, rfl, rfl, rfl⟩

omit [DecidableEq T] in
theorem WholeReturn.requeued {frame : Frame β} {interrupted : Bool} (whole : WholeReturn s interrupted frame)
    (requeued : Requeued s v) (now : v.now = s.now) : WholeReturn v interrupted frame := by
  cases frame with
  | write e tot rest last message retval iovs =>
    obtain ⟨list, same⟩ := requeued e
    refine ⟨?_, fun ok connected data => ?_⟩
    · rw [now, same]
      exact whole.1
    · rw [now] at ok
      rw [same] at connected
      exact (whole.2 ok connected data).requeued requeued
  | read e filled rest last asked retval lens =>
    obtain ⟨broken, fits⟩ := whole
    refine ⟨fun off => ?_, fun ok => ?_⟩ <;> rw [now] at *
    · rw [requeued.stops]
      exact broken off
    have found := fits ok
    rw [requeued.stops]
    by_cases readable : Readable (socket e s)
    · rw [if_pos (requeued.readable.mpr readable), requeued.readFits]
      rwa [if_pos readable] at found
    · rw [if_neg fun open' => readable (requeued.readable.mp open')]
      rwa [if_neg readable] at found

theorem Carried.resume (carried : Carried s) {frame : Frame β} (inside : s.place t = .inside frame)
    {interrupted : Bool} (whole : WholeReturn s interrupted frame) :
    Carried (LocalStream.resume t frame interrupted (s.give t)) := by
  have untouched : ∀ u, Untouched u s (s.give t) := fun u => .of_same rfl fun _ => ⟨rfl, rfl, rfl, rfl⟩
  have carrying : Carrying (doing (.inside frame)) t (s.give t) := by
    refine ⟨carried.stocks, fun u _ => (carried.exact u).kept rfl (untouched u), ?_⟩
    rw [← inside]
    exact (carried.exact t).accounts.same (untouched t)
  have exact' := ((carried.exact t).inside frame inside).mono (v := s.give t) rfl
  have whole := whole.requeued (v := s.give t) (.of_eq fun _ => rfl) rfl
  cases frame with
  | write e tot rest last message retval iovs =>
    obtain ⟨n, rfl, count, all, begun⟩ := exact'
    exact resumesWrite carrying count all begun whole
  | read e filled rest last asked retval lens =>
    obtain ⟨n, rfl, count, all, positive⟩ := exact'
    exact resumesRead carrying count all positive whole

theorem Carried.idle (carried : Carried s) (idle : Program.Idle s v) : Carried v := by
  have sockets : ∀ e, socket e v = socket e s := fun e => by rw [socket, idle.shared, socket]
  refine ⟨fun e => ?_, fun u => (carried.exact u).kept (congrFun idle.place u) ?_⟩
  · rw [sockets]
    exact carried.stocks e
  · refine .of_same (by rw [idle.shared]) fun e => ?_
    rw [sockets]
    exact ⟨rfl, rfl, rfl, rfl⟩

theorem carried_of_joined (first : (program T β).Start s) : Carried s := by
  have joined : Pair.Joined s.shared := first.shared
  have accepted : ∀ e, (socket e s).accepted = [] := joined.accepted
  have delivered : ∀ e, (socket e s).delivered = [] := joined.delivered
  have told : ∀ e u, (socket e s).toldWritten u = [] ∧ (socket e s).toldRead u = [] := fun e u =>
    ⟨joined.toldWritten e u, joined.toldRead e u⟩
  refine ⟨fun e => ⟨fun _ => ?_, by simp [delivered]⟩, fun u => ⟨fun frame inside => ?_, fun r own => ?_, ?_⟩⟩
  · have buffer : (socket e s).m_readBuffer = [] := joined.buffer e
    simp [accepted, delivered, buffer, Stream.Conserved]
  · simp [first.own u] at inside
  · simp [first.own u] at own
  · rw [first.own u]
    exact ⟨fun e => by simp [accepted, told, movedBy, doing], fun e => by simp [delivered, told, movedBy, doing]⟩

/-- The messages are whole in every state of the runs along `C`. -/
def KeepsMessages (T β : Type*) [DecidableEq T] (C : W T β → Act T (Op β) Bool → Prop) : Prop :=
  ∀ s, (machine T β).ReachBy C s → Gathers s

theorem keepsMessages_of_whole (T β : Type*) [DecidableEq T] : KeepsMessages T β Whole := by
  intro s reach
  have carried : Carried s := by
    refine reach.invariant (fun s first => carried_of_joined (s := s) first) fun s a v carried whole run => ?_
    rcases Program.step_cases run with
      ⟨t, op, r, rfl, -, own, rfl⟩ | ⟨t, interrupted, frame, rfl, -, -, inside, rfl⟩ | idle
    · exact carried.enter own whole
    · exact carried.resume inside (whole frame inside)
    · exact carried.idle idle
  exact ⟨fun e => (carried.stocks e).order, fun t => (carried.exact t).accounts, fun t => (carried.exact t).own⟩

/-- Two bytes are there for a nonblocking message over buffers of two bytes and of one. -/
theorem not_keepsMessages : ¬ KeepsMessages Bool Nat fun _ _ => True := by
  intro keeps
  let flagged : W Bool Nat := enter true (.setfl .b true) twoWritten
  let asked : W Bool Nat := clearMoved true flagged
  have here : (machine Bool Nat).Reach (newPair.give true) :=
    .next (a := .dispatch true false) (.start newPair_start) trivial rfl
  have wrote : (machine Bool Nat).Reach twoWritten :=
    .next (a := .call true (.write .a [1, 2])) here trivial (congrArg some enter_twoWritten)
  have nonblock : (machine Bool Nat).Reach flagged :=
    .next (a := .call true (.setfl .b true)) wrote trivial rfl
  have read : (machine Bool Nat).Reach (enter true (.recvmsg .b [2, 1]) flagged) :=
    .next (a := .call true (.recvmsg .b [2, 1])) nonblock trivial rfl
  have full : readLoop true .b 0 2 none asked = (drain asked .b true 2, .returned 2) :=
    readLoop_enough (e := .b) (by decide) (.inl rfl) (by decide)
  have empty : readLoop true .b 0 1 none (drain asked .b true 2) = (drain asked .b true 2, .failed .EAGAIN) :=
    (readLoop_none (e := .b) (by decide) (.inl rfl) rfl).trans rfl
  have returned : (enter true (.recvmsg .b [2, 1]) flagged).place true = .own (some (.read 3 1 [1, 2] 0)) := by
    show (recvmsgLoop true .b 3 [2, 1] 0 asked).place true = _
    rw [recvmsgLoop, read_attached (.inl rfl), full]
    show (recvmsgLoop true .b 3 [1] 2 (drain asked .b true 2)).place true = _
    rw [recvmsgLoop, read_attached (.inl rfl), empty]
    rfl
  have counted := ((keeps _ read).counted true _ returned).2
  rcases counted with two | ⟨failed, -⟩
  · cases two
  · cases failed

end Dce.LocalStream
