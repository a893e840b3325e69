import Dce.Datagram.Peers

/- Whether a datagram comes out of the queue as it was sent. -/

namespace Dce.Datagram

open Coroutine Function List Option
open LocalStream (Buffer maxBuffer readData)

section

variable {T β : Type*}

/-- How many datagrams were taken by these receives. -/
def taken (receipts : List (Receipt β)) : Nat := (receipts.filter fun r => !r.peek).length

/-- Each receive was given the first datagram that was not taken before it, as far as there was room. -/
def InOrder (sent : List (List β)) (receipts : List (Receipt β)) : Prop :=
  ∀ before r after, receipts = before ++ r :: after →
    ∃ datagram, sent[taken before]? = some datagram ∧ r.bytes = datagram.take r.asked ∧ r.value = r.bytes.length

/-- A call of a send has put its message into the queue as one datagram, or nothing. -/
def PutWhole (message : List β) (value : Int) (put : List (List β)) : Prop :=
  put = [] ∨ (put = [message] ∧ value = message.length)

/-- What should hold of the datagrams. -/
structure Delimited (w : W T β) : Prop where
  sends : ∀ t message value put, w.place t = .own (some (.sent message value put)) → PutWhole message value put
  receives : ∀ a, InOrder (socket a w).sent (socket a w).receipts

/-- Where `l` takes packets and has room, the message is one buffer, not empty, for which there is room. -/
def Fits (w : W T β) (l : Nat) (iovs : List (List β)) : Prop :=
  (socket l w).m_shutRead = false → (socket l w).m_state.IsClosed = false →
  (socket l w).m_readBufferSize < maxBuffer →
    iovs = [] ∨ ∃ message, iovs = [message] ∧ message ≠ [] ∧ (socket l w).m_readBufferSize +
    message.length ≤ maxBuffer

/-- The bytes that a receive asks for: `Recvmsg` stops at an empty buffer. -/
def effective (lens : List Nat) : Nat := (lens.takeWhile (· ≠ 0)).sum

/-- Where a datagram is there, a receive that takes it asks for as many bytes as it has, or for more if it is
the only one. -/
def TakesOne (w : W T β) (a n : Nat) : Prop :=
  (socket a w).m_state = .BINDED → ∀ b q, (socket a w).m_readBuffer = b :: q →
    n = b.unread.length ∨ (b.unread.length < n ∧ q = [])

/-- A `Recvmsg` that takes nothing fails. One that peeks has one buffer, and no more room than the
datagram has bytes if there is another. -/
def ReceivesOne (w : W T β) (a : Nat) (lens : List Nat) (peek : Bool) : Prop :=
  effective lens = 0 ∨ if peek then
      (socket a w).m_state = .BINDED → ∀ b q, (socket a w).m_readBuffer = b :: q →
        ∃ n, lens.takeWhile (· ≠ 0) = [n] ∧ (n < b.unread.length → lens.sum = n) ∧ (b.unread.length < n → q = [])
    else TakesOne w a (effective lens)

/-- Who listens to a send of `a`. -/
def listener (w : W T β) (a : Nat) (name : Option Binder.Path) : Option Nat :=
  match (socket a w).m_state with
  | .CONNECTED => (socket a w).m_peer
  | .CREATED => name.bind w.shared.m_bindByPath
  | _ => none

/-- The steps that leave the datagrams whole. -/
def Whole (w : W T β) : Act T (Op β) Bool → Prop
  | .call _ (.write a buf) => ∀ l, listener w a none = some l → Fits w l [buf]
  | .call _ (.sendmsg a name iovs _) => ∀ l, listener w a name = some l → Fits w l iovs
  | .call _ (.read a count) => TakesOne w a count
  | .call _ (.recvmsg a lens _ peek) => ReceivesOne w a lens peek
  | .dispatch t interrupted =>
    match w.place t with
    | .inside (.send a l iovs _ last _ _) =>
      LocalStream.waitResult interrupted last w.now = .OK → (socket a w).m_state.IsClosed = false → Fits w l iovs
    | .inside (.read a count _) => TakesOne w a count
    | .inside (.recvmsg a len _ peek _ lens) => ReceivesOne w a (len :: lens) peek
    | .own _ => True
  | _ => True

end

section

variable {T β : Type*}

def fresh (datagrams : List (List β)) : List (Buffer β) := datagrams.map fun d => ⟨d, 0⟩

/-- The queue of a socket that can be read holds what was sent and not taken, each datagram whole. -/
structure Ordered (s : SocketFd T β) : Prop where
  some : ∀ d ∈ s.sent, d ≠ []
  queue : s.m_state = .CREATED ∨ s.m_state = .BINDED → s.m_readBuffer = fresh (s.sent.drop (taken s.receipts))
  bound : taken s.receipts ≤ s.sent.length
  order : InOrder s.sent s.receipts

variable {s s' : SocketFd T β} {sent : List (List β)} {receipts : List (Receipt β)}

theorem Ordered.congr (ordered : Ordered s) (state : s'.m_state = .CREATED ∨ s'.m_state = .BINDED →
      (s.m_state = .CREATED ∨ s.m_state = .BINDED) ∧ s'.m_readBuffer = s.m_readBuffer)
    (sent : s'.sent = s.sent) (receipts : s'.receipts = s.receipts) : Ordered s' where
  some := sent ▸ ordered.some
  queue open' := by
    obtain ⟨before, same⟩ := state open'
    rw [same, sent, receipts]
    exact ordered.queue before
  bound := by rw [sent, receipts]; exact ordered.bound
  order := by rw [sent, receipts]; exact ordered.order

theorem taken_append (before : List (Receipt β)) (r : Receipt β) :
    taken (before ++ [r]) = taken before + if r.peek then 0 else 1 := by
  unfold taken
  rw [filter_append, length_append, filter_singleton]
  cases r.peek <;> rfl

theorem InOrder.more (order : InOrder sent receipts) (d : List β) : InOrder (sent ++ [d]) receipts := by
  intro before r after split
  obtain ⟨datagram, found, rest⟩ := order before r after split
  refine ⟨datagram, ?_, rest⟩
  rw [List.getElem?_append_left (List.getElem?_eq_some_iff.mp found).1]
  exact found

theorem InOrder.next (order : InOrder sent receipts) {r : Receipt β} {datagram : List β}
    (found : sent[taken receipts]? = some datagram) (bytes : r.bytes = datagram.take r.asked)
    (value : r.value = r.bytes.length) : InOrder sent (receipts ++ [r]) := by
  intro before r' after split
  rcases append_eq_append_iff.mp split with ⟨rest, same, tail⟩ | ⟨rest, same, tail⟩
  · cases rest with
    | nil =>
      rw [append_nil] at same
      obtain ⟨rfl, -⟩ := cons.inj tail
      exact ⟨datagram, same ▸ found, bytes, value⟩
    | cons x rest =>
      have := (cons.inj tail).2
      simp at this
  · cases rest with
    | nil =>
      rw [append_nil] at same
      obtain ⟨rfl, -⟩ := cons.inj tail
      exact ⟨datagram, same ▸ found, bytes, value⟩
    | cons x rest =>
      obtain ⟨rfl, -⟩ := cons.inj tail
      exact order before r' rest same

variable {d : List β} {b : Buffer β} {q : List (Buffer β)} {rest : List (List β)} {asked : Nat} (ordered : Ordered s)
include ordered

theorem Ordered.put (nonempty : d ≠ []) (state : s'.m_state = s.m_state)
    (queue : s'.m_readBuffer = s.m_readBuffer ++ [⟨d, 0⟩]) (sent : s'.sent = s.sent ++ [d])
    (receipts : s'.receipts = s.receipts) : Ordered s' where
  some e mem := by
    rw [sent] at mem
    rcases mem_append.mp mem with old | new
    · exact ordered.some e old
    · exact mem_singleton.mp new ▸ nonempty
  queue open' := by
    rw [queue, sent, receipts, ordered.queue (state ▸ open'), drop_append_of_le_length ordered.bound]
    unfold fresh
    rw [map_append]
    rfl
  bound := by
    rw [sent, receipts, length_append]
    exact le_trans ordered.bound (Nat.le_add_right _ _)
  order := by
    rw [sent, receipts]
    exact ordered.order.more d

theorem Ordered.head (binded : s.m_state = .BINDED) (queue : s.m_readBuffer = b :: q) :
    ∃ d rest, s.sent.drop (taken s.receipts) = d :: rest ∧ b = ⟨d, 0⟩ ∧ q = fresh rest ∧ d ≠ [] := by
  have whole := ordered.queue (.inr binded)
  rw [queue] at whole
  cases left : s.sent.drop (taken s.receipts) with
  | nil =>
    rw [left] at whole
    cases whole
  | cons d rest =>
    rw [left] at whole
    obtain ⟨rfl, rfl⟩ := cons.inj whole
    refine ⟨d, rest, rfl, rfl, rfl, ordered.some d ?_⟩
    exact mem_of_mem_drop (left ▸ mem_cons_self)

theorem Ordered.unread (binded : s.m_state = .BINDED) (queue : s.m_readBuffer = b :: q) : b.unread ≠ [] := by
  obtain ⟨d, rest, -, rfl, -, nonempty⟩ := ordered.head binded queue
  exact nonempty

omit ordered in
theorem found_of_drop {k : Nat} (left : sent.drop k = d :: rest) :
    sent[k]? = Option.some d ∧ k + 1 ≤ sent.length ∧ sent.drop (k + 1) = rest := by
  have found : sent[k]? = some d := by
    have first := congrArg (fun l => l[0]?) left
    simpa using first
  refine ⟨found, (List.getElem?_eq_some_iff.mp found).1, ?_⟩
  rw [← drop_drop, left]
  rfl

variable (left : s.sent.drop (taken s.receipts) = d :: rest)
include left

theorem Ordered.take (room : d.length ≤ asked) (queue : s'.m_readBuffer = fresh rest)
    (sent : s'.sent = s.sent) (receipts : s'.receipts = s.receipts ++ [⟨false, asked, d.length, d⟩]) :
    Ordered s' := by
  obtain ⟨found, bound, rest'⟩ := found_of_drop left
  refine ⟨sent ▸ ordered.some, fun _ => ?_, ?_, ?_⟩
  · rw [queue, sent, receipts, taken_append]
    exact congrArg fresh rest'.symm
  · rw [sent, receipts, taken_append]
    exact bound
  · rw [sent, receipts]
    exact ordered.order.next found (take_of_length_le room).symm rfl

theorem Ordered.peek (state : s'.m_state = s.m_state)
    (queue : s'.m_readBuffer = s.m_readBuffer) (sent : s'.sent = s.sent) {bytes : List β}
    (given : bytes = d.take asked)
    (receipts : s'.receipts = s.receipts ++ [⟨true, asked, bytes.length, bytes⟩]) : Ordered s' := by
  obtain ⟨found, -, -⟩ := found_of_drop left
  refine ⟨sent ▸ ordered.some, fun open' => ?_, ?_, ?_⟩
  · rw [queue, sent, receipts, taken_append]
    exact ordered.queue (state ▸ open')
  · rw [sent, receipts, taken_append]
    exact ordered.bound
  · rw [sent, receipts]
    exact ordered.order.next found given rfl

end

variable {T β : Type*} [DecidableEq T] {w v : W T β} {t u : T} {a b l : Nat}

/-- What is known of the present or last call of `t`. -/
structure Called (t : T) (w : W T β) : Prop where
  sent : ∀ message value put, w.place t = .own (some (.sent message value put)) → PutWhole message value put
  sends : ∀ a l iovs retval last message full, w.place t = .inside (.send a l iovs retval last message full) →
    w.shared.put t = [] ∧ retval = 0 ∧ message = iovs.flatten
  receives : ∀ frame, w.place t = .inside frame → w.shared.got t = none
  asks : ∀ a len last peek asked lens, w.place t = .inside (.recvmsg a len last peek asked lens) →
    asked = (len :: lens).sum

/-- What holds between the steps. -/
structure Orderly (w : W T β) : Prop where
  queues : ∀ a, Ordered (socket a w)
  calls : ∀ t, Called t w

/-- The other threads have their own account of what they have moved. -/
structure Apart (t : T) (w v : W T β) : Prop where
  put : ∀ u, u ≠ t → v.shared.put u = w.shared.put u
  got : ∀ u, u ≠ t → v.shared.got u = w.shared.got u

section

theorem Called.of_ret {r : Result β} (r_sent : ∀ message value put, r = .sent message value put →
      PutWhole message value put) :
    Called t (w.ret t r) where
  sent message value put here := by
    rw [World.ret_place, update_self] at here
    exact r_sent message value put (some.inj (Place.own.inj here))
  sends a l iovs retval last message full inside := by
    rw [World.ret_place, update_self] at inside
    cases inside
  receives frame inside := by
    rw [World.ret_place, update_self] at inside
    cases inside
  asks a len last peek asked lens inside := by
    rw [World.ret_place, update_self] at inside
    cases inside

theorem called_done (value : Int) : Called t (w.ret t (.done value)) := .of_ret nofun

theorem called_received (value : Int) (truncated : Bool) : Called t (w.ret t (.received value truncated)) :=
  .of_ret nofun

variable {message : List β}

theorem called_sendReturn {value : Int} (whole : PutWhole message value (w.shared.put t)) :
    Called t (sendReturn t message value w) := by
  refine .of_ret fun message' value' put same => ?_
  cases same
  exact whole

theorem called_sendFails {err : Errno} (none : w.shared.put t = []) :
    Called t (sendFails t message err w) := called_sendReturn (.inl none)

section

omit [DecidableEq T]

theorem Called.other (called : Called u w) (moves : World.Spares t w v) (apart : Apart t w v)
    (other : u ≠ t) : Called u v := by
  have place := moves.place u other
  have put := apart.put u other
  have got := apart.got u other
  refine ⟨fun m x p here => ?_, fun a l iovs retval last message full here => ?_, fun frame here => ?_,
    fun a len last peek asked lens here => ?_⟩
  · exact called.sent m x p (place ▸ here)
  · rw [put]
    exact called.sends a l iovs retval last message full (place ▸ here)
  · rw [got]
    exact called.receives frame (place ▸ here)
  · exact called.asks a len last peek asked lens (place ▸ here)

theorem Apart.refl (w : W T β) : Apart t w w := ⟨fun _ _ => rfl, fun _ _ => rfl⟩

theorem Apart.trans {x : W T β} (first : Apart t w v) (second : Apart t v x) : Apart t w x where
  put u other := (second.put u other).trans (first.put u other)
  got u other := (second.got u other).trans (first.got u other)

theorem Apart.of_eq (put : v.shared.put = w.shared.put) (got : v.shared.got = w.shared.got) : Apart t w v :=
  ⟨fun u _ => congrFun put u, fun u _ => congrFun got u⟩

end

theorem apart_wakeWaiters {event : LocalStream.PollEvent} : Apart t w (wakeWaiters event a w) := by
  refine .of_eq ?_ ?_
  all_goals rw [wakeWaiters_shared]

theorem through_apart : Through t (fun _ => True) (Apart (β := β) t) where
  refl := .refl
  trans _ _ _ := .trans
  errs _ _ := .of_eq rfl rfl
  returns _ _ := .of_eq rfl rfl
  wakes _ _ _ := apart_wakeWaiters
  forgets _ _ := .of_eq rfl rfl
  sleeps _ _ _ last _ := by cases last <;> exact .of_eq rfl rfl
  receives l buf w := by
    unfold doRecvPacket
    dsimp only
    split
    · exact .refl w
    · split
      · exact .refl w
      · refine Apart.trans ⟨fun u other => ?_, fun u _ => ?_⟩ apart_wakeWaiters
        · exact update_of_ne other _ _
        · rfl
  takes a count peek w _ := by
    unfold takeData
    split
    · exact ⟨fun _ _ => rfl, fun u other => update_of_ne other _ _⟩
    · exact ⟨fun _ _ => rfl, fun u other => update_of_ne other _ _⟩
  serves _ _ _ := .of_eq rfl rfl

theorem clearing_apart : Clearing a (Apart (β := β) t) where
  refl := .refl
  trans _ _ _ := .trans
  wakes _ _ := apart_wakeWaiters
  binds _ _ := .of_eq rfl rfl
  sets _ _ _ _ := .of_eq rfl rfl

end

section

variable {s : SocketFd T β} (queues : ∀ b, Ordered (socket b w))
include queues

section

omit [DecidableEq T]

theorem ordered_setSocket (here : Ordered s) (b : Nat) : Ordered (socket b (setSocket a s w)) := by
  rw [socket_setSocket]
  split
  · exact here
  · exact queues b

theorem ordered_set (state : s.m_state = (socket a w).m_state)
    (queue : s.m_readBuffer = (socket a w).m_readBuffer) (sent : s.sent = (socket a w).sent)
    (receipts : s.receipts = (socket a w).receipts) (b : Nat) : Ordered (socket b (setSocket a s w)) :=
  ordered_setSocket queues ((queues a).congr (fun open' => ⟨state ▸ open', queue⟩) sent receipts) b

end

theorem ordered_removeWaitQueue (b : Nat) : Ordered (socket b (removeWaitQueue t a w)) := by
  refine ordered_set queues ?_ ?_ ?_ ?_ b
  all_goals rfl

theorem ordered_sleepOn {mask : List LocalStream.PollEvent} {frame : Frame β} {last : Option Nat}
    (b : Nat) : Ordered (socket b (sleepOn t a mask frame last w)) := by
  rw [socket_sleepOn]
  refine ordered_set queues ?_ ?_ ?_ ?_ b
  all_goals rfl

end

section

variable {iovs : List (List β)} {last : Option Nat} {message buf : List β} {retval : Int} {dontwait : Bool}
  {wq : Option (Option Nat)}

theorem called_sendWait (none : w.shared.put t = []) (got : w.shared.got t = Option.none)
    (whole : message = iovs.flatten) :
    Called t (sendWait t a l message iovs 0 last w) := by
  unfold sendWait
  split
  · exact called_sendFails none
  · have shared : ∀ mask (frame : Frame β), (sleepOn t a mask frame last w).shared.put = w.shared.put ∧
        (sleepOn t a mask frame last w).shared.got = w.shared.got := fun _ _ => by cases last <;> exact ⟨rfl, rfl⟩
    refine ⟨fun m x p here => ?_, fun a l iovs retval last message full here => ?_, fun frame here => ?_,
      fun a len last peek asked lens here => ?_⟩
    · rw [sleepOn_place, update_self] at here
      cases here
    · rw [sleepOn_place, update_self] at here
      cases here
      exact ⟨(congrFun (shared _ _).1 t).trans none, rfl, whole⟩
    · exact (congrFun (shared _ _).2 t).trans got
    · rw [sleepOn_place, update_self] at here
      cases here

theorem ordered_sendWait
    (queues : ∀ b, Ordered (socket b w)) (b : Nat) :
    Ordered (socket b (sendWait t a l message iovs retval last w)) := by
  unfold sendWait
  split
  · exact queues b
  · exact ordered_sleepOn queues b

/-- What `DoRecvPacket` does with a packet that `Fits` lets through. -/
inductive Received (t : T) (l : Nat) (buf : List β) (w : W T β) : W T β × Int → Prop
  | refused : Received t l buf w (w, -2)
  | full : Received t l buf w (w, 0)
  | put (v : W T β) : (socket l w).m_shutRead = false → (socket l w).m_state.IsClosed = false →
      (socket l w).m_readBufferSize < maxBuffer → buf ≠ [] → (∀ b, Ordered (socket b w) → Ordered (socket b v)) →
      (∀ b, (socket b v).m_state = (socket b w).m_state) →
      v.shared.put t = w.shared.put t ++ [buf] → v.shared.got = w.shared.got →
      Received t l buf w (v, (buf.length : Int))

theorem received_doRecvPacket (fits : Fits w l [buf]) : Received t l buf w (doRecvPacket t l buf w) := by
  unfold doRecvPacket
  dsimp only
  split
  · exact .refused
  next takes =>
    obtain ⟨shut, closed⟩ := not_or.mp takes
    split
    · exact .full
    next room =>
      obtain none | ⟨message, same, nonempty, bound⟩ :=
        fits (Bool.eq_false_iff.mpr shut) (Bool.eq_false_iff.mpr closed) (Nat.lt_of_not_le room)
      · cases none
      cases same
      have all : min (maxBuffer - (socket l w).m_readBufferSize) buf.length = buf.length := by omega
      rw [all, take_length]
      refine .put _ (Bool.eq_false_iff.mpr shut) (Bool.eq_false_iff.mpr closed) (Nat.lt_of_not_le room) nonempty
        (fun b ordered => ?_) (fun b => ?_) ?_ ?_
      · rw [socket_wakeWaiters, socket_addPut, socket_setSocket]
        split
        next same =>
          subst same
          exact ordered.put nonempty rfl rfl rfl rfl
        · exact ordered
      · rw [socket_wakeWaiters, socket_addPut, socket_setSocket]
        split
        next same => rw [same]
        · rfl
      · rw [wakeWaiters_shared]
        exact update_self ..
      · rw [wakeWaiters_shared]
        rfl

theorem sendLoop_closed (closed : (socket a w).m_state.IsClosed = true) (iovs : List (List β)) :
    sendLoop t a l dontwait message iovs retval wq w = sendReturn t message retval w := by
  induction iovs with
  | nil => rfl
  | cons buf iovs ih =>
    unfold sendLoop
    rw [if_pos closed]
    exact ih

theorem orderly_sendLoop (fits : (socket a w).m_state.IsClosed = false → Fits w l iovs)
    (queues : ∀ b, Ordered (socket b w))
    (none : w.shared.put t = []) (got : w.shared.got t = Option.none) (whole : message = iovs.flatten) :
    (∀ b, Ordered (socket b (sendLoop t a l dontwait message iovs 0 wq w))) ∧
      Called t (sendLoop t a l dontwait message iovs 0 wq w) := by
  cases iovs with
  | nil => exact ⟨queues, called_sendReturn (.inl none)⟩
  | cons buf iovs =>
    by_cases closed : (socket a w).m_state.IsClosed = true
    · rw [sendLoop_closed closed]
      exact ⟨queues, called_sendReturn (.inl none)⟩
    · have fits := fits (Bool.eq_false_iff.mpr closed)
      have one : Fits w l [buf] := fun shut open' room => by
        obtain none | ⟨m, same, rest⟩ := fits shut open' room
        · cases none
        · exact .inr ⟨m, by rw [(cons.inj same).1], rest⟩
      unfold sendLoop
      rw [if_neg closed]
      have received := received_doRecvPacket (t := t) one
      generalize doRecvPacket t l buf w = p at received
      cases received with
      | refused => exact ⟨queues, called_sendFails none⟩
      | full =>
        split
        · exact ⟨queues, called_sendFails none⟩
        · exact ⟨ordered_sendWait queues, called_sendWait none got whole⟩
      | put v shut open' room nonempty ordered state put got =>
        obtain none | ⟨m, same, rest⟩ := fits shut open' room
        · cases none
        obtain ⟨rfl, rfl⟩ := cons.inj same
        have positive : 0 < buf.length := length_pos_iff.mpr nonempty
        rw [if_neg (by dsimp only; omega), if_pos (by dsimp only; omega)]
        refine ⟨fun b => ordered b (queues b), called_sendReturn (.inr ⟨?_, ?_⟩)⟩
        · rw [put, none, whole]
          simp
        · rw [whole]
          simp

theorem orderly_sendOn {interrupted : Bool}
    (fits : LocalStream.waitResult interrupted last w.now = .OK → (socket a w).m_state.IsClosed = false →
      Fits w l iovs)
    (queues : ∀ b, Ordered (socket b w)) (none : w.shared.put t = []) (got : w.shared.got t = Option.none)
    (whole : message = iovs.flatten) :
    (∀ b, Ordered (socket b (sendOn t a l iovs 0 last message interrupted w))) ∧
      Called t (sendOn t a l iovs 0 last message interrupted w) := by
  have removed := ordered_removeWaitQueue (t := t) (a := a) queues
  have same : ∀ b, ∃ queue, socket b (removeWaitQueue t a w) = { socket b w with waitQueue := queue } := fun b => by
    unfold removeWaitQueue
    rw [socket_setSocket]
    split
    next same => exact ⟨_, by rw [same]⟩
    · exact ⟨_, rfl⟩
  unfold sendOn
  dsimp only
  split
  case h_1 ok =>
    split
    · exact ⟨removed, called_sendFails none⟩
    · refine orderly_sendLoop (fun open' => ?_) removed none got whole
      obtain ⟨queueA, sameA⟩ := same a
      obtain ⟨queueL, sameL⟩ := same l
      rw [sameA] at open'
      unfold Fits
      rw [sameL]
      exact fits ok open'
  · exact ⟨removed, called_sendFails none⟩
  · exact ⟨removed, called_sendFails none⟩

theorem orderly_sendTo {listener : Option Nat}
    (fits : ∀ l, listener = some l → Fits w l iovs) (queues : ∀ b, Ordered (socket b w))
    (none : w.shared.put t = []) (got : w.shared.got t = Option.none) :
    (∀ b, Ordered (socket b (sendTo t a iovs dontwait listener w))) ∧
    Called t (sendTo t a iovs dontwait listener w) := by
  cases listener with
  | none => exact ⟨queues, called_sendFails none⟩
  | some l => exact orderly_sendLoop (fun _ => fits l rfl) queues none got rfl

theorem orderly_sendmsg {name : Option Binder.Path}
    (fits : ∀ l, listener w a name = some l → Fits w l iovs) (queues : ∀ b, Ordered (socket b w))
    (none : w.shared.put t = []) (got : w.shared.got t = Option.none) :
    (∀ b, Ordered (socket b (sendmsg t a name iovs dontwait w))) ∧ Called t (sendmsg t a name iovs dontwait w) := by
  have fails : ∀ err, (∀ b, Ordered (socket b (sendFails t iovs.flatten err w))) ∧
      Called t (sendFails t iovs.flatten err w) :=
    fun _ => ⟨queues, called_sendFails none⟩
  unfold listener at fits
  unfold sendmsg
  split
  case h_1 state =>
    rw [state] at fits
    exact orderly_sendTo fits queues none got
  case h_2 state =>
    rw [state] at fits
    split
    · exact fails _
    · exact orderly_sendTo fits queues none got
  · exact fails _
  · exact fails _

theorem orderly_write (fits : ∀ l, listener w a none = some l → Fits w l [buf])
    (queues : ∀ b, Ordered (socket b w)) (none : w.shared.put t = []) :
    (∀ b, Ordered (socket b (write t a buf w))) ∧ Called t (write t a buf w) := by
  have fails : ∀ err, (∀ b, Ordered (socket b (sendFails t buf err w))) ∧ Called t (sendFails t buf err w) :=
    fun _ => ⟨queues, called_sendFails none⟩
  unfold write
  dsimp only
  split
  · exact fails _
  next connected =>
    split
    · exact fails _
    case h_2 peer found =>
      split
      · exact fails _
      · have listens : listener w a Option.none = some peer := by
          unfold listener
          rw [not_not.mp connected]
          exact found
        have received := received_doRecvPacket (t := t) (fits peer listens)
        generalize doRecvPacket t peer buf w = p at received
        cases received with
        | refused => exact fails _
        | full => exact ⟨queues, called_sendReturn (.inl none)⟩
        | put v shut open' room nonempty ordered state put got =>
          refine ⟨fun b => ordered b (queues b), called_sendReturn (.inr ⟨?_, rfl⟩)⟩
          rw [put, none]
          rfl

end

section

variable {b : Buffer β} {q : List (Buffer β)}

omit [DecidableEq T] in
theorem readData_zero : readData q 0 = (q, []) := by
  cases q with
  | nil => rfl
  | cons b q =>
    unfold readData
    rw [Nat.zero_min, if_neg (lt_irrefl 0)]

variable {n len retval asked : Nat} {g : List β} {lens : List Nat} {dontwait noWait : Bool}
    {wq : Option (Option Nat)}

theorem readData_part (positive : 0 < n) (part : n < b.unread.length) :
    readData (b :: q) n = (⟨b.data, b.readOffset + n⟩ :: q, b.unread.take n) := by
  rw [Buffer.unread_length] at part
  have avail : min n (b.data.length - b.readOffset) = n := by omega
  unfold readData
  rw [avail, if_pos positive, if_neg (by omega)]
  rfl

theorem readData_whole (nonempty : b.unread ≠ []) (all : n = b.unread.length ∨ (b.unread.length < n ∧ q = [])) :
    readData (b :: q) n = (q, b.unread) := by
  have positive : 0 < b.unread.length := length_pos_iff.mpr nonempty
  have avail : min n (b.data.length - b.readOffset) = b.unread.length := by
    rw [← Buffer.unread_length]
    omega
  have rest : readData q (n - b.unread.length) = (q, []) := by
    rcases all with same | ⟨-, none⟩
    · rw [same, Nat.sub_self, readData_zero]
    · rw [none]
      rfl
  rw [Buffer.unread_length] at positive
  unfold readData
  dsimp only
  rw [avail, rest, if_pos (by rw [Buffer.unread_length]; exact positive),
    if_pos (by rw [Buffer.unread_length]; omega),
    append_nil]
  exact congrArg (Prod.mk q) (take_of_length_le le_rfl)

theorem peekData_zero : peekData q 0 = [] := by
  cases q with
  | nil => rfl
  | cons b q => rfl

theorem peekData_first {d : List β} (one : d.length < n → q = []) : peekData (⟨d, 0⟩ :: q) n = d.take n := by
  by_cases zero : n = 0
  · rw [zero, peekData_zero, take_zero]
  · unfold peekData
    dsimp only
    rw [if_neg zero, Nat.sub_zero, drop_zero]
    by_cases more : d.length < n
    · rw [one more, Nat.min_eq_right (le_of_lt more), take_length, take_of_length_le (le_of_lt more)]
      exact append_nil d
    · rw [Nat.min_eq_left (Nat.le_of_not_lt more), Nat.sub_self, peekData_zero, append_nil]

/-- `ReadData`: the queue that is left and what was copied. -/
def took (peek : Bool) (q : List (Buffer β)) (n : Nat) : List (Buffer β) × List β :=
  if peek then (q, peekData q n) else readData q n

theorem took_zero (peek : Bool) : took peek q 0 = (q, []) := by
  cases peek with
  | true => rw [took, if_pos rfl, peekData_zero]
  | false => exact readData_zero

/-- `v` is `w` after a receive of `a` has copied `bytes` and left `q`. -/
structure Got (t : T) (a : Nat) (q : List (Buffer β)) (bytes : List β) (w v : W T β) : Prop where
  queue : (socket a v).m_readBuffer = q
  state : (socket a v).m_state = (socket a w).m_state
  sent : (socket a v).sent = (socket a w).sent
  receipts : (socket a v).receipts = (socket a w).receipts
  others : ∀ b, b ≠ a → socket b v = socket b w
  got : v.shared.got t = some ((w.shared.got t).getD [] ++ bytes)

section

omit [DecidableEq T]

theorem Got.trans {x : W T β} {q' : List (Buffer β)} {bytes more : List β} (first : Got t a q bytes w v)
    (second : Got t a q' more v x) : Got t a q' (bytes ++ more) w x where
  queue := second.queue
  state := second.state.trans first.state
  sent := second.sent.trans first.sent
  receipts := second.receipts.trans first.receipts
  others b other := (second.others b other).trans (first.others b other)
  got := by rw [second.got, first.got, getD_some, append_assoc]

theorem Got.nothing (got : w.shared.got t = some g) : Got t a (socket a w).m_readBuffer [] w w where
  queue := rfl
  state := rfl
  sent := rfl
  receipts := rfl
  others _ _ := rfl
  got := by rw [got, getD_some, append_nil]

end

theorem got_takeData (peek : Bool) :
    Got t a (took peek (socket a w).m_readBuffer n).1 (took peek (socket a w).m_readBuffer n).2 w
    (takeData t a n peek w).1 ∧
      (takeData t a n peek w).2 = (took peek (socket a w).m_readBuffer n).2 := by
  unfold takeData took
  cases peek with
  | true => exact ⟨⟨rfl, rfl, rfl, rfl, fun _ _ => rfl, update_self ..⟩, rfl⟩
  | false =>
    simp only [Bool.false_eq_true, if_false]
    refine ⟨⟨?_, ?_, ?_, ?_, fun b other => ?_, update_self ..⟩, trivial⟩
    all_goals rw [socket_addGot]
    · rw [socket_setSocket_self]
    · rw [socket_setSocket_self]
    · rw [socket_setSocket_self]
    · rw [socket_setSocket_self]
    · rw [socket_setSocket, if_neg other]

theorem got_read (noWait peek : Bool) (wq : Option (Option Nat)) (binded : (socket a w).m_state = .BINDED)
    (some : (socket a w).m_readBuffer ≠ []) :
    Got t a (took peek (socket a w).m_readBuffer n).1 (took peek (socket a w).m_readBuffer n).2 w
        (read t a n noWait peek wq w).1 ∧
      (read t a n noWait peek wq w).2 = .returned (took peek (socket a w).m_readBuffer n).2.length := by
  obtain ⟨got, data⟩ := got_takeData (t := t) (a := a) (w := w) (n := n) peek
  have positive : 0 < (socket a w).m_readBuffer.length := length_pos_iff.mpr some
  rw [← data]
  rw [← data] at got
  unfold read
  rw [if_neg (not_not.mpr binded), if_pos positive]
  split
  · refine ⟨?_, rfl⟩
    dsimp only
    split
    · refine ⟨?_, ?_, ?_, ?_, fun b other => ?_, ?_⟩
      all_goals first | rw [socket_wakeWaiters] | rw [wakeWaiters_shared]
      · exact got.queue
      · exact got.state
      · exact got.sent
      · exact got.receipts
      · exact got.others b other
      · exact got.got
    · exact got
  · exact ⟨got, rfl⟩

theorem effective_cons : effective (len :: lens) = if len = 0 then 0 else len + effective lens := by
  unfold effective
  rw [takeWhile_cons]
  split
  next some =>
    rw [if_neg (by simpa using some), sum_cons]
  next none =>
    rw [if_pos (by simpa using none)]
    rfl

/-- With some bytes copied, a `Recvmsg` that has nothing to take, or has asked for enough, is over. -/
theorem loop_over (dontwait peek : Bool) (asked : Nat)
    (binded : (socket a w).m_state = .BINDED) (positive : 0 < retval) (got : w.shared.got t = some g)
    (finished : effective lens = 0 ∨ (socket a w).m_readBuffer = []) :
    ∃ v, Got t a (socket a w).m_readBuffer [] w v ∧
      recvmsgLoop t a dontwait peek asked lens retval w = recvmsgEnd t a dontwait peek asked retval v := by
  cases lens with
  | nil => exact ⟨w, .nothing got, rfl⟩
  | cons len lens =>
    unfold recvmsgLoop
    by_cases none : (socket a w).m_readBuffer = []
    · have back : read t a len (decide (0 < retval ∨ dontwait)) peek Option.none w = (w, .returned 0) := by
        unfold read
        simp [binded, none, positive]
      rw [back]
      exact ⟨w, .nothing got, rfl⟩
    · have zero : len = 0 := by
        have sum := finished.resolve_right none
        rw [effective_cons] at sum
        by_contra some
        rw [if_neg some] at sum
        omega
      obtain ⟨same, returned⟩ :=
        got_read (t := t) (n := len) (decide (0 < retval ∨ dontwait)) peek Option.none binded none
      rw [zero, took_zero] at same returned
      refine ⟨_, zero ▸ same, ?_⟩
      unfold afterRecv
      rw [zero, returned]
      rfl

variable (binded : (socket a w).m_state = .BINDED) (queue : (socket a w).m_readBuffer = b :: q)
include binded queue

theorem loop_last (nonempty : b.unread ≠ []) (enough : b.unread.length ≤ len)
    (all : len + effective lens = b.unread.length ∨ (b.unread.length < len + effective lens ∧ q = [])) :
    ∃ v, Got t a q b.unread w v ∧ afterRecv t a len dontwait false asked retval lens
    (recvmsgLoop t a dontwait false asked lens)
        (read t a len noWait false wq w) = recvmsgEnd t a dontwait false asked (retval + b.unread.length) v := by
  have positive : 0 < b.unread.length := length_pos_iff.mpr nonempty
  have whole : len = b.unread.length ∨ (b.unread.length < len ∧ q = []) := by
    rcases all with sum | ⟨-, none⟩
    · exact .inl (by omega)
    · by_cases same : len = b.unread.length
      · exact .inl same
      · exact .inr ⟨by omega, none⟩
  obtain ⟨first, returned⟩ := got_read (t := t) (n := len) noWait false wq binded (queue ▸ cons_ne_nil b q)
  have data : took false (socket a w).m_readBuffer len = (q, b.unread) := by
    rw [queue]
    exact readData_whole nonempty whole
  rw [data] at first returned
  have finished : effective lens = 0 ∨ (socket a (read t a len noWait false wq w).1).m_readBuffer = [] := by
    rw [first.queue]
    rcases all with sum | ⟨-, none⟩
    · exact .inl (by omega)
    · exact .inr none
  obtain ⟨v, last, ended⟩ := loop_over dontwait false asked (first.state.trans binded)
    (Nat.add_pos_right retval positive) first.got finished
  refine ⟨v, ?_, ?_⟩
  · have both := first.trans last
    rwa [first.queue, append_nil] at both
  · unfold afterRecv
    rw [returned]
    dsimp only
    rw [if_neg (by omega)]
    exact ended

theorem loop_takes (nonempty : b.unread ≠ [])
    (all : effective (len :: lens) = b.unread.length ∨ (b.unread.length < effective (len :: lens) ∧ q = [])) :
    ∃ v, Got t a q b.unread w v ∧ afterRecv t a len dontwait false asked retval lens
    (recvmsgLoop t a dontwait false asked lens)
        (read t a len noWait false wq w) = recvmsgEnd t a dontwait false asked (retval + b.unread.length) v := by
  have positive : 0 < b.unread.length := length_pos_iff.mpr nonempty
  have more : len ≠ 0 := fun zero => by
    rw [effective_cons, if_pos zero] at all
    omega
  rw [effective_cons, if_neg more] at all
  induction lens generalizing len retval b w noWait wq with
  | nil => exact loop_last binded queue nonempty (by have : effective [] = 0 := rfl; omega) all
  | cons len' lens ih =>
    by_cases enough : b.unread.length ≤ len
    · exact loop_last binded queue nonempty enough all
    · -- the loop goes on with the rest of the buffer
      have part : len < b.unread.length := Nat.lt_of_not_le enough
      obtain ⟨first, returned⟩ := got_read (t := t) (n := len) noWait false wq binded (queue ▸ cons_ne_nil b q)
      have data : took false (socket a w).m_readBuffer len = (⟨b.data, b.readOffset + len⟩ :: q,
        b.unread.take len) := by
        rw [queue]
        exact readData_part (by omega) part
      rw [data] at first returned
      have rest : (⟨b.data, b.readOffset + len⟩ : Buffer β).unread = b.unread.drop len := drop_drop.symm
      have length : (b.unread.drop len).length = b.unread.length - len := length_drop
      have some : len' ≠ 0 := fun zero => by
        rw [effective_cons, if_pos zero] at all
        omega
      rw [effective_cons, if_neg some] at all
      obtain ⟨v, last, ended⟩ : ∃ v, Got t a q (b.unread.drop len) (read t a len noWait false wq w).1 v ∧
          recvmsgLoop t a dontwait false asked (len' :: lens) (retval + len) (read t a len noWait false wq w).1 =
            recvmsgEnd t a dontwait false asked (retval + len + (b.unread.drop len).length) v := by
        rw [← rest] at length ⊢
        have remains : 0 < (⟨b.data, b.readOffset + len⟩ : Buffer β).unread.length := by omega
        refine ih (first.state.trans binded) first.queue (length_pos_iff.mp remains) ?_ remains some
        rcases all with sum | ⟨bound, none⟩
        · exact .inl (by omega)
        · exact .inr ⟨by omega, none⟩
      refine ⟨v, ?_, ?_⟩
      · have both := first.trans last
        rwa [take_append_drop] at both
      · unfold afterRecv
        rw [returned, length_take, Nat.min_eq_left (le_of_lt part)]
        dsimp only
        rw [if_neg more, ended]
        congr 1
        omega

end

section

variable {b : Buffer β} {q : List (Buffer β)} {bytes : List β} {asked : Nat} {truncated peek : Bool}

section

variable (queues : ∀ b, Ordered (socket b w))
include queues

/-- What is handed over to a thread, and to a socket, by a receive of `a` that was given no bytes. -/
theorem orderly_unserved {value : Int} (none : w.shared.got t = none ∨ value < 0) :
    (∀ b, Ordered (socket b (recvReturn t a peek asked value truncated w))) ∧
      Called t (recvReturn t a peek asked value truncated w) := by
  have served : (((w.shared.got t).filter fun _ => 0 ≤ value).map (Receipt.mk peek asked value)).toList = [] := by
    rcases none with none | negative
    · rw [none]
      rfl
    · cases w.shared.got t with
      | none => rfl
      | some g => rw [filter_some, if_neg (by simpa using negative)]; rfl
  refine ⟨fun c => ?_, called_received _ _⟩
  unfold recvReturn
  dsimp only
  rw [served, append_nil]
  refine ordered_set queues ?_ ?_ ?_ ?_ c
  all_goals rfl

omit queues in
theorem orderly_failed {err : Errno} (queues : ∀ b, Ordered (socket b w)) :
    (∀ b, Ordered (socket b (recvReturn t a peek asked (-1) truncated (setErr t err w)))) ∧
      Called t (recvReturn t a peek asked (-1) truncated (setErr t err w)) :=
  orderly_unserved (w := setErr t err w) queues (.inr (by decide))

variable (none : w.shared.got t = Option.none)
include none

theorem orderly_served (got : Got t a q bytes w v)
    (next : ∀ s : SocketFd T β, s.m_state = (socket a w).m_state → s.m_readBuffer = q → s.sent = (socket a w).sent →
      s.receipts = (socket a w).receipts ++ [⟨peek, asked, bytes.length, bytes⟩] → Ordered s) :
    (∀ b, Ordered (socket b (recvReturn t a peek asked bytes.length truncated v))) ∧
      Called t (recvReturn t a peek asked bytes.length truncated v) := by
  have served : (((v.shared.got t).filter fun _ => 0 ≤ (bytes.length : Int)).map
      (Receipt.mk peek asked bytes.length)).toList = [⟨peek, asked, bytes.length, bytes⟩] := by
    rw [got.got, none, getD_none, filter_some]
    rfl
  refine ⟨fun c => ?_, called_received _ _⟩
  unfold recvReturn
  rw [served, socket_ret, socket_setSocket]
  split
  · exact next _ got.state got.queue got.sent (congrArg (· ++ _) got.receipts)
  next other => exact got.others c other ▸ queues c

variable (binded : (socket a w).m_state = .BINDED) (queue : (socket a w).m_readBuffer = b :: q)
include binded queue

theorem orderly_taken (got : Got t a q b.unread w v) (room : b.unread.length ≤ asked) :
    (∀ c, Ordered (socket c (recvReturn t a false asked b.unread.length truncated v))) ∧
      Called t (recvReturn t a false asked b.unread.length truncated v) := by
  obtain ⟨d, rest, left, rfl, rfl, -⟩ := (queues a).head binded queue
  refine orderly_served queues none got fun s _ queue sent receipts => ?_
  exact (queues a).take left room queue sent receipts

theorem orderly_peeked (got : Got t a (b :: q) bytes w v) (given : bytes = b.unread.take asked) :
    (∀ c, Ordered (socket c (recvReturn t a true asked bytes.length truncated v))) ∧
      Called t (recvReturn t a true asked bytes.length truncated v) := by
  obtain ⟨d, rest, left, rfl, -, -⟩ := (queues a).head binded queue
  refine orderly_served queues none got fun s state queue' sent receipts => ?_
  exact (queues a).peek left state (queue'.trans queue.symm) sent given receipts

end

variable {noWait dontwait : Bool} {wq : Option (Option Nat)} {got : W T β × Outcome} {len : Nat} {lens : List Nat}

theorem read_unserved {n : Nat} (nothing : (socket a w).m_state = .BINDED → (socket a w).m_readBuffer = []) :
    read t a n noWait peek wq w = (w, .returned 0) ∨ (∃ err, read t a n noWait peek wq w = (w, .failed err)) ∨
      ∃ last, read t a n noWait peek wq w = (w, .waits last) := by
  unfold read
  dsimp only
  split
  · exact .inr (.inl ⟨_, rfl⟩)
  next binded =>
    rw [nothing (not_not.mp binded), length_nil, if_neg (lt_irrefl 0)]
    split
    · exact .inl rfl
    · split
      · exact .inr (.inl ⟨_, rfl⟩)
      · split
        · exact .inr (.inl ⟨_, rfl⟩)
        · exact .inr (.inr ⟨_, rfl⟩)

theorem called_sleepOn {mask : List LocalStream.PollEvent} {frame : Frame β} {last : Option Nat}
    (none : w.shared.got t = Option.none)
    (sends : ∀ a l iovs retval last message full, frame ≠ .send a l iovs retval last message full)
    (asks : ∀ a len last peek asked lens, frame = .recvmsg a len last peek asked lens → asked = (len :: lens).sum) :
    Called t (sleepOn t a mask frame last w) := by
  have got : (sleepOn t a mask frame last w).shared.got t = Option.none := by cases last <;> exact none
  refine ⟨fun m x p here => ?_, fun a l iovs retval last message full here => ?_, fun _ _ => got,
    fun a len last peek asked lens here => ?_⟩
  · rw [sleepOn_place, update_self] at here
    cases here
  · rw [sleepOn_place, update_self] at here
    exact (sends _ _ _ _ _ _ _ (Place.inside.inj here)).elim
  · rw [sleepOn_place, update_self] at here
    exact asks a len last peek asked lens (Place.inside.inj here)

theorem orderly_read {n : Nat}
    (gives : got = read t a n noWait false wq w ∨ ∃ err, got = (w, .failed err)) (takes : TakesOne w a n)
    (queues : ∀ b, Ordered (socket b w)) (none : w.shared.got t = Option.none) :
    (∀ b, Ordered (socket b (afterRead t a n got))) ∧ Called t (afterRead t a n got) := by
  rcases gives with rfl | ⟨err, rfl⟩
  · by_cases nothing : (socket a w).m_state = .BINDED → (socket a w).m_readBuffer = []
    · rcases read_unserved (t := t) nothing with back | ⟨err, back⟩ | ⟨last, back⟩
      · rw [back]
        exact orderly_unserved queues (.inl none)
      · rw [back]
        exact orderly_failed queues
      · rw [back]
        exact ⟨ordered_sleepOn queues, called_sleepOn none nofun nofun⟩
    · obtain ⟨binded, some⟩ := Classical.not_imp.mp nothing
      obtain ⟨b, q, queue⟩ := exists_cons_of_ne_nil some
      have all := takes binded b q queue
      obtain ⟨same, returned⟩ := got_read (t := t) (n := n) noWait false wq binded some
      have data : took false (socket a w).m_readBuffer n = (q, b.unread) := by
        rw [queue]
        exact readData_whole ((queues a).unread binded queue) all
      rw [data] at same returned
      unfold afterRead
      rw [returned]
      exact orderly_taken queues none binded queue same (by rcases all with all | all <;> omega)
  · exact orderly_failed queues

theorem effective_le (lens : List Nat) : effective lens ≤ lens.sum := by
  induction lens with
  | nil => exact le_refl 0
  | cons len lens ih =>
    rw [effective_cons, sum_cons]
    split <;> omega

section

variable (queues : ∀ b, Ordered (socket b w))
include queues

theorem orderly_ended :
    (∀ b, Ordered (socket b (recvmsgEnd t a dontwait peek asked 0 w))) ∧
    Called t (recvmsgEnd t a dontwait peek asked 0 w) := by
  unfold recvmsgEnd
  rw [if_neg (lt_irrefl 0)]
  split
  · exact orderly_failed queues
  · exact orderly_unserved queues (.inr (by decide))

omit queues in
omit [DecidableEq T] in
theorem Got.ordered (got : Got t a (socket a w).m_readBuffer bytes w v)
    (queues : ∀ b, Ordered (socket b w)) (c : Nat) :
    Ordered (socket c v) := by
  by_cases same : c = a
  · subst same
    exact (queues c).congr (fun open' => ⟨got.state ▸ open', got.queue⟩) got.sent got.receipts
  · exact got.others c same ▸ queues c

variable (none : w.shared.got t = Option.none) (binded : (socket a w).m_state = .BINDED)
    (queue : (socket a w).m_readBuffer = b :: q)
include none binded queue

theorem orderly_loop_takes (takes : TakesOne w a (effective (len :: lens))) (asks : asked = (len :: lens).sum) :
    (∀ b, Ordered (socket b (afterRecv t a len dontwait false asked 0 lens
      (recvmsgLoop t a dontwait false asked lens)
      (read t a len noWait false wq w)))) ∧
      Called t (afterRecv t a len dontwait false asked 0 lens (recvmsgLoop t a dontwait false asked lens)
        (read t a len noWait false wq w)) := by
  have all := takes binded b q queue
  have nonempty := (queues a).unread binded queue
  obtain ⟨v, got, ended⟩ : ∃ v, Got t a q b.unread w v ∧
      afterRecv t a len dontwait false asked 0 lens (recvmsgLoop t a dontwait false asked lens)
        (read t a len noWait false wq w) = recvmsgEnd t a dontwait false asked (0 + b.unread.length) v :=
    loop_takes binded queue nonempty all
  have room : b.unread.length ≤ asked := by
    have bound := effective_le (len :: lens)
    rcases all with all | all <;> omega
  rw [ended, Nat.zero_add]
  unfold recvmsgEnd
  rw [if_pos (length_pos_iff.mpr nonempty)]
  exact orderly_taken queues none binded queue got room

theorem orderly_loop_peeks (more : len ≠ 0) (finished : effective lens = 0)
    (first : len < b.unread.length → asked = len) (one : b.unread.length < len → q = []) (asks : len ≤ asked) :
    (∀ b, Ordered (socket b (afterRecv t a len dontwait true asked 0 lens (recvmsgLoop t a dontwait true asked lens)
        (read t a len noWait true wq w)))) ∧
      Called t (afterRecv t a len dontwait true asked 0 lens (recvmsgLoop t a dontwait true asked lens)
        (read t a len noWait true wq w)) := by
  obtain ⟨d, rest, left, rfl, -, nonempty⟩ := (queues a).head binded queue
  have unread : (⟨d, 0⟩ : Buffer β).unread = d := rfl
  obtain ⟨got, returned⟩ := got_read (t := t) (n := len) noWait true wq binded (queue ▸ cons_ne_nil _ q)
  have data : took true (socket a w).m_readBuffer len = (⟨d, 0⟩ :: q, d.take len) := by
    rw [queue]
    exact congrArg (Prod.mk _) (peekData_first one)
  have positive : 0 < (d.take len).length := by
    have := length_pos_iff.mpr nonempty
    rw [length_take]
    omega
  have given : d.take len = d.take asked := by
    by_cases part : len < d.length
    · rw [first part]
    · rw [take_of_length_le (by omega), take_of_length_le (by omega)]
  rw [data] at got returned
  obtain ⟨v, last, ended⟩ := loop_over dontwait true asked (got.state.trans binded) positive got.got (.inl finished)
  have both := got.trans last
  rw [got.queue, append_nil] at both
  unfold afterRecv
  rw [returned]
  dsimp only
  rw [if_neg (by omega), Nat.zero_add, ended]
  unfold recvmsgEnd
  rw [if_pos positive]
  exact orderly_peeked queues none binded queue both given

end

theorem orderly_recv (gives : got = read t a len noWait peek wq w ∨ ∃ err, got = (w, .failed err))
    (receives : ReceivesOne w a (len :: lens) peek) (queues : ∀ b, Ordered (socket b w))
    (none : w.shared.got t = Option.none) (asks : asked = (len :: lens).sum) :
    (∀ b, Ordered (socket b (afterRecv t a len dontwait peek asked 0 lens
      (recvmsgLoop t a dontwait peek asked lens) got))) ∧
      Called t (afterRecv t a len dontwait peek asked 0 lens (recvmsgLoop t a dontwait peek asked lens) got) := by
  rcases gives with rfl | ⟨err, rfl⟩
  · by_cases nothing : (socket a w).m_state = .BINDED → (socket a w).m_readBuffer = []
    · rcases read_unserved (t := t) nothing with back | ⟨err, back⟩ | ⟨last, back⟩
      · rw [back]
        exact orderly_ended queues
      · rw [back]
        exact orderly_ended (w := setErr t err w) queues
      · rw [back]
        refine ⟨ordered_sleepOn queues, called_sleepOn none nofun fun a' len' last' peek' asked' lens' same => ?_⟩
        cases same
        exact asks
    · obtain ⟨binded, some⟩ := Classical.not_imp.mp nothing
      obtain ⟨b, q, queue⟩ := exists_cons_of_ne_nil some
      by_cases zero : len = 0
      · -- an empty buffer ends the loop
        obtain ⟨same, returned⟩ := got_read (t := t) (n := len) noWait peek wq binded some
        rw [zero, took_zero] at same returned
        unfold afterRecv
        rw [zero, returned]
        exact orderly_ended (same.ordered queues)
      · have asksMore : effective (len :: lens) ≠ 0 := by
          rw [effective_cons, if_neg zero]
          omega
        have receives := receives.resolve_left asksMore
        cases peek with
        | false => exact orderly_loop_takes queues none binded queue receives asks
        | true =>
          obtain ⟨n, only, first, one⟩ := receives binded b q queue
          rw [takeWhile_cons, if_pos (by simpa using zero)] at only
          obtain ⟨rfl, rest⟩ := cons.inj only
          have finished : effective lens = 0 := by
            unfold effective
            rw [rest]
            rfl
          refine orderly_loop_peeks queues none binded queue zero finished (fun part =>
            asks.trans (first part)) one ?_
          rw [asks]
          exact Nat.le_add_right _ _
  · exact orderly_ended (w := setErr t err w) queues

end

section

/-- The end of `a` leaves what was sent and received, and the queues of the others. -/
structure Untouched (a : Nat) (w v : W T β) : Prop where
  sent : ∀ b, (socket b v).sent = (socket b w).sent
  receipts : ∀ b, (socket b v).receipts = (socket b w).receipts
  queue : ∀ b, b ≠ a → (socket b v).m_readBuffer = (socket b w).m_readBuffer

theorem clearing_untouched : Clearing a (Untouched (T := T) (β := β) a) where
  refl _ := ⟨fun _ => rfl, fun _ => rfl, fun _ _ => rfl⟩
  trans _ _ _ first second := ⟨fun b => (second.sent b).trans (first.sent b),
    fun b => (second.receipts b).trans (first.receipts b), fun b other =>
      (second.queue b other).trans (first.queue b other)⟩
  wakes b w := by
    refine ⟨fun c => ?_, fun c => ?_, fun c _ => ?_⟩
    all_goals rw [socket_wakeWaiters]
  binds _ _ := ⟨fun _ => rfl, fun _ => rfl, fun _ _ => rfl⟩
  sets b s w spared := by
    refine ⟨fun c => ?_, fun c => ?_, fun c other => ?_⟩
    all_goals
      rw [socket_setSocket]
      split
    · next same => rw [same, spared.sent]
    · rfl
    · next same => rw [same, spared.receipts]
    · rfl
    · next same => rw [same, (spared.queue (same ▸ other)).1]
    · rfl

theorem cleared_open {g : Nat → Link} {s : Nat}
    (open' : (cleared g a s).m_state = .CREATED ∨ (cleared g a s).m_state = .BINDED) :
    s ≠ a ∧ ((g s).m_state = .CREATED ∨ (g s).m_state = .BINDED) := by
  unfold cleared at open'
  split at open'
  · simp at open'
  next other =>
    refine ⟨other, ?_⟩
    split at open'
    · unfold removed at open'
      split at open'
      case h_1 state => exact .inr state
      case h_2 => simp at open'
      case h_3 => exact open'
    · exact open'

theorem ordered_clearAll {andWakeUp : Bool} (sound : Sound (links w))
    (queues : ∀ b, Ordered (socket b w)) (b : Nat) :
    Ordered (socket b (clearAll a andWakeUp w)) := by
  have same : Untouched a w (clearAll a andWakeUp w) := clearing_untouched.clearAll
  have state : links (clearAll a andWakeUp w) b = cleared (links w) a b := congrFun (links_clearAll sound) b
  refine (queues b).congr (fun open' => ?_) (same.sent b) (same.receipts b)
  obtain ⟨other, before⟩ := cleared_open (state ▸ open' : (cleared (links w) a b).m_state = .CREATED ∨ _)
  exact ⟨before, same.queue b other⟩

theorem orderly_set {s : SocketFd T β} (queues : ∀ b, Ordered (socket b w)) (value : Int)
    (state : s.m_state = .CREATED ∨ s.m_state = .BINDED → (socket a w).m_state = .CREATED ∨
      (socket a w).m_state = .BINDED)
    (queue : s.m_readBuffer = (socket a w).m_readBuffer) (sent : s.sent = (socket a w).sent)
    (receipts : s.receipts = (socket a w).receipts) :
    (∀ b, Ordered (socket b ((setSocket a s w).ret t (.done value)))) ∧
    Called t ((setSocket a s w).ret t (.done value)) :=
  ⟨ordered_setSocket queues ((queues a).congr (fun open' => ⟨state open', queue⟩) sent receipts), called_done value⟩

theorem orderly_enter (op : Op β) (sound : Sound (links w)) (queues : ∀ b, Ordered (socket b w))
    (whole : Whole w (.call t op : Act T (Op β) Bool)) :
    (∀ b, Ordered (socket b (enter t op w))) ∧ Called t (enter t op w) := by
  have none : (clearMoved t w).shared.put t = [] := update_self ..
  have got : (clearMoved t w).shared.got t = Option.none := update_self ..
  have fails : ∀ err, (∀ b, Ordered (socket b (fails t err (clearMoved t w)))) ∧
      Called t (fails t err (clearMoved t w)) :=
    fun _ => ⟨queues, called_done _⟩
  cases op with
  | bind =>
    unfold enter bind
    dsimp only
    split
    · exact fails _
    · split
      · exact ⟨queues, called_done _⟩
      next created =>
        split
        · refine ⟨ordered_setSocket queues ?_, called_done _⟩
          exact (queues _).congr (fun _ => ⟨.inl (not_not.mp created), rfl⟩) rfl rfl
        · exact fails _
  | connect a path =>
    unfold enter connect
    dsimp only
    split
    · exact fails _
    · exact fails _
    · split
      · split
        · exact fails _
        · refine ⟨?_, called_done _⟩
          refine ordered_set (ordered_setSocket queues ?_) ?_ ?_ ?_ ?_
          · refine (queues a).congr (fun open' => ?_) rfl rfl
            simp at open'
          all_goals rfl
      · exact fails _
  | write a buf => exact orderly_write (w := clearMoved t w) whole queues none
  | sendmsg a name iovs dontwait => exact orderly_sendmsg (w := clearMoved t w) whole queues none got
  | read a count => exact orderly_read (w := clearMoved t w) (.inl rfl) whole queues got
  | recvmsg a lens dontwait peek =>
    unfold enter recvmsg
    dsimp only
    split
    · exact orderly_failed queues
    · cases lens with
      | nil => exact orderly_ended (w := clearMoved t w) queues
      | cons len lens => exact orderly_recv (w := clearMoved t w) (.inl rfl) whole queues got rfl
  | shutdown a how =>
    unfold enter shutdown
    dsimp only
    split
    · exact fails _
    · split
      all_goals
        refine orderly_set (w := clearMoved t w) queues 0 ?_ ?_ ?_ ?_
        · exact id
        all_goals rfl
  | close a | release a =>
    exact ⟨ordered_clearAll (w := clearMoved t w) sound queues, called_done _⟩
  | unlink =>
    unfold enter unlink
    dsimp only
    split <;> exact ⟨queues, called_done _⟩
  | setfl | setTimeouts =>
    refine orderly_set (w := clearMoved t w) queues 0 ?_ ?_ ?_ ?_
    · exact id
    all_goals rfl

variable {interrupted : Bool}

theorem readOn_gives {n : Nat} {last : Option Nat} {peek : Bool} :
    readOn t a n last peek interrupted w = read t a n false peek (some last) (removeWaitQueue t a w) ∨
      ∃ err, readOn t a n last peek interrupted w = (removeWaitQueue t a w, .failed err) := by
  unfold readOn
  dsimp only
  split
  · exact .inl rfl
  · split
    · exact .inr ⟨_, rfl⟩
    · exact .inl rfl
  · split
    · exact .inr ⟨_, rfl⟩
    · exact .inl rfl

theorem orderly_resume {frame : Frame β} (inside : w.place t = .inside frame) (called : Called t w)
    (queues : ∀ b, Ordered (socket b w)) (whole : Whole w (.dispatch t interrupted : Act T (Op β) Bool)) :
    (∀ b, Ordered (socket b (resume t frame interrupted (w.give t)))) ∧
    Called t (resume t frame interrupted (w.give t)) := by
  have removed := fun a => ordered_removeWaitQueue (w := w.give t) (t := t) (a := a) queues
  have same : ∀ a, ∃ queue, socket a (removeWaitQueue t a (w.give t)) = { socket a w with waitQueue := queue } :=
    fun a => ⟨_, socket_setSocket_self _ _ _⟩
  have got := called.receives frame inside
  simp only [Whole, inside] at whole
  cases frame with
  | send a l iovs retval last message full =>
    obtain ⟨none, rfl, rest⟩ := called.sends a l iovs retval last message full inside
    exact orderly_sendOn (w := w.give t) whole queues none got rest
  | read a count last =>
    refine orderly_read readOn_gives ?_ (removed a) got
    obtain ⟨queue, same⟩ := same a
    unfold TakesOne
    rw [same]
    exact whole
  | recvmsg a len last peek asked lens =>
    refine orderly_recv readOn_gives ?_ (removed a) got (called.asks a len last peek asked lens inside)
    obtain ⟨queue, same⟩ := same a
    unfold ReceivesOne TakesOne
    rw [same]
    exact whole

theorem apart_enter (op : Op β) : Apart t w (enter t op w) := by
  have here : Apart t w (clearMoved t w) :=
    ⟨fun u other => update_of_ne other _ _, fun u other => update_of_ne other _ _⟩
  refine here.trans ?_
  cases op with
  | bind =>
    unfold enter bind
    dsimp only
    split
    · exact .of_eq rfl rfl
    · split
      · exact .of_eq rfl rfl
      · split <;> exact .of_eq rfl rfl
  | connect =>
    unfold enter connect
    dsimp only
    split
    · exact .of_eq rfl rfl
    · exact .of_eq rfl rfl
    · split
      · split <;> exact .of_eq rfl rfl
      · exact .of_eq rfl rfl
  | write => exact through_apart.write _
  | sendmsg => exact through_apart.sendmsg ..
  | read => exact through_apart.afterRead (through_apart.read (fun _ => trivial) (.refl _) ..) _
  | recvmsg => exact through_apart.recvmsg (fun _ => trivial) ..
  | shutdown =>
    unfold enter shutdown
    dsimp only
    split
    · exact .of_eq rfl rfl
    · split <;> exact .of_eq rfl rfl
  | close | release => exact clearing_apart.clearAll.trans (through_apart.returns _ _)
  | unlink =>
    unfold enter unlink
    dsimp only
    split <;> exact .of_eq rfl rfl
  | setfl | setTimeouts => exact .of_eq rfl rfl

theorem orderly_step {act : Act T (Op β) Bool} (sound : Sound (links w)) (orderly : Orderly w) (whole : Whole w act)
    (run : (machine T β).step w act = some v) : Orderly v := by
  rcases Program.step_cases run with ⟨t, op, -, rfl, -, -, rfl⟩ | ⟨t, interrupted, frame, rfl, -, -,
    inside, rfl⟩ | idle
  · obtain ⟨queues, called⟩ := orderly_enter op sound orderly.queues whole
    refine ⟨queues, fun u => ?_⟩
    by_cases same : u = t
    · exact same ▸ called
    · exact (orderly.calls u).other (moves_enter op).toSpares (apart_enter op) same
  · obtain ⟨queues, called⟩ := orderly_resume inside (orderly.calls t) orderly.queues whole
    refine ⟨queues, fun u => ?_⟩
    by_cases same : u = t
    · exact same ▸ called
    · have moves := (World.Spares.give w t).trans (moves_resume (w := w.give t) frame interrupted).toSpares
      have given : Apart t w (w.give t) := .of_eq rfl rfl
      have apart : Apart t w (resume t frame interrupted (w.give t)) :=
        given.trans (through_apart.resume (w := w.give t) frame interrupted fun _ _ => trivial)
      exact (orderly.calls u).other moves apart same
  · refine ⟨fun a => ?_, fun u => ⟨fun m x p here => ?_, fun a l iovs retval last message full here => ?_,
      fun frame here => ?_,
      fun a len last peek asked lens here => ?_⟩⟩
    · rw [socket, idle.shared]
      exact orderly.queues a
    all_goals rw [idle.place] at here
    · exact (orderly.calls u).sent m x p here
    · rw [idle.shared]
      exact (orderly.calls u).sends a l iovs retval last message full here
    · rw [idle.shared]
      exact (orderly.calls u).receives frame here
    · exact (orderly.calls u).asks a len last peek asked lens here

theorem orderly_of_start (first : (program T β).Start w) : Orderly w := by
  have new : Node.New w.shared := first.shared
  have own : ∀ t frame, w.place t ≠ .inside frame := fun t frame inside => by
    rw [first.own t] at inside
    cases inside
  refine ⟨fun a => ?_, fun t => ⟨fun m x p here => ?_, fun _ _ _ _ _ _ _ here => absurd here (own t _),
    fun frame here => absurd here (own t frame), fun _ _ _ _ _ _ here => absurd here (own t _)⟩⟩
  · rw [socket, new.sockets a]
    refine ⟨fun d mem => absurd mem not_mem_nil, fun _ => rfl, le_refl 0, fun before r after split => ?_⟩
    exact absurd split.symm (by simp [newSocket])
  · rw [first.own t] at here
    cases here

end

/-- In the runs along `C` the datagrams keep their boundaries. -/
def KeepsDelimited (T β : Type*) [DecidableEq T] (C : W T β → Act T (Op β) Bool → Prop) : Prop :=
  ∀ w, (machine T β).ReachBy C w → Delimited w

theorem keepsDelimited_of_whole (T β : Type*) [DecidableEq T] : KeepsDelimited T β Whole := by
  intro w reach
  have orderly : Orderly w := reach.invariant' (fun _ => orderly_of_start)
    fun w act v before orderly whole run => orderly_step (sound_of_reach before) orderly whole run
  exact ⟨fun t => (orderly.calls t).sent, fun a => (orderly.queues a).order⟩

/-- Socket 1 sends four bytes to socket 0, which reads two of them and then the other two. -/
def halves : List (Act Bool (Op Nat) Bool) :=
  [.dispatch false false, .call false (.bind 0 true ['p'] none), .call false (.connect 1 ['p']),
    .call false (.sendmsg 1 none [[1, 2, 3, 4]] false), .call false (.recvmsg 0 [2] false false),
    .call false (.recvmsg 0 [2] false false)]

theorem not_keepsDelimited : ¬ KeepsDelimited Bool Nat fun _ _ => True := by
  intro keeps
  obtain ⟨w, run⟩ : ∃ w, (machine Bool Nat).replay newNode halves = some w := isSome_iff_exists.mp (by decide)
  have reach : (machine Bool Nat).Reach w := (Machine.ReachBy.start newNode_start).replay (fun _ _ => trivial) run
  have seen : ((machine Bool Nat).replay newNode halves).map (fun w => ((socket 0 w).sent, (socket 0 w).receipts)) =
      some ([[1, 2, 3, 4]], [⟨false, 2, 2, [1, 2]⟩, ⟨false, 2, 2, [3, 4]⟩]) := by decide
  rw [run] at seen
  obtain ⟨sent, receipts⟩ := Prod.mk.inj (some.inj seen)
  obtain ⟨datagram, found, -⟩ := (keeps w reach).receives 0 [⟨false, 2, 2, [1, 2]⟩] ⟨false, 2, 2, [3, 4]⟩ [] receipts
  rw [sent] at found
  cases found

end Dce.Datagram
