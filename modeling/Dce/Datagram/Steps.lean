import Dce.Datagram.Model

namespace Dce.Datagram

open Coroutine
open LocalStream (PollEvent readerMask writerMask)

section

variable {T β : Type*} (w : W T β) (a b : Nat) (s : SocketFd T β)

theorem socket_setSocket : socket b (setSocket a s w) = if b = a then s else socket b w := Function.update_apply ..

@[simp] theorem socket_setSocket_self : socket a (setSocket a s w) = s := Function.update_self ..

variable (path : Binder.Path) (l : Option Nat)

end

variable {T β : Type*} [DecidableEq T] (w : W T β) (a b l : Nat) (t u : T)

@[simp] theorem socket_addPut (data : List β) : socket b (addPut t data w) = socket b w := rfl
@[simp] theorem socket_addGot (data : List β) : socket b (addGot t data w) = socket b w := rfl
@[simp] theorem socket_clearMoved : socket b (clearMoved t w) = socket b w := rfl
@[simp] theorem socket_ret (r : Result β) : socket b (w.ret t r) = socket b w := rfl

section

variable (event : PollEvent)

@[simp] theorem wakeWaiters_shared : (wakeWaiters event a w).shared = w.shared := w.wakeAll_shared _

@[simp] theorem socket_wakeWaiters : socket b (wakeWaiters event a w) = socket b w := by
  rw [socket, wakeWaiters_shared, socket]

end

variable {event : PollEvent} {path : Binder.Path}

theorem wakeWaiters_wakes {mask : List PollEvent}
    (listed : (⟨u, mask⟩ : LocalStream.WaitQueueEntry T) ∈ (socket a w).waitQueue) (event_mem : event ∈ mask) :
    (wakeWaiters event a w).status u ≠ .blocked := by
  intro asleep
  have absent := ((w.wakeAll_status_blocked u _).mp asleep).1
  exact absent (List.mem_map.mpr ⟨⟨u, mask⟩, List.mem_filter.mpr ⟨listed, by simpa using event_mem⟩, rfl⟩)

theorem socket_sleepOn (mask : List PollEvent) (frame : Frame β) (last : Option Nat) :
    socket b (sleepOn t a mask frame last w) = socket b (addWaitQueue t mask a w) := by
  cases last <;> rfl

@[simp] theorem sleepOn_place (mask : List PollEvent) (frame : Frame β) (last : Option Nat) :
    (sleepOn t a mask frame last w).place = Function.update w.place t (.inside frame) := by
  cases last <;> rfl

/-- A relation between two states that the parts of the sends and of the receives keep, where these take
bytes out of the queues in `P` only. -/
structure Through (t : T) (P : Nat → Prop) (R : W T β → W T β → Prop) : Prop where
  refl : ∀ w, R w w
  trans : ∀ w v x, R w v → R v x → R w x
  errs : ∀ err w, R w (setErr t err w)
  returns : ∀ r w, R w (w.ret t r)
  wakes : ∀ event a w, R w (wakeWaiters event a w)
  forgets : ∀ a w, R w (removeWaitQueue t a w)
  sleeps : ∀ a mask frame last w, R w (sleepOn t a mask frame last w)
  receives : ∀ l buf w, R w (doRecvPacket t l buf w).1
  takes : ∀ a count peek w, (peek = false → P a) → R w (takeData t a count peek w).1
  serves : ∀ a receipts w, R w (setSocket a { socket a w with receipts := receipts } w)

namespace Through

variable {w a b l t u}
variable {P : Nat → Prop} {R : W T β → W T β → Prop} (through : Through t P R) {v : W T β}
include through

theorem sendFails (on : R w v) (message : List β) (err : Errno) : R w (sendFails t message err v) :=
  through.trans _ _ _ (through.trans _ _ _ on (through.errs err v)) (through.returns _ _)

theorem sendReturn (on : R w v) (message : List β) (value : Int) : R w (sendReturn t message value v) :=
  through.trans _ _ _ on (through.returns _ v)

theorem write (buf : List β) : R w (write t a buf w) := by
  have received := fun l => through.receives l buf w
  unfold Datagram.write
  dsimp only
  split
  · exact through.sendFails (through.refl w) ..
  · split
    · exact through.sendFails (through.refl w) ..
    · split
      · exact through.sendFails (through.refl w) ..
      · split
        · exact through.sendFails (received _) ..
        · exact through.sendReturn (received _) ..

theorem sendWait (on : R w v) (message : List β) (iovs : List (List β)) (retval : Int) (last : Option Nat) :
    R w (sendWait t a l message iovs retval last v) := by
  unfold Datagram.sendWait
  split
  · exact through.sendFails on ..
  · exact through.trans _ _ _ on (through.sleeps ..)

theorem sendLoop (on : R w v) (dontwait : Bool) (message : List β) (iovs : List (List β)) (retval : Int)
    (wq : Option (Option Nat)) : R w (sendLoop t a l dontwait message iovs retval wq v) := by
  induction iovs generalizing retval v with
  | nil => exact through.sendReturn on ..
  | cons buf iovs ih =>
    have received : R w (doRecvPacket t l buf v).1 := through.trans _ _ _ on (through.receives l buf v)
    unfold Datagram.sendLoop
    dsimp only
    split
    · exact ih on _
    · split
      · split
        · exact through.sendFails received ..
        · exact through.sendWait received ..
      · split
        · exact ih received _
        · exact through.sendFails received ..

theorem sendOn (iovs : List (List β)) (retval : Int) (last : Option Nat) (message : List β) (interrupted : Bool) :
    R w (sendOn t a l iovs retval last message interrupted w) := by
  have removed := through.forgets a w
  unfold Datagram.sendOn
  dsimp only
  split
  · split
    · exact through.sendFails removed ..
    · exact through.sendLoop removed ..
  · exact through.sendFails removed ..
  · exact through.sendFails removed ..

theorem sendTo (iovs : List (List β)) (dontwait : Bool) (listener : Option Nat) :
    R w (sendTo t a iovs dontwait listener w) := by
  unfold Datagram.sendTo
  split
  · exact through.sendFails (through.refl w) ..
  · exact through.sendLoop (through.refl w) ..

theorem sendmsg (name : Option Binder.Path) (iovs : List (List β)) (dontwait : Bool) :
    R w (sendmsg t a name iovs dontwait w) := by
  unfold Datagram.sendmsg
  split
  · exact through.sendTo ..
  · split
    · exact through.sendFails (through.refl w) ..
    · exact through.sendTo ..
  · exact through.sendFails (through.refl w) ..
  · exact through.sendFails (through.refl w) ..

variable {peek : Bool} {got : W T β × Outcome}

theorem read (mine : peek = false → P a) (on : R w v) (count : Nat) (noWait : Bool) (wq : Option (Option Nat)) :
    R w (read t a count noWait peek wq v).1 := by
  have taken : R w (takeData t a count peek v).1 := through.trans _ _ _ on (through.takes a count peek v mine)
  unfold Datagram.read
  dsimp only
  split
  · exact on
  · split
    · split
      · split
        · exact through.trans _ _ _ taken (through.wakes ..)
        · exact taken
      · exact taken
    · split
      · exact on
      · split
        · exact on
        · split <;> exact on

theorem readOn (mine : peek = false → P a) (count : Nat) (last : Option Nat) (interrupted : Bool) :
    R w (readOn t a count last peek interrupted w).1 := by
  have removed := through.forgets a w
  unfold Datagram.readOn
  dsimp only
  split
  · exact through.read mine removed ..
  · split
    · exact removed
    · exact through.read mine removed ..
  · split
    · exact removed
    · exact through.read mine removed ..

theorem recvReturn (on : R w v) (peek : Bool) (asked : Nat) (value : Int) (truncated : Bool) :
    R w (recvReturn t a peek asked value truncated v) := by
  exact through.trans _ _ _ (through.trans _ _ _ on (through.serves a _ v)) (through.returns _ _)

theorem setErr (on : R w v) (err : Errno) : R w (setErr t err v) := through.trans _ _ _ on (through.errs err v)

theorem afterRead (on : R w got.1) (count : Nat) : R w (afterRead t a count got) := by
  unfold Datagram.afterRead
  split
  · exact through.recvReturn on ..
  · exact through.recvReturn (through.setErr on _) ..
  · exact through.trans _ _ _ on (through.sleeps ..)

theorem recvmsgEnd (on : R w v) (dontwait peek : Bool) (asked retval : Nat) :
    R w (recvmsgEnd t a dontwait peek asked retval v) := by
  unfold Datagram.recvmsgEnd
  split
  · exact through.recvReturn on ..
  · split
    · exact through.recvReturn (through.setErr on _) ..
    · exact through.recvReturn on ..

theorem afterRecv {next : Nat → W T β → W T β} (on : R w got.1)
    (len : Nat) (dontwait peek : Bool) (asked retval : Nat) (lens : List Nat)
    (goes : ∀ n, got.2 = .returned n → n ≠ 0 → R w (next (retval + n) got.1)) :
    R w (afterRecv t a len dontwait peek asked retval lens next got) := by
  unfold Datagram.afterRecv
  split
  case h_1 n returned =>
    split
    · exact through.recvmsgEnd on ..
    next more => exact goes n returned more
  · exact through.recvmsgEnd (through.setErr on _) ..
  · exact through.trans _ _ _ on (through.sleeps ..)

theorem recvmsgLoop (mine : peek = false → P a) (on : R w v) (dontwait : Bool) (asked : Nat) (lens : List Nat)
    (retval : Nat) :
    R w (recvmsgLoop t a dontwait peek asked lens retval v) := by
  induction lens generalizing retval v with
  | nil => exact through.recvmsgEnd on ..
  | cons len lens ih =>
    have got := through.read mine on len (0 < retval ∨ dontwait) none
    exact through.afterRecv got len dontwait peek asked retval lens fun n _ _ => ih got (retval + n)

theorem recvmsg (mine : peek = false → P a) (lens : List Nat) (dontwait : Bool) :
    R w (recvmsg t a lens dontwait peek w) := by
  unfold Datagram.recvmsg
  split
  · exact through.recvReturn (through.setErr (through.refl w) _) ..
  · exact through.recvmsgLoop mine (through.refl w) ..

end Through

/-- The socket out of whose queue a frame takes bytes. -/
def Frame.reads : Frame β → Option Nat
  | .send .. => none
  | .read a .. => some a
  | .recvmsg a _ _ peek _ _ => if peek then none else some a

variable {w a b l t u}

theorem Through.resume {P : Nat → Prop} {R : W T β → W T β → Prop} (through : Through t P R) (frame : Frame β)
    (interrupted : Bool) (mine : ∀ a, frame.reads = some a → P a) : R w (resume t frame interrupted w) := by
  cases frame with
  | send => exact through.sendOn ..
  | read a count last => exact through.afterRead (through.readOn (fun _ => mine a rfl) ..) _
  | recvmsg a len last peek asked lens =>
    have own : peek = false → P a := fun h => mine a (by simp [Frame.reads, h])
    have got : R w (Datagram.readOn t a len last peek interrupted w).1 := through.readOn own len last interrupted
    exact through.afterRecv got len false peek asked 0 lens fun n _ _ => through.recvmsgLoop own got ..

/-- What a step of `t` makes of the threads. -/
abbrev Moves (t : T) (w v : W T β) : Prop := World.Moves t w v

omit [DecidableEq T] in
theorem moves_shared (n : Node T β) : Moves t w { w with shared := n } := .of_eq rfl rfl rfl

theorem moves_wakeWaiters : Moves t w (wakeWaiters event a w) := .wakeAll w t _

theorem moves_ret {v : W T β} (moves : Moves t w v) (r : Result β) : Moves t w (v.ret t r) :=
  moves.trans (.ret v t r)

theorem through_moves : Through t (fun _ => True) (Moves (β := β) t) where
  refl := .refl t
  trans _ _ _ := .trans
  errs _ _ := moves_shared _
  returns r w := .ret w t r
  wakes _ _ _ := moves_wakeWaiters
  forgets _ _ := moves_shared _
  sleeps a mask frame last w := by
    cases last with
    | none => exact (moves_shared _).trans (.sleep (addWaitQueue t mask a w) t frame)
    | some e => exact (moves_shared _).trans (.sleepUntil (addWaitQueue t mask a w) t frame e)
  receives l buf w := by
    unfold doRecvPacket
    dsimp only
    split
    · exact .refl t w
    · split
      · exact .refl t w
      · exact (moves_shared _).trans moves_wakeWaiters
  takes a count peek w _ := by
    unfold takeData
    split
    · exact moves_shared _
    · exact moves_shared _
  serves _ _ _ := moves_shared _

/-- What `ClearAll` of `a` leaves of the socket `b`. -/
structure Spared (a b : Nat) (s s' : SocketFd T β) : Prop where
  waitQueue : s'.waitQueue = s.waitQueue
  sent : s'.sent = s.sent
  receipts : s'.receipts = s.receipts
  queue : b ≠ a → s'.m_readBuffer = s.m_readBuffer ∧ s'.m_readBufferSize = s.m_readBufferSize

/-- A relation that the parts of `ClearAll` of `a` keep. -/
structure Clearing (a : Nat) (R : W T β → W T β → Prop) : Prop where
  refl : ∀ w, R w w
  trans : ∀ w v x, R w v → R v x → R w x
  wakes : ∀ b w, R w (wakeWaiters .POLLHUP b w)
  binds : ∀ path w, R w (setBinder path none w)
  sets : ∀ b s w, Spared a b (socket b w) s → R w (setSocket b s w)

namespace Clearing

variable {R : W T β → W T β → Prop} (clearing : Clearing a R) {v : W T β} {andWakeUp : Bool}
include clearing

section

variable (on : R w v)
include on

theorem hangUp : R w (hangUp andWakeUp b v) := by
  unfold Datagram.hangUp
  split
  · exact clearing.trans _ _ _ on (clearing.wakes b v)
  · exact on

theorem removeConnected (freeOne p : Nat) : R w (removeConnected freeOne andWakeUp p v) := by
  unfold Datagram.removeConnected
  dsimp only
  split
  · exact clearing.hangUp (clearing.trans _ _ _ on (clearing.sets p _ v ⟨rfl, rfl, rfl, fun _ => ⟨rfl, rfl⟩⟩))
  · exact clearing.hangUp (clearing.trans _ _ _ on (clearing.sets p _ v ⟨rfl, rfl, rfl, fun _ => ⟨rfl, rfl⟩⟩))
  · exact on

theorem removeAll (freeOne : Nat) (peers : List Nat) :
    R w (peers.foldl (fun w i => Datagram.removeConnected freeOne andWakeUp i w) v) := by
  induction peers generalizing v with
  | nil => exact on
  | cons p peers ih => exact ih (clearing.removeConnected on freeOne p)

theorem set {s : SocketFd T β} (waitQueue : s.waitQueue = (socket a v).waitQueue)
    (sent : s.sent = (socket a v).sent) (receipts : s.receipts = (socket a v).receipts) : R w (setSocket a s v) :=
  clearing.trans _ _ _ on (clearing.sets a s v ⟨waitQueue, sent, receipts, fun other => absurd rfl other⟩)

theorem clearPeer : R w (clearPeer a andWakeUp v) := by
  unfold Datagram.clearPeer
  split
  · refine clearing.removeConnected (clearing.set on ?_ ?_ ?_) ..
    all_goals rfl
  · exact on

theorem clearMyPeers : R w (clearMyPeers a andWakeUp v) := by
  refine clearing.removeAll (clearing.set on ?_ ?_ ?_) ..
  all_goals rfl

theorem unregister : R w (unregister a v) := by
  unfold Datagram.unregister
  split
  · refine clearing.set (clearing.trans _ _ _ on (clearing.binds _ v)) ?_ ?_ ?_
    all_goals rfl
  · exact on

end

theorem clearAll : R w (clearAll a andWakeUp w) := by
  have closed : R w (setSocket a { socket a w with m_state := .CLOSED, closed := true } w) :=
    clearing.set (clearing.refl w) rfl rfl rfl
  refine clearing.hangUp
    (clearing.set (clearing.unregister (clearing.clearMyPeers (clearing.clearPeer closed))) ?_ ?_ ?_)
  all_goals rfl

end Clearing

theorem clearing_moves : Clearing a (Moves (β := β) t) where
  refl := .refl t
  trans _ _ _ := .trans
  wakes _ _ := moves_wakeWaiters
  binds _ _ := moves_shared _
  sets _ _ _ _ := moves_shared _

theorem moves_fails {v : W T β} (moves : Moves t w v) {err : Errno} : Moves t w (fails t err v) :=
  moves.trans ((moves_shared _).trans (.ret (setErr t err v) t _))

theorem moves_bind {unix : Bool} {host : Option Nat} : Moves t w (bind t a unix path host w) := by
  unfold bind
  dsimp only
  split
  · exact moves_fails (.refl t w)
  · split
    · exact .ret w t _
    · split
      · exact (moves_shared _).trans (.ret _ t _)
      · exact moves_fails (.refl t w)

theorem moves_connect : Moves t w (connect t a path w) := by
  unfold connect
  dsimp only
  split
  · exact moves_fails (.refl t w)
  · exact moves_fails (.refl t w)
  · split
    · split
      · exact moves_fails (.refl t w)
      · exact (moves_shared _).trans (.ret _ t _)
    · exact moves_fails (.refl t w)

theorem moves_shutdown {how : LocalStream.How} : Moves t w (shutdown t a how w) := by
  unfold shutdown
  dsimp only
  split
  · exact moves_fails (.refl t w)
  · split <;> exact (moves_shared _).trans (.ret _ t _)

theorem moves_enter (op : Op β) : Moves t w (enter t op w) := by
  refine (moves_shared _ : Moves t w (clearMoved t w)).trans ?_
  cases op with
  | bind => exact moves_bind
  | connect => exact moves_connect
  | write => exact through_moves.write _
  | sendmsg => exact through_moves.sendmsg ..
  | read => exact through_moves.afterRead (through_moves.read (fun _ => trivial) (.refl t _) ..) _
  | recvmsg => exact through_moves.recvmsg (fun _ => trivial) ..
  | shutdown => exact moves_shutdown
  | close | release => exact moves_ret clearing_moves.clearAll _
  | unlink path ok =>
    unfold enter unlink
    dsimp only
    split
    · exact moves_ret (moves_shared _) _
    · exact .ret _ t _
  | setfl | setTimeouts => exact moves_ret (moves_shared _) _

theorem moves_resume (frame : Frame β) (interrupted : Bool) : Moves t w (resume t frame interrupted w) :=
  through_moves.resume frame interrupted fun _ _ => trivial

end Dce.Datagram
