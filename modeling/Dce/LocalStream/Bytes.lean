import Dce.LocalStream.Steps

/- The bytes of a pair: what the calls of one side report of them and of the other. -/

namespace Dce.LocalStream

open Coroutine List

variable {T β : Type*}

/-- A call reports the bytes it copied, no more and no fewer, and a read of some bytes
reports the end of the stream only where nothing was left. -/
def Result.Sound : Result β → Prop
  | .done _ => True
  | .written message value moved => moved = message.take value.toNat
  | .read asked value moved left => moved.length = value.toNat ∧ (value = 0 → 0 < asked → left = 0)

/-- What a thread has to do with the pair at present. -/
inductive Doing
  | own | writing (e : Side) | reading (e : Side)
  deriving DecidableEq

def doing : Place (Frame β) (Result β) → Doing
  | .own _ => .own
  | .inside (.write e ..) => .writing e
  | .inside (.read e ..) => .reading e

/-- The bytes of `u`, in their order. -/
def movedBy [DecidableEq T] (u : T) (bytes : List (T × β)) : List β :=
  (bytes.filter fun b => b.1 = u).map Prod.snd

/-- What `u` has put into a queue is what its calls have reported as written, up to the call
that it is in; so for what it has taken out. -/
structure Accounts [DecidableEq T] (d : Doing) (s : W T β) (u : T) : Prop where
  written : ∀ e, movedBy u (socket e.other s).accepted =
    (socket e s).toldWritten u ++ if d = .writing e then s.shared.moved u else []
  read : ∀ e, movedBy u (socket e s).delivered = (socket e s).toldRead u ++ if d = .reading e
    then s.shared.moved u else []

/-- What a pair owes to the callers on both sides: the bytes come out of each queue in the
order in which they went in, and the calls that have returned reported their own. -/
structure Faithful [DecidableEq T] (s : W T β) : Prop where
  order : ∀ e, (socket e s).delivered.map Prod.snd <+: (socket e s).accepted.map Prod.snd
  accounts : ∀ t, Accounts (doing (s.place t)) s t
  reported : ∀ t r, s.place t = .own (some r) → r.Sound

/-- A `Write` on `e` gets to the queue of its peer. -/
structure Open (e : Side) (s : W T β) : Prop where
  connected : (socket e s).m_state = .CONNECTED
  shutWrite : (socket e s).m_shutWrite = false
  takes : Takes (socket e.other s)

/-- What a call with `bufs` left to write finds; `started` if it has written bytes. -/
structure RoomFor (e : Side) (started : Prop) (bufs : List (List β)) (s : W T β) : Prop where
  nonempty : 0 < room s e.other → ∀ buf ∈ bufs, buf ≠ []
  whole : (socket e s).nonblock = true → (¬ started ∧ room s e.other = 0) ∨
    (0 < room s e.other ∧ bufs.flatten.length ≤ room s e.other)

def available (e : Side) (s : W T β) : Nat := (contents (socket e s).m_readBuffer).length

/-- The bytes at hand end where a buffer of the message ends, or go beyond it. An empty
buffer is the last that is read. -/
def Fits : Nat → List Nat → Prop
  | _, [] => True
  | avail, len :: lens => len = 0 ∨ avail = 0 ∨ (len ≤ avail ∧ Fits (avail - len) lens)

/-- What a call with `lens` left to read finds, when it has got `filled` bytes into the
first of these buffers; `single` if it has no other, `started` if it has got bytes. -/
structure BytesFor (e : Side) (single started : Prop) (filled : Nat) (lens : List Nat) (s : W T β) :
    Prop where
  shut : (socket e s).m_state = .CONNECTED → (socket e s).nonblock = false →
    (socket e s).m_peer = true → (socket e.other s).m_shutWrite = true →
    (0 < filled → 0 < available e s) ∧ Fits (available e s) lens
  whole : (socket e s).m_state = .CONNECTED → (socket e s).nonblock = true →
    single ∨ (¬ started ∧ available e s = 0) ∨ lens.dropLast.sum < available e s

/-- A socket that has not been closed on its own side. -/
def Attached (s : SocketFd T β) : Prop := s.m_state = .CONNECTED ∨ s.m_state = .REMOTECLOSED

def HonestCall (s : W T β) : Op β → Prop
  | .write e buf => Open e s → RoomFor e False [buf] s
  | .sendmsg e named iovs => named = false → Open e s → RoomFor e False iovs s
  | .read e count => BytesFor e True False 0 [count] s
  | .recvmsg e lens => BytesFor e (lens.length ≤ 1) False 0 lens s ∧
      (Attached (socket e s) → 0 < available e s → 0 < lens.sum → lens.head? ≠ some 0)
  | .close e => Attached (socket e s) → 0 < available e s →
      ∀ u filled rest last asked retval lens,
        s.place u = .inside (.read e filled rest last asked retval lens) → 0 < filled ∨ retval ≠ 0
  | _ => True

def HonestReturn (s : W T β) (interrupted : Bool) : Frame β → Prop
  | .write e tot rest last _ retval iovs =>
    (retval ≠ 0 ∨ iovs ≠ [] → waitResult interrupted last s.now = .OK ∧ Open e s) ∧
    (waitResult interrupted last s.now = .OK → (socket e s).m_state = .CONNECTED →
      Takes (socket e.other s) → RoomFor e (0 < tot ∨ retval ≠ 0) (rest :: iovs) s)
  | .read e filled rest last _ retval lens =>
    (retval ≠ 0 ∨ lens ≠ [] → waitResult interrupted last s.now = .OK ∧ Attached (socket e s)) ∧
    (waitResult interrupted last s.now = .OK →
      BytesFor e (retval = 0 ∧ lens = []) (0 < filled ∨ retval ≠ 0) filled (rest :: lens) s)

/-- The steps of a run that keep clear of the calls which misreport their bytes: no empty
buffer goes into a queue with room, a nonblocking write finds room for all or for none, a
read of a peer that has shut its side finds what fills its buffers or nothing, no call on
several buffers is broken off between them, and no socket is closed over bytes that a
read which has none yet still waits for. -/
def Honest (s : W T β) : Act T (Op β) Bool → Prop
  | .call _ op => HonestCall s op
  | .dispatch t interrupted => ∀ frame, s.place t = .inside frame → HonestReturn s interrupted frame
  | _ => True

structure Queue (s : SocketFd T β) : Prop where
  joined : Attached s ∨ s.m_state = .CLOSED
  fresh : Fresh s.m_readBuffer
  size : s.m_readBufferSize = (contents s.m_readBuffer).length
  flow : s.m_state ≠ .CLOSED → Stream.Conserved (s.accepted.map Prod.snd) (s.delivered.map Prod.snd)
    (contents s.m_readBuffer)
  order : s.delivered.map Prod.snd <+: s.accepted.map Prod.snd

/-- The accepted bytes of a socket that are still to be delivered. -/
def left (s : SocketFd T β) : Nat := s.accepted.length - s.delivered.length

/-- What holds of a thread in a wait: its call has moved what its counts say. -/
def Frame.Kept (s : W T β) (u : T) : Frame β → Prop
  | .write _ tot rest _ message retval iovs => ∃ n : Nat, retval = n ∧
      (s.shared.moved u).length = n + tot ∧ s.shared.moved u ++ rest ++ iovs.flatten = message
  | .read e filled rest _ _ retval _ => ∃ n : Nat, retval = n ∧
      (s.shared.moved u).length = n + filled ∧ 0 < rest ∧
      ((socket e s).m_state = .CLOSED → s.shared.moved u = [] → left (socket e s) = 0)

structure Kept [DecidableEq T] (s : W T β) (u : T) : Prop where
  inside : ∀ frame, s.place u = .inside frame → frame.Kept s u
  own : ∀ r, s.place u = .own (some r) → r.Sound
  accounts : Accounts (doing (s.place u)) s u

/-- The invariant at a point where `t` runs and does `d`. -/
structure Working [DecidableEq T] (d : Doing) (t : T) (s : W T β) : Prop where
  queues : ∀ e, Queue (socket e s)
  others : ∀ u, u ≠ t → Kept s u
  mine : Accounts d s t

structure Tended [DecidableEq T] (s : W T β) : Prop where
  queues : ∀ e, Queue (socket e s)
  kept : ∀ u, Kept s u

variable {s v : W T β} {t u : T} {e : Side} {d : Doing}

theorem Queue.left_eq (queue : Queue (socket e s)) (attached : (socket e s).m_state ≠ .CLOSED) :
    left (socket e s) = available e s := by
  have flow := congrArg length (queue.flow attached)
  rw [length_append, length_map, length_map] at flow
  rw [left, available]
  omega

variable {frame : Frame β} {q : SocketFd T β} {d' : Doing} {data : List β}

theorem Frame.Kept.mono (kept : frame.Kept s u) (moved : v.shared.moved u = s.shared.moved u)
    (closed : ∀ e, (socket e v).m_state = .CLOSED → (left (socket e s) = 0 → left (socket e v) = 0) ∧
      ((socket e s).m_state = .CLOSED ∨ left (socket e v) = 0)) : frame.Kept v u := by
  cases frame with
  | write e tot rest last message retval iovs =>
    unfold Frame.Kept at *
    rw [moved]
    exact kept
  | read e filled rest last asked retval lens =>
    obtain ⟨n, count, length, positive, gone⟩ := kept
    refine ⟨n, count, by rw [moved]; exact length, positive, fun shut none => ?_⟩
    obtain ⟨same, before | now⟩ := closed e shut
    · exact same (gone before (moved ▸ none))
    · exact now

theorem Queue.of_waitQueue {r : SocketFd T β} (queue : Queue q) {list : List (WaitQueueEntry T)}
    (same : r = { q with waitQueue := list }) : Queue r := by
  subst same
  exact ⟨queue.joined, queue.fresh, queue.size, queue.flow, queue.order⟩

theorem Queue.cleared (queue : Queue q) : Queue { q with
    m_state := .CLOSED, m_peer := false, m_readBuffer := [], m_readBufferSize := 0 } :=
  ⟨.inr rfl, fun _ mem => absurd mem not_mem_nil, rfl, fun alive => absurd rfl alive, queue.order⟩

theorem Queue.abandoned (queue : Queue q) (connected : q.m_state = .CONNECTED) :
    Queue { q with m_peer := false, m_state := .REMOTECLOSED } :=
  ⟨.inl (.inr rfl), queue.fresh, queue.size, fun _ => queue.flow (by simp [connected]), queue.order⟩

variable [DecidableEq T]

@[simp] theorem movedBy_append (bytes more : List (T × β)) :
    movedBy u (bytes ++ more) = movedBy u bytes ++ movedBy u more := by
  simp [movedBy]

omit [DecidableEq T] in
theorem map_snd_mk (data : List β) : (data.map (Prod.mk t)).map Prod.snd = data := by
  rw [map_map]
  exact map_id data

theorem movedBy_own (data : List β) : movedBy t (data.map (Prod.mk t)) = data := by
  induction data with
  | nil => rfl
  | cons b data ih => simpa [movedBy] using ih

theorem movedBy_other (other : u ≠ t) (data : List β) : movedBy u (data.map (Prod.mk t)) = [] := by
  induction data with
  | nil => rfl
  | cons b data ih => simp [movedBy, other.symm]

/-- The accounts of `u` are the same in two states. -/
structure Untouched (u : T) (s v : W T β) : Prop where
  moved : v.shared.moved u = s.shared.moved u
  accepted : ∀ e, movedBy u (socket e v).accepted = movedBy u (socket e s).accepted
  delivered : ∀ e, movedBy u (socket e v).delivered = movedBy u (socket e s).delivered
  toldWritten : ∀ e, (socket e v).toldWritten u = (socket e s).toldWritten u
  toldRead : ∀ e, (socket e v).toldRead u = (socket e s).toldRead u

theorem Accounts.same (accounts : Accounts d s u) (untouched : Untouched u s v) : Accounts d v u where
  written e := by rw [untouched.accepted, untouched.toldWritten, untouched.moved, accounts.written]
  read e := by rw [untouched.delivered, untouched.toldRead, untouched.moved, accounts.read]

/-- What a socket has of its bytes is the same in two states. -/
structure SameBytes (q r : SocketFd T β) : Prop where
  accepted : r.accepted = q.accepted
  delivered : r.delivered = q.delivered
  toldWritten : r.toldWritten = q.toldWritten
  toldRead : r.toldRead = q.toldRead

theorem Untouched.of_same (moved : v.shared.moved u = s.shared.moved u)
    (same : ∀ e, SameBytes (socket e s) (socket e v)) : Untouched u s v where
  moved := moved
  accepted e := by rw [(same e).accepted]
  delivered e := by rw [(same e).delivered]
  toldWritten e := by rw [(same e).toldWritten]
  toldRead e := by rw [(same e).toldRead]

theorem Working.step (working : Working d t s) (queues : ∀ e, Queue (socket e v))
    (place : ∀ u, u ≠ t → v.place u = s.place u) (untouched : ∀ u, u ≠ t → Untouched u s v) (mine : Accounts d' v t)
    (closed : ∀ e, (socket e v).m_state = .CLOSED → (socket e s).m_state = .CLOSED ∧
      left (socket e v) = left (socket e s)) : Working d' t v := by
  refine ⟨queues, fun u other => ⟨fun frame inside => ?_, fun r own => ?_, ?_⟩, mine⟩
  · have before := (working.others u other).inside frame (place u other ▸ inside)
    refine before.mono (untouched u other).moved fun e shut => ?_
    obtain ⟨also, same⟩ := closed e shut
    exact ⟨fun none => same.trans none, .inl also⟩
  · exact (working.others u other).own r (place u other ▸ own)
  · rw [place u other]
    exact (working.others u other).accounts.same (untouched u other)

theorem Working.calm (working : Working d t s) (queues : ∀ e, Queue (socket e v)) (place : v.place = s.place)
    (moved : v.shared.moved = s.shared.moved) (same : ∀ e, SameBytes (socket e s) (socket e v))
    (closed : ∀ e, (socket e v).m_state = .CLOSED → (socket e s).m_state = .CLOSED) : Working d t v := by
  have untouched : ∀ u, Untouched u s v := fun u => .of_same (by rw [moved]) same
  refine working.step queues (fun u _ => by rw [place]) (fun u _ => untouched u)
    (working.mine.same (untouched t)) fun e shut => ⟨closed e shut, ?_⟩
  rw [left, left, (same e).accepted, (same e).delivered]

theorem Working.ret (working : Working .own t s) (r : Result β) (sound : r.Sound) : Tended (s.ret t r) := by
  refine ⟨working.queues, fun u => ?_⟩
  have untouched : Untouched u s (s.ret t r) := .of_same rfl fun e => ⟨rfl, rfl, rfl, rfl⟩
  by_cases mine : u = t
  · subst mine
    refine ⟨fun frame inside => by simp at inside, fun r' own => ?_, ?_⟩
    · cases (show r = r' by simpa using own)
      exact sound
    · rw [World.ret_place, Function.update_self]
      exact working.mine.same untouched
  · have same : (s.ret t r).place u = s.place u := by simp [mine]
    refine ⟨fun frame inside => ?_, fun r' own => ?_, ?_⟩
    · exact (working.others u mine).inside frame (same ▸ inside)
    · exact (working.others u mine).own r' (same ▸ own)
    · rw [same]
      exact (working.others u mine).accounts.same untouched

theorem sleepOn_same (f : Side) (mask : List PollEvent) (frame : Frame β) (last : Option Nat) :
    ∃ list, socket f (sleepOn t e mask frame last s) = { socket f s with waitQueue := list } := by
  rw [socket_sleepOn]
  exact addWaitQueue_same s e f t mask

theorem sleepOn_untouched (u : T) (mask : List PollEvent) (frame : Frame β) (last : Option Nat) :
    Untouched u s (sleepOn t e mask frame last s) := by
  refine .of_same (by simp) fun f => ?_
  obtain ⟨list, same⟩ := sleepOn_same (t := t) (e := e) (s := s) f mask frame last
  rw [same]
  exact ⟨rfl, rfl, rfl, rfl⟩

theorem Working.sleeps {mask : List PollEvent} {last : Option Nat}
    (working : Working (doing (.inside frame)) t s) (kept : frame.Kept s t) :
    Tended (sleepOn t e mask frame last s) := by
  have sockets : ∀ f, ∃ list, socket f (sleepOn t e mask frame last s) =
      { socket f s with waitQueue := list } := fun f => sleepOn_same f mask frame last
  have untouched : ∀ u, Untouched u s (sleepOn t e mask frame last s) := fun u =>
    sleepOn_untouched u mask frame last
  have stays : ∀ (u : T) (frame' : Frame β), frame'.Kept s u → frame'.Kept (sleepOn t e mask frame last s) u := by
    intro u frame' before
    refine before.mono (by simp) fun f shut => ?_
    obtain ⟨list, same⟩ := sockets f
    rw [same] at shut ⊢
    exact ⟨id, .inl shut⟩
  refine ⟨fun f => ?_, fun u => ?_⟩
  · obtain ⟨list, same⟩ := sockets f
    exact (working.queues f).of_waitQueue same
  · by_cases mine : u = t
    · subst mine
      refine ⟨fun frame' inside => ?_, fun r own => by simp at own, ?_⟩
      · cases (show frame = frame' by simpa using inside)
        exact stays u frame kept
      · rw [sleepOn_place, Function.update_self]
        exact working.mine.same (untouched u)
    · have same : (sleepOn t e mask frame last s).place u = s.place u := by simp [mine]
      refine ⟨fun frame' inside => stays u frame' ?_, fun r own => ?_, ?_⟩
      · exact (working.others u mine).inside frame' (same ▸ inside)
      · exact (working.others u mine).own r (same ▸ own)
      · rw [same]
        exact (working.others u mine).accounts.same (untouched u)

theorem Working.failing (working : Working d t s) (err : Errno) : Working d t (setErr t err s) :=
  working.calm working.queues rfl rfl (fun _ => ⟨rfl, rfl, rfl, rfl⟩) fun _ => id

theorem removeWaitQueue_untouched (u : T) : Untouched u s (removeWaitQueue t e s) := by
  refine .of_same rfl fun f => ?_
  obtain ⟨list, same⟩ := removeWaitQueue_same s e f t
  rw [same]
  exact ⟨rfl, rfl, rfl, rfl⟩

theorem Working.dequeued (working : Working d t s) : Working d t (removeWaitQueue t e s) := by
  refine working.calm (fun f => ?_) rfl rfl (fun f => ?_) fun f shut => ?_
  · obtain ⟨list, same⟩ := removeWaitQueue_same s e f t
    exact (working.queues f).of_waitQueue same
  · obtain ⟨list, same⟩ := removeWaitQueue_same s e f t
    rw [same]
    exact ⟨rfl, rfl, rfl, rfl⟩
  · obtain ⟨list, same⟩ := removeWaitQueue_same s e f t
    rw [same] at shut
    exact shut

theorem Working.sets (working : Working d t s) (queue : Queue q)
    (accepted : q.accepted = (socket e s).accepted) (delivered : q.delivered = (socket e s).delivered)
    (told : ∀ u, u ≠ t → q.toldWritten u = (socket e s).toldWritten u ∧ q.toldRead u = (socket e s).toldRead u)
    (mine : Accounts d' (setSocket e q s) t)
    (closed : q.m_state = .CLOSED → (socket e s).m_state = .CLOSED) : Working d' t (setSocket e q s) := by
  refine working.step (fun f => ?_) (fun _ _ => rfl) (fun u other => ?_) mine fun f shut => ?_
  · rcases e.eq_or f with rfl | rfl
    · rw [socket_setSocket_self]
      exact queue
    · rw [socket_setSocket_other]
      exact working.queues _
  · have same : ∀ f, (socket f (setSocket e q s)).accepted = (socket f s).accepted ∧
        (socket f (setSocket e q s)).delivered = (socket f s).delivered ∧
        (socket f (setSocket e q s)).toldWritten u = (socket f s).toldWritten u ∧
        (socket f (setSocket e q s)).toldRead u = (socket f s).toldRead u := by
      intro f
      rcases e.eq_or f with rfl | rfl
      · rw [socket_setSocket_self]
        exact ⟨accepted, delivered, told u other⟩
      · rw [socket_setSocket_other]
        exact ⟨rfl, rfl, rfl, rfl⟩
    exact ⟨rfl, fun f => by rw [(same f).1], fun f => by rw [(same f).2.1], fun f => (same f).2.2.1, fun f =>
      (same f).2.2.2⟩
  · rcases e.eq_or f with rfl | rfl
    · rw [socket_setSocket_self] at shut ⊢
      exact ⟨closed shut, by rw [left, left, accepted, delivered]⟩
    · rw [socket_setSocket_other] at shut ⊢
      exact ⟨shut, rfl⟩

theorem Queue.filled (queue : Queue (socket e s)) (takes : Takes (socket e s)) (some : data ≠ []) :
    Queue (socket e (fill s e t data)) := by
  rw [socket_fill_self]
  refine ⟨queue.joined, fun b mem => ?_, ?_, fun attached => ?_, ?_⟩
  · rcases mem_append.mp mem with old | new
    · exact queue.fresh b old
    · rw [mem_singleton.mp new]
      exact some
  · simp only [contents_append, contents_new, length_append, queue.size]
  · simp only [contents_append, contents_new, map_append, map_snd_mk]
    exact (queue.flow takes.2).push data
  · simp only [map_append]
    exact queue.order.trans (prefix_append _ _)

theorem fill_untouched (other : u ≠ t) : Untouched u s (fill s e t data) := by
  have sockets : ∀ f, movedBy u (socket f (fill s e t data)).accepted = movedBy u (socket f s).accepted ∧
      (socket f (fill s e t data)).delivered = (socket f s).delivered ∧
      (socket f (fill s e t data)).toldWritten = (socket f s).toldWritten ∧
      (socket f (fill s e t data)).toldRead = (socket f s).toldRead := by
    intro f
    rcases f.eq_or e with rfl | rfl
    · rw [socket_fill_self]
      exact ⟨by rw [movedBy_append, movedBy_other other, append_nil], rfl, rfl, rfl⟩
    · rw [socket_fill_other]
      exact ⟨rfl, rfl, rfl, rfl⟩
  exact ⟨by simp [other], fun f => (sockets f).1, fun f => by rw [(sockets f).2.1],
    fun f => by rw [(sockets f).2.2.1], fun f => by rw [(sockets f).2.2.2]⟩

theorem Accounts.filled (accounts : Accounts (.writing e) s t) (data : List β) :
    Accounts (.writing e) (fill s e.other t data) t := by
  have moved : (fill s e.other t data).shared.moved t = s.shared.moved t ++ data := by simp
  refine ⟨fun f => ?_, fun f => ?_⟩
  · have before := accounts.written f
    rcases e.eq_or f with rfl | rfl
    · rw [socket_fill_self, socket_fill_other, moved, if_pos rfl, ← append_assoc]
      rw [if_pos rfl] at before
      rw [movedBy_append, movedBy_own, before]
    · rw [Side.other_other, socket_fill_other, socket_fill_self, if_neg (by simp)]
      rw [Side.other_other, if_neg (by simp)] at before
      exact before
  · have before := accounts.read f
    rcases e.eq_or f with rfl | rfl
    · rw [socket_fill_other]
      exact before
    · rw [socket_fill_self]
      exact before

theorem Working.filled (working : Working (.writing e) t s) (takes : Takes (socket e.other s))
    (some : data ≠ []) : Working (.writing e) t (fill s e.other t data) := by
  refine working.step (fun f => ?_) (fun u _ => by simp) (fun u other => fill_untouched other)
    (working.mine.filled data) fun f shut => ?_
  · rcases e.eq_or f with rfl | rfl
    · rw [socket_fill_other]
      exact working.queues _
    · exact (working.queues _).filled takes some
  · rcases e.eq_or f with rfl | rfl
    · rw [socket_fill_other] at shut ⊢
      exact ⟨shut, rfl⟩
    · rw [socket_fill_self] at shut
      exact absurd shut takes.2

theorem Queue.drained (queue : Queue (socket e s)) (attached : (socket e s).m_state ≠ .CLOSED) (n : Nat) :
    Queue (socket e (drain s e t n)) := by
  have split := readData_contents (socket e s).m_readBuffer n
  have flow := queue.flow attached
  have kept : Stream.Conserved ((socket e s).accepted.map Prod.snd)
      ((socket e s).delivered.map Prod.snd ++ (readData (socket e s).m_readBuffer n).2)
      (contents (readData (socket e s).m_readBuffer n).1) := by
    unfold Stream.Conserved at *
    rw [append_assoc, split, flow]
  rw [socket_drain_self]
  refine ⟨queue.joined, queue.fresh.readData n, ?_, fun _ => ?_, ?_⟩
  · have length := congrArg length split
    rw [length_append] at length
    simp only [queue.size]
    omega
  · rw [map_append, map_snd_mk]
    exact kept
  · rw [map_append, map_snd_mk]
    exact kept.prefix_sent

theorem drain_untouched (other : u ≠ t) (n : Nat) : Untouched u s (drain s e t n) := by
  have sockets : ∀ f, (socket f (drain s e t n)).accepted = (socket f s).accepted ∧
      movedBy u (socket f (drain s e t n)).delivered = movedBy u (socket f s).delivered ∧
      (socket f (drain s e t n)).toldWritten = (socket f s).toldWritten ∧
      (socket f (drain s e t n)).toldRead = (socket f s).toldRead := by
    intro f
    rcases e.eq_or f with rfl | rfl
    · rw [socket_drain_self]
      exact ⟨rfl, by rw [movedBy_append, movedBy_other other, append_nil], rfl, rfl⟩
    · rw [socket_drain_other]
      exact ⟨rfl, rfl, rfl, rfl⟩
  exact ⟨by simp [other], fun f => by rw [(sockets f).1], fun f => (sockets f).2.1,
    fun f => by rw [(sockets f).2.2.1], fun f => by rw [(sockets f).2.2.2]⟩

theorem Accounts.drained (accounts : Accounts (.reading e) s t) (n : Nat) :
    Accounts (.reading e) (drain s e t n) t := by
  have moved : (drain s e t n).shared.moved t = s.shared.moved t ++
    (readData (socket e s).m_readBuffer n).2 := by simp
  refine ⟨fun f => ?_, fun f => ?_⟩
  · have before := accounts.written f
    rcases e.eq_or f with rfl | rfl
    · rw [socket_drain_self, socket_drain_other]
      exact before
    · rw [Side.other_other] at before ⊢
      rw [socket_drain_self, socket_drain_other]
      exact before
  · have before := accounts.read f
    rcases e.eq_or f with rfl | rfl
    · rw [socket_drain_self, moved, if_pos rfl, ← append_assoc]
      rw [if_pos rfl] at before
      rw [movedBy_append, movedBy_own, before]
    · rw [socket_drain_other, if_neg (by simp)]
      rw [if_neg (by simp)] at before
      exact before

theorem Working.drained (working : Working (.reading e) t s) (attached : (socket e s).m_state ≠ .CLOSED) (n : Nat) :
    Working (.reading e) t (drain s e t n) := by
  refine working.step (fun f => ?_) (fun u _ => by simp) (fun u other => drain_untouched other n)
    (working.mine.drained n) fun f shut => ?_
  · rcases e.eq_or f with rfl | rfl
    · exact (working.queues _).drained attached n
    · rw [socket_drain_other]
      exact working.queues _
  · rcases e.eq_or f with rfl | rfl
    · rw [socket_drain_self] at shut
      exact absurd shut attached
    · rw [socket_drain_other] at shut ⊢
      exact ⟨shut, rfl⟩

end Dce.LocalStream
