import Dce.LocalStream.Receiving
import Dce.LocalStream.Sending

/- Messages over several buffers. `Sendmsg` and `Recvmsg` add up what each `Write` and each
`Read` returns, a -1 too, and go on after it, so the sum is right where none of them fails
once the message has moved a byte. -/

namespace Dce.LocalStream

open Coroutine List

variable {T β : Type*}

/-- A message counts the bytes that it has moved, or says -1 if there are none, and those
of a message that is sent are its first. -/
def Result.Counted : Result β → Prop
  | .done _ => True
  | .written message value moved => moved <+: message ∧ (value = moved.length ∨ value = -1 ∧ moved = [])
  | .read asked value moved _ => moved.length ≤ asked ∧ (value = moved.length ∨ value = -1 ∧ moved = [])

/-- What is asked of the messages: the bytes leave each queue in the order in which they
came, every message has moved those that the accounts say, and has counted them. -/
structure Gathers [DecidableEq T] (s : W T β) : Prop where
  order : ∀ e, (socket e s).delivered.map Prod.snd <+: (socket e s).accepted.map Prod.snd
  accounts : ∀ t, Accounts (doing (s.place t)) s t
  counted : ∀ t r, s.place t = .own (some r) → r.Counted

/-- The buffers have room, without which a nonblocking write fails; a single one can do
without it, as long as nothing is moved. -/
def HasRoom (moved : Nat) (iovs : List (List β)) (room : Nat) : Prop :=
  (iovs.flatten.length ≤ room ∧ ∀ buf ∈ iovs, buf ≠ []) ∨
  (moved = 0 ∧ iovs.length ≤ 1 ∧ (room = 0 ∨ iovs.flatten = []))

/-- What a message that has moved so many bytes finds for the buffers it has left. -/
structure SendFits (e : Side) (moved : Nat) (iovs : List (List β)) (s : W T β) : Prop where
  refused : (socket e s).m_state ≠ .REMOTECLOSED → ¬ Open e s → iovs = [] ∨ (moved = 0 ∧ iovs.length ≤ 1)
  fits : Open e s → (socket e s).nonblock = true → HasRoom moved iovs (room s e.other)

/-- What a message that goes on in a `Write` of a connected socket finds; `tot` bytes of the
present buffer are moved and `rest` is left of it. -/
structure WriteFits (e : Side) (moved tot : Nat) (rest : List β) (iovs : List (List β)) (s : W T β) : Prop where
  refused : ¬ Takes (socket e.other s) → iovs = [] ∧ (tot = 0 → moved = 0)
  fits : Takes (socket e.other s) → (socket e s).nonblock = true →
    HasRoom (moved + tot) (rest :: iovs) (room s e.other)
  more : Takes (socket e.other s) → rest.length ≤ room s e.other → iovs = [] ∨ (socket e s).m_shutWrite = false

/-- How many bytes a read can get. -/
def atHand (e : Side) (s : W T β) : Nat := (reachable (socket e s).m_readBuffer).length

/-- What holds where the bytes at hand end within the buffers `lens`: so many are moved then,
in buffers that are full, so many are in the buffer that is not, and these are left. -/
def EndsWhere (P : Nat → Nat → List Nat → Prop) : Nat → Nat → Nat → List Nat → Prop
  | _, _, _, [] => True
  | moved, filled, avail, rest :: lens =>
    rest = 0 ∨ (rest ≤ avail ∧ EndsWhere P (moved + filled + rest) 0 (avail - rest) lens) ∨
      (avail < rest ∧ P moved (filled + avail) lens)

/-- A message can end there: a nonblocking one in its last buffer, or in its only one, and
one whose peer writes no more where a buffer ends. -/
def CanEnd (e : Side) (s : W T β) (moved filled : Nat) (lens : List Nat) : Prop :=
  if (socket e s).nonblock then
    (0 < filled ∧ lens.head?.getD 0 = 0) ∨ (filled = 0 ∧ moved = 0 ∧ lens = [])
  else (socket e s).m_peer = true → (socket e.other s).m_shutWrite = true → filled = 0

/-- What a message finds for the buffers it has left, the first of them partly filled. -/
def ReadFits (e : Side) (moved filled : Nat) (lens : List Nat) (s : W T β) : Prop :=
  ((socket e s).m_state = .REMOTECLOSED ∧ (socket e s).m_readBufferSize = atHand e s) ∨
    EndsWhere (CanEnd e s) moved filled (atHand e s) lens

/-- The next `Read` of a message returns 0. -/
def Stops (e : Side) (lens : List Nat) (s : W T β) : Prop :=
  lens = [] ∨ (Attached (socket e s) ∧ (lens.head? = some 0 ∨ ¬ Readable (socket e s)))

def WholeCall (s : W T β) : Op β → Prop
  | .write e buf => SendFits e 0 [buf] s
  | .sendmsg e named iovs => named = false → SendFits e 0 iovs s
  | .read e count => Attached (socket e s) → ReadFits e 0 0 [count] s
  | .recvmsg e lens =>
    (Attached (socket e s) → ReadFits e 0 0 lens s) ∧ (¬ Attached (socket e s) → lens.length ≤ 1)
  | _ => True

def WholeReturn (s : W T β) (interrupted : Bool) : Frame β → Prop
  | .write e tot rest last _ retval iovs =>
    (waitResult interrupted last s.now ≠ .OK ∨ (socket e s).m_state ≠ .CONNECTED →
      if tot = 0 then retval = 0 ∧ iovs = [] else iovs = [] ∨ (socket e s).m_state = .REMOTECLOSED) ∧
    (waitResult interrupted last s.now = .OK → (socket e s).m_state = .CONNECTED → rest ≠ [] →
      WriteFits e retval.toNat tot rest iovs s)
  | .read e filled rest last _ retval lens =>
    (waitResult interrupted last s.now ≠ .OK → if filled = 0 then retval = 0 ∧ lens = [] else Stops e lens s) ∧
    (waitResult interrupted last s.now = .OK → if Readable (socket e s)
      then ReadFits e retval.toNat filled (rest :: lens) s
      else filled = 0 ∨ Stops e lens s)

/-- The steps of a run in which no message is broken off within its buffers. -/
def Whole (s : W T β) : Act T (Op β) Bool → Prop
  | .call _ op => WholeCall s op
  | .dispatch t interrupted => ∀ frame, s.place t = .inside frame → WholeReturn s interrupted frame
  | _ => True

/-- Two states that differ in no socket but for its waiters. -/
def Requeued (s v : W T β) : Prop := ∀ f, ∃ list, socket f v = { socket f s with waitQueue := list }

section

variable {s v : W T β} {e : Side} {moved filled tot : Nat} {lens : List Nat} {rest : List β} {iovs : List (List β)}

theorem Requeued.of_eq (same : ∀ f, socket f v = socket f s) : Requeued s v :=
  fun f => ⟨(socket f s).waitQueue, same f⟩

theorem Requeued.opened (requeued : Requeued s v) : Open e v ↔ Open e s := by
  obtain ⟨here, same⟩ := requeued e
  obtain ⟨there, same'⟩ := requeued e.other
  constructor <;> rintro ⟨connected, shutWrite, takes⟩
  · rw [same] at connected shutWrite
    rw [same'] at takes
    exact ⟨connected, shutWrite, takes⟩
  · exact ⟨by rw [same]; exact connected, by rw [same]; exact shutWrite, by rw [same']; exact takes⟩

theorem Requeued.room (requeued : Requeued s v) : room v e = room s e := by
  obtain ⟨here, same⟩ := requeued e
  unfold LocalStream.room
  rw [same]

theorem SendFits.requeued (fits : SendFits e moved iovs s) (requeued : Requeued s v) : SendFits e moved iovs v := by
  obtain ⟨here, same⟩ := requeued e
  refine ⟨?_, ?_⟩
  · rw [same, requeued.opened]
    exact fits.refused
  · rw [same, requeued.opened, requeued.room]
    exact fits.fits

theorem WriteFits.requeued (fits : WriteFits e moved tot rest iovs s) (requeued : Requeued s v) :
    WriteFits e moved tot rest iovs v := by
  obtain ⟨here, same⟩ := requeued e
  obtain ⟨there, same'⟩ := requeued e.other
  refine ⟨?_, ?_, ?_⟩
  · rw [same']
    exact fits.refused
  · rw [same, same', requeued.room]
    exact fits.fits
  · rw [same, same', requeued.room]
    exact fits.more

theorem Requeued.readFits (requeued : Requeued s v) : ReadFits e moved filled lens v ↔
    ReadFits e moved filled lens s := by
  obtain ⟨here, same⟩ := requeued e
  obtain ⟨there, same'⟩ := requeued e.other
  have ends : CanEnd e v = CanEnd e s := by
    funext moved filled lens
    unfold CanEnd
    rw [same, same']
  unfold ReadFits atHand
  rw [ends, same]

theorem Requeued.readable (requeued : Requeued s v) : Readable (socket e v) ↔ Readable (socket e s) := by
  obtain ⟨here, same⟩ := requeued e
  rw [same]
  rfl

theorem Requeued.attached (requeued : Requeued s v) : Attached (socket e v) ↔ Attached (socket e s) := by
  obtain ⟨here, same⟩ := requeued e
  rw [same]
  rfl

theorem Requeued.stops (requeued : Requeued s v) : Stops e lens v ↔ Stops e lens s := by
  unfold Stops
  rw [requeued.attached, requeued.readable]

theorem WholeCall.requeued {op : Op β} (whole : WholeCall s op) (requeued : Requeued s v) : WholeCall v op := by
  cases op with
  | write e buf => exact SendFits.requeued whole requeued
  | sendmsg e named iovs => exact fun unnamed => (whole unnamed).requeued requeued
  | read e count => exact fun attached => requeued.readFits.mpr (whole (requeued.attached.mp attached))
  | recvmsg e lens =>
    exact ⟨fun attached => requeued.readFits.mpr (whole.1 (requeued.attached.mp attached)),
      fun detached => whole.2 fun attached => detached (requeued.attached.mpr attached)⟩
  | _ => trivial

end

/-- The bytes of a socket that are under way, until it is closed. -/
structure Stock (s : SocketFd T β) : Prop where
  flow : s.m_state ≠ .CLOSED → Stream.Conserved (s.accepted.map Prod.snd) (s.delivered.map Prod.snd)
    (contents s.m_readBuffer)
  order : s.delivered.map Prod.snd <+: s.accepted.map Prod.snd

/-- A thread in a wait has moved what its counts say, with no gap before the buffer it is in. -/
def Frame.Exact (s : W T β) (u : T) : Frame β → Prop
  | .write _ tot rest _ message retval iovs => ∃ n : Nat, retval = n ∧
      (s.shared.moved u).length = n + tot ∧ s.shared.moved u ++ rest ++ iovs.flatten = message ∧
      (0 < tot → rest ≠ [])
  | .read _ filled rest _ asked retval lens => ∃ n : Nat, retval = n ∧
      (s.shared.moved u).length = n + filled ∧ n + filled + rest + lens.sum = asked ∧ 0 < rest

structure Exact [DecidableEq T] (s : W T β) (u : T) : Prop where
  inside : ∀ frame, s.place u = .inside frame → frame.Exact s u
  own : ∀ r, s.place u = .own (some r) → r.Counted
  accounts : Accounts (doing (s.place u)) s u

/-- The invariant at a point where `t` runs and does `d`. -/
structure Carrying [DecidableEq T] (d : Doing) (t : T) (s : W T β) : Prop where
  stocks : ∀ e, Stock (socket e s)
  others : ∀ u, u ≠ t → Exact s u
  mine : Accounts d s t

structure Carried [DecidableEq T] (s : W T β) : Prop where
  stocks : ∀ e, Stock (socket e s)
  exact : ∀ u, Exact s u

variable {s v : W T β} {t u : T} {e : Side} {d : Doing}

theorem Stock.of_waitQueue {q r : SocketFd T β} (stock : Stock q) {list : List (WaitQueueEntry T)}
    (same : r = { q with waitQueue := list }) : Stock r := by
  subst same
  exact ⟨stock.flow, stock.order⟩

theorem Frame.Exact.mono {frame : Frame β} (exact' : frame.Exact s u)
    (moved : v.shared.moved u = s.shared.moved u) : frame.Exact v u := by
  cases frame <;> (unfold Frame.Exact at *; rwa [moved])

variable [DecidableEq T]

theorem Exact.kept (exact' : Exact s u) (place : v.place u = s.place u) (untouched : Untouched u s v) :
    Exact v u := by
  refine ⟨fun frame inside => ?_, fun r own => exact'.own r (place ▸ own), ?_⟩
  · exact (exact'.inside frame (place ▸ inside)).mono untouched.moved
  · rw [place]
    exact exact'.accounts.same untouched

theorem Carrying.step {d' : Doing} (carrying : Carrying d t s) (stocks : ∀ e, Stock (socket e v))
    (place : ∀ u, u ≠ t → v.place u = s.place u) (untouched : ∀ u, u ≠ t → Untouched u s v)
    (mine : Accounts d' v t) : Carrying d' t v :=
  ⟨stocks, fun u other => (carrying.others u other).kept (place u other) (untouched u other), mine⟩

theorem Carrying.calm (carrying : Carrying d t s) (stocks : ∀ e, Stock (socket e v)) (place : v.place = s.place)
    (untouched : ∀ u, Untouched u s v) : Carrying d t v :=
  carrying.step stocks (fun u _ => by rw [place]) (fun u _ => untouched u) (carrying.mine.same (untouched t))

theorem Carrying.done (carrying : Carrying d t s) (stocks : ∀ e, Stock (socket e v))
    (place : ∀ u, u ≠ t → v.place u = s.place u) (untouched : ∀ u, u ≠ t → Untouched u s v)
    (exact' : Exact v t) : Carried v := by
  refine ⟨stocks, fun u => ?_⟩
  by_cases mine : u = t
  · exact mine ▸ exact'
  · exact (carrying.others u mine).kept (place u mine) (untouched u mine)

theorem Carrying.ret (carrying : Carrying .own t s) (r : Result β) (counted : r.Counted) : Carried (s.ret t r) := by
  have untouched : ∀ u, Untouched u s (s.ret t r) := fun u => .of_same rfl fun e => ⟨rfl, rfl, rfl, rfl⟩
  refine carrying.done carrying.stocks (fun u other => by simp [other]) (fun u _ => untouched u)
    ⟨fun frame inside => by simp at inside, fun r' own => ?_, ?_⟩
  · cases (show r = r' by simpa using own)
    exact counted
  · rw [World.ret_place, Function.update_self]
    exact carrying.mine.same (untouched t)

theorem Carrying.sleeps {mask : List PollEvent} {frame : Frame β} {last : Option Nat}
    (carrying : Carrying (doing (.inside frame)) t s) (exact' : frame.Exact s t) :
    Carried (sleepOn t e mask frame last s) := by
  refine carrying.done (fun f => ?_) (fun u other => by simp [other]) (fun u _ =>
    sleepOn_untouched u mask frame last)
    ⟨fun frame' inside => ?_, fun r own => by simp at own, ?_⟩
  · obtain ⟨list, same⟩ := sleepOn_same (s := s) (t := t) (e := e) f mask frame last
    exact (carrying.stocks f).of_waitQueue same
  · cases (show frame = frame' by simpa using inside)
    exact exact'.mono (by simp)
  · rw [sleepOn_place, Function.update_self]
    exact carrying.mine.same (sleepOn_untouched t mask frame last)

theorem Carrying.failing (carrying : Carrying d t s) (err : Errno) : Carrying d t (setErr t err s) :=
  carrying.calm carrying.stocks rfl fun _ => .of_same rfl fun _ => ⟨rfl, rfl, rfl, rfl⟩

theorem Carrying.dequeued (carrying : Carrying d t s) : Carrying d t (removeWaitQueue t e s) := by
  refine carrying.calm (fun f => ?_) rfl removeWaitQueue_untouched
  obtain ⟨list, same⟩ := removeWaitQueue_same s e f t
  exact (carrying.stocks f).of_waitQueue same

theorem Carrying.sets {d' : Doing} (carrying : Carrying d t s) {q : SocketFd T β} (stock : Stock q)
    (untouched : ∀ u, u ≠ t → Untouched u s (setSocket e q s)) (mine : Accounts d' (setSocket e q s) t) :
    Carrying d' t (setSocket e q s) := by
  refine carrying.step (fun f => ?_) (fun _ _ => rfl) untouched mine
  rcases e.eq_or f with rfl | rfl
  · rw [socket_setSocket_self]
    exact stock
  · rw [socket_setSocket_other]
    exact carrying.stocks _

theorem Carrying.filled (carrying : Carrying (.writing e) t s) (data : List β) :
    Carrying (.writing e) t (fill s e.other t data) := by
  refine carrying.step (fun f => ?_) (fun u _ => by simp) (fun u other =>
    fill_untouched other) (carrying.mine.filled data)
  rcases e.eq_or f with rfl | rfl
  · rw [socket_fill_other]
    exact carrying.stocks _
  · have stock := carrying.stocks e.other
    rw [socket_fill_self]
    refine ⟨fun alive => ?_, ?_⟩
    · simp only [contents_append, contents_new, map_append, map_snd_mk]
      exact (stock.flow alive).push data
    · simp only [map_append]
      exact stock.order.trans (prefix_append _ _)

theorem Stock.drained (stock : Stock (socket e s)) (alive : (socket e s).m_state ≠ .CLOSED) (n : Nat) :
    Stock (socket e (drain s e t n)) := by
  have flow := stock.flow alive
  have kept : Stream.Conserved ((socket e s).accepted.map Prod.snd)
      ((socket e s).delivered.map Prod.snd ++ (readData (socket e s).m_readBuffer n).2)
      (contents (readData (socket e s).m_readBuffer n).1) := by
    unfold Stream.Conserved at *
    rw [append_assoc, readData_contents, flow]
  rw [socket_drain_self]
  refine ⟨fun _ => ?_, ?_⟩
  · rw [map_append, map_snd_mk]
    exact kept
  · rw [map_append, map_snd_mk]
    exact kept.prefix_sent

theorem Carrying.drained (carrying : Carrying (.reading e) t s) (alive : (socket e s).m_state ≠ .CLOSED) (n : Nat) :
    Carrying (.reading e) t (drain s e t n) := by
  refine carrying.step (fun f => ?_) (fun u _ => by simp) (fun u other =>
    drain_untouched other n) (carrying.mine.drained n)
  rcases e.eq_or f with rfl | rfl
  · exact (carrying.stocks _).drained alive n
  · rw [socket_drain_other]
    exact carrying.stocks _

end Dce.LocalStream
