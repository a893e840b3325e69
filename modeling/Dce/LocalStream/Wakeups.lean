import Dce.LocalStream.Bytes

/- The wakeups of a pair: who sleeps in a read or a write, and until what. -/

namespace Dce.LocalStream

open Coroutine List

variable {T β : Type*}

/-- No read sleeps over a byte or past the end of the stream, none that has got a byte
sleeps at all, and no write sleeps where there is room or nobody will read. -/
structure Awake (s : W T β) : Prop where
  reads : ∀ t e filled rest last asked retval lens,
    s.place t = .inside (.read e filled rest last asked retval lens) → filled = 0 ∧
      (s.status t = .blocked → contents (socket e s).m_readBuffer = [] ∧
        (socket e.other s).m_shutWrite = false ∧ (socket e.other s).m_state ≠ .CLOSED)
  writes : ∀ t e tot rest last message retval iovs,
    s.place t = .inside (.write e tot rest last message retval iovs) → s.status t = .blocked →
      maxBuffer ≤ (socket e.other s).m_readBufferSize ∧
      (socket e.other s).m_shutRead = false ∧ (socket e.other s).m_state ≠ .CLOSED

/-- A read on `e` that finds no byte waits for one. -/
structure Waits (e : Side) (s : W T β) : Prop where
  connected : (socket e s).m_state = .CONNECTED
  blocking : (socket e s).nonblock = false
  open' : (socket e.other s).m_shutWrite = false

/-- A write on `e` that finds no room waits for it. -/
structure Reaches (e : Side) (s : W T β) : Prop where
  connected : (socket e s).m_state = .CONNECTED
  takes : Takes (socket e.other s)

/-- `bufs` leaves no empty buffer in the queue that a write on `e` fills. -/
def Filling (e : Side) (bufs : List (List β)) (s : W T β) : Prop :=
  Reaches e s → 0 < room s e.other → ∀ buf ∈ bufs, buf ≠ []

/-- Each of `lens` is filled by the bytes at hand, or finds none of them. -/
def Filled (e : Side) (lens : List Nat) (s : W T β) : Prop :=
  Waits e s → Fits (available e s) lens

def PromptCall (s : W T β) : Op β → Prop
  | .write e buf => Filling e [buf] s
  | .sendmsg e _ iovs => Filling e iovs s
  | .read e count => Filled e [count] s
  | .recvmsg e lens => Filled e lens s
  | .shutdown e how =>
    (how ≠ .SHUT_RD → ∀ t filled rest last asked retval lens,
      s.place t = .inside (.read e.other filled rest last asked retval lens) → s.status t ≠ .blocked) ∧
    (how ≠ .SHUT_WR → ∀ t tot rest last message retval iovs,
      s.place t = .inside (.write e.other tot rest last message retval iovs) → s.status t ≠ .blocked)
  | _ => True

def PromptReturn (s : W T β) (interrupted : Bool) : Frame β → Prop
  | .write e _ _ _ _ _ iovs => Filling e iovs s
  | .read e _ rest last _ _ lens =>
    Filled e (if waitResult interrupted last s.now = .OK then rest :: lens else lens) s

/-- The steps of a run that keep clear of the sleeps which nobody ends: no empty buffer goes
into a queue with room, a read that may wait finds bytes for all of a buffer or none, and
no side is shut down against a thread that sleeps on the other. -/
def Prompt (s : W T β) : Act T (Op β) Bool → Prop
  | .call _ op => PromptCall s op
  | .dispatch t interrupted => ∀ frame, s.place t = .inside frame → PromptReturn s interrupted frame
  | _ => True

/-- What holds of a thread that sleeps in a wait: the change it waits for has not come, and
its entry is there for whoever makes it. -/
def Frame.Waiting (s : W T β) (u : T) : Frame β → Prop
  | .write e .. => (⟨u, writerMask⟩ : WaitQueueEntry T) ∈ (socket e s).waitQueue ∧
      (socket e s).m_state = .CONNECTED ∧ maxBuffer ≤ (socket e.other s).m_readBufferSize ∧
      (socket e.other s).m_shutRead = false
  | .read e .. => (⟨u, readerMask⟩ : WaitQueueEntry T) ∈ (socket e s).waitQueue ∧
      (socket e s).m_state = .CONNECTED ∧ contents (socket e s).m_readBuffer = [] ∧
      (socket e.other s).m_shutWrite = false

/-- A read that waits has got no byte. -/
def Frame.Started : Frame β → Prop
  | .write .. => True
  | .read _ filled .. => filled = 0

structure Watch (s : W T β) (u : T) : Prop where
  started : ∀ frame, s.place u = .inside frame → frame.Started
  asleep : ∀ frame, s.place u = .inside frame → s.status u = .blocked → frame.Waiting s u

structure Linked (s : W T β) : Prop where
  queues : ∀ e, Queue (socket e s)
  peer : ∀ e, (socket e s).m_state = .CONNECTED → (socket e s).m_peer = true
  both : ∀ e, (socket e s).m_state = .CONNECTED → (socket e.other s).m_state = .CONNECTED

theorem Linked.same {s' : W T β} (linked : Linked s) (queues : ∀ e, Queue (socket e s'))
    (same : ∀ e, (socket e s').m_state = (socket e s).m_state ∧ (socket e s').m_peer = (socket e s).m_peer) :
    Linked s' := by
  refine ⟨queues, fun e connected => ?_, fun e connected => ?_⟩
  · rw [(same e).1] at connected
    rw [(same e).2]
    exact linked.peer e connected
  · rw [(same e).1] at connected
    rw [(same e.other).1]
    exact linked.both e connected

/-- The invariant at a point where `t` runs. -/
structure Minding (t : T) (s : W T β) : Prop where
  linked : Linked s
  others : ∀ u, u ≠ t → Watch s u

structure Minded (s : W T β) : Prop where
  linked : Linked s
  watch : ∀ u, Watch s u

variable {s v : W T β} {t u : T} {e : Side}

/-- What `t` may change of a socket without a sleeper noticing. -/
structure Alike (t : T) (q r : SocketFd T β) : Prop where
  state : r.m_state = q.m_state
  peer : r.m_peer = q.m_peer
  buffer : r.m_readBuffer = q.m_readBuffer
  size : r.m_readBufferSize = q.m_readBufferSize
  shutRead : r.m_shutRead = q.m_shutRead
  shutWrite : r.m_shutWrite = q.m_shutWrite
  bytes : r.accepted = q.accepted ∧ r.delivered = q.delivered
  entries : ∀ u mask, u ≠ t → (⟨u, mask⟩ : WaitQueueEntry T) ∈ q.waitQueue → ⟨u, mask⟩ ∈ r.waitQueue

variable {q : SocketFd T β} {frame : Frame β} {last : Option Nat} {data : List β} {wq : Option (Option Nat)}
  {written : W T β × Outcome (List β)} {next : Int → W T β → W T β} {count rest : Nat} {lens : List Nat}
      {interrupted : Bool}

theorem Alike.queue {r : SocketFd T β} (alike : Alike t q r) (queue : Queue q) : Queue r := by
  obtain ⟨joined, fresh, size, flow, order⟩ := queue
  refine ⟨?_, ?_, ?_, ?_, ?_⟩
  · rwa [Attached, alike.state]
  · rwa [alike.buffer]
  · rw [alike.size, size, alike.buffer]
  · rwa [alike.state, alike.buffer, alike.bytes.1, alike.bytes.2]
  · rwa [alike.bytes.1, alike.bytes.2]

theorem Linked.alike (linked : Linked s) (alike : ∀ e, Alike t (socket e s) (socket e v)) : Linked v where
  queues e := (alike e).queue (linked.queues e)
  peer e connected := by
    rw [(alike e).state] at connected
    rw [(alike e).peer]
    exact linked.peer e connected
  both e connected := by
    rw [(alike e).state] at connected
    rw [(alike e.other).state]
    exact linked.both e connected

theorem Frame.Waiting.alike (waiting : frame.Waiting s u) (other : u ≠ t)
    (alike : ∀ e, Alike t (socket e s) (socket e v)) : frame.Waiting v u := by
  cases frame with
  | write e tot rest last message retval iovs =>
    obtain ⟨listed, connected, full, open'⟩ := waiting
    exact ⟨(alike e).entries u _ other listed, by rw [(alike e).state, connected],
      by rwa [(alike e.other).size], by rwa [(alike e.other).shutRead]⟩
  | read e filled rest last asked retval lens =>
    obtain ⟨listed, connected, empty, open'⟩ := waiting
    exact ⟨(alike e).entries u _ other listed, by rw [(alike e).state, connected],
      by rwa [(alike e).buffer], by rwa [(alike e.other).shutWrite]⟩

theorem Minding.step (minding : Minding t s) (linked : Linked v) (place : ∀ u, u ≠ t → v.place u = s.place u)
    (asleep : ∀ u, u ≠ t → v.status u = .blocked → s.status u = .blocked)
    (waiting : ∀ u frame, u ≠ t → s.place u = .inside frame → v.status u = .blocked → frame.Waiting s u →
      frame.Waiting v u) : Minding t v := by
  refine ⟨linked, fun u other => ⟨fun frame inside => ?_, fun frame inside sleeps => ?_⟩⟩
  · exact (minding.others u other).started frame (place u other ▸ inside)
  · rw [place u other] at inside
    exact waiting u frame other inside sleeps ((minding.others u other).asleep frame inside (asleep u other sleeps))

theorem Minding.calm (minding : Minding t s) (place : ∀ u, u ≠ t → v.place u = s.place u)
    (asleep : ∀ u, u ≠ t → v.status u = .blocked → s.status u = .blocked)
    (alike : ∀ e, Alike t (socket e s) (socket e v)) : Minding t v :=
  minding.step (minding.linked.alike alike) place asleep fun _ _ other _ _ waiting => waiting.alike other alike

theorem Alike.refl (t : T) (q : SocketFd T β) : Alike t q q :=
  ⟨rfl, rfl, rfl, rfl, rfl, rfl, ⟨rfl, rfl⟩, fun _ _ _ => id⟩

theorem Alike.set (alike : Alike t (socket e s) q) (f : Side) :
    Alike t (socket f s) (socket f (setSocket e q s)) := by
  rcases e.eq_or f with rfl | rfl
  · rw [socket_setSocket_self]
    exact alike
  · rw [socket_setSocket_other]
    exact .refl t _

variable [DecidableEq T]

/-- What a `Write` on `e` has left, where it ends or goes into its wait. -/
structure Wrote (t : T) (e : Side) (s : W T β) (written : W T β × Outcome (List β)) : Prop where
  minding : Minding t written.1
  reaches : Reaches e written.1 → Reaches e s
  less : room written.1 e.other ≤ room s e.other
  waits : ∀ tot rest last, written.2 = .waits tot rest last → Reaches e written.1 ∧ room written.1 e.other = 0

/-- What a `Read` on `e` has left, where it ends or goes into its wait. -/
structure Got (t : T) (e : Side) (lens : List Nat) (got : W T β × Outcome Nat) : Prop where
  minding : Minding t got.1
  filled : got.2 ≠ .returned 0 → Filled e lens got.1
  waits : ∀ filled rest last, got.2 = .waits filled rest last → filled = 0 ∧ Waits e got.1 ∧ available e got.1 = 0

section

variable (minding : Minding t s)
include minding

theorem Minding.rets (r : Result β) : Minded (s.ret t r) := by
  have after : Minding t (s.ret t r) :=
    minding.calm (fun u other => by simp [other]) (fun _ _ => id) fun e => .refl t _
  refine ⟨after.linked, fun u => ?_⟩
  by_cases mine : u = t
  · subst mine
    exact ⟨fun frame inside => by simp at inside, fun frame inside => by simp at inside⟩
  · exact after.others u mine

theorem Minding.sleeps {mask : List PollEvent} (started : frame.Started)
    (waiting : frame.Waiting (addWaitQueue t mask e s) t) :
    Minded (sleepOn t e mask frame last s) := by
  have sockets : ∀ f, socket f (sleepOn t e mask frame last s) = socket f (addWaitQueue t mask e s) := fun f =>
    socket_sleepOn ..
  have alike : ∀ f, Alike t (socket f s) (socket f (sleepOn t e mask frame last s)) := by
    intro f
    rw [sockets]
    refine Alike.set ?_ f
    exact ⟨rfl, rfl, rfl, rfl, rfl, rfl, ⟨rfl, rfl⟩, fun _ _ _ listed => mem_append_left _ listed⟩
  have after : Minding t (sleepOn t e mask frame last s) :=
    minding.calm (fun u other => by simp [other]) (fun u other => by simp [other]) alike
  refine ⟨after.linked, fun u => ?_⟩
  by_cases mine : u = t
  · subst mine
    refine ⟨fun frame' inside => ?_, fun frame' inside _ => ?_⟩
    · cases (show frame = frame' by simpa using inside)
      exact started
    · cases (show frame = frame' by simpa using inside)
      cases frame with
      | write f tot rest last message retval iovs =>
        simpa only [Frame.Waiting, sockets] using waiting
      | read f filled rest last asked retval lens =>
        simpa only [Frame.Waiting, sockets] using waiting
  · exact after.others u mine

theorem Minding.failing (err : Errno) : Minding t (setErr t err s) :=
  minding.calm (fun _ _ => rfl) (fun _ _ => id) fun _ => .refl t _

theorem Minding.dequeued : Minding t (removeWaitQueue t e s) := by
  refine minding.calm (fun _ _ => rfl) (fun _ _ => id) fun f => Alike.set ?_ f
  refine ⟨rfl, rfl, rfl, rfl, rfl, rfl, ⟨rfl, rfl⟩, fun u mask other listed => ?_⟩
  exact mem_filter.mpr ⟨listed, by simpa using other⟩

theorem Minding.filled (takes : Takes (socket e s)) (some : data ≠ []) : Minding t (fill s e t data) := by
  have other_side : socket e.other (fill s e t data) = socket e.other s := by
    simpa using socket_fill_other (w := s) (e := e.other) (t := t) data
  have state : ∀ f, (socket f (fill s e t data)).m_state = (socket f s).m_state ∧
      (socket f (fill s e t data)).m_peer = (socket f s).m_peer := by
    intro f
    rcases e.eq_or f with rfl | rfl
    · rw [socket_fill_self]
      exact ⟨rfl, rfl⟩
    · rw [other_side]
      exact ⟨rfl, rfl⟩
  have asleep : ∀ u, (fill s e t data).status u = .blocked → s.status u = .blocked := by
    intro u sleeps
    have before := wakeWaiters_asleep _ e u sleeps
    exact before
  have linked : Linked (fill s e t data) := by
    refine minding.linked.same (fun f => ?_) state
    rcases e.eq_or f with rfl | rfl
    · exact (minding.linked.queues _).filled takes some
    · rw [other_side]
      exact minding.linked.queues _
  refine minding.step linked (fun u _ => by simp) (fun u _ => asleep u) fun u frame other inside sleeps waiting => ?_
  cases frame with
  | write f tot rest last message retval iovs =>
    obtain ⟨listed, connected, full, open'⟩ := waiting
    rcases e.eq_or f with rfl | rfl
    · refine ⟨?_, ?_, ?_, ?_⟩
      · rw [socket_fill_self]; exact listed
      · rw [socket_fill_self]; exact connected
      · rw [other_side]; exact full
      · rw [other_side]; exact open'
    · rw [Side.other_other] at full open'
      refine ⟨?_, ?_, ?_, ?_⟩
      · rw [other_side]; exact listed
      · rw [other_side]; exact connected
      · rw [Side.other_other, socket_fill_self]; exact Nat.le_add_right_of_le full
      · rw [Side.other_other, socket_fill_self]; exact open'
  | read f filled rest last asked retval lens =>
    obtain ⟨listed, connected, empty, open'⟩ := waiting
    rcases e.eq_or f with rfl | rfl
    · refine absurd sleeps (wakeWaiters_wakes _ _ u (?_ : (⟨u, readerMask⟩ : WaitQueueEntry T) ∈ _)
        (by simp [readerMask]))
      rw [socket_addMoved, socket_setSocket_self]
      exact listed
    · rw [Side.other_other] at open'
      refine ⟨?_, ?_, ?_, ?_⟩
      · rw [other_side]; exact listed
      · rw [other_side]; exact connected
      · rw [other_side]; exact empty
      · rw [Side.other_other, socket_fill_self]; exact open'

theorem Minding.drained (attached : Attached (socket e s)) (n : Nat) : Minding t (drain s e t n) := by
  have alive : (socket e s).m_state ≠ .CLOSED := by
    rcases attached with connected | remote
    · simp [connected]
    · simp [remote]
  have state : ∀ f, (socket f (drain s e t n)).m_state = (socket f s).m_state ∧
      (socket f (drain s e t n)).m_peer = (socket f s).m_peer := by
    intro f
    rcases e.eq_or f with rfl | rfl
    · rw [socket_drain_self]
      exact ⟨rfl, rfl⟩
    · rw [socket_drain_other]
      exact ⟨rfl, rfl⟩
  have asleep : ∀ u, (drain s e t n).status u = .blocked → s.status u = .blocked := by
    intro u sleeps
    unfold drain at sleeps
    split at sleeps
    · have before := wakeWaiters_asleep _ e.other u sleeps
      exact before
    · exact sleeps
  have linked : Linked (drain s e t n) := by
    refine minding.linked.same (fun f => ?_) state
    rcases e.eq_or f with rfl | rfl
    · exact (minding.linked.queues _).drained alive n
    · rw [socket_drain_other]
      exact minding.linked.queues _
  refine minding.step linked (fun u _ => by simp) (fun u _ => asleep u) fun u frame other inside sleeps waiting => ?_
  cases frame with
  | write f tot rest last message retval iovs =>
    obtain ⟨listed, connected, full, open'⟩ := waiting
    rcases e.eq_or f with rfl | rfl
    · refine ⟨?_, ?_, ?_, ?_⟩
      · rw [socket_drain_self]; exact listed
      · rw [socket_drain_self]; exact connected
      · rw [socket_drain_other]; exact full
      · rw [socket_drain_other]; exact open'
    · have peer : (socket e s).m_peer = true := by
        have both := minding.linked.both _ connected
        rw [Side.other_other] at both
        exact minding.linked.peer e both
      unfold drain at sleeps
      rw [if_pos peer] at sleeps
      refine absurd sleeps (wakeWaiters_wakes _ _ u (?_ : (⟨u, writerMask⟩ : WaitQueueEntry T) ∈ _)
        (by simp [writerMask]))
      simpa [takeData] using listed
  | read f filled rest last asked retval lens =>
    obtain ⟨listed, connected, empty, open'⟩ := waiting
    rcases e.eq_or f with rfl | rfl
    · have nothing : contents (readData (socket f s).m_readBuffer n).1 = [] := by
        rw [(minding.linked.queues f).fresh.readData_rest, empty, drop_nil]
      refine ⟨?_, ?_, ?_, ?_⟩
      · rw [socket_drain_self]; exact listed
      · rw [socket_drain_self]; exact connected
      · rw [socket_drain_self]; exact nothing
      · rw [socket_drain_other]; exact open'
    · rw [Side.other_other] at open'
      refine ⟨?_, ?_, ?_, ?_⟩
      · rw [socket_drain_other]; exact listed
      · rw [socket_drain_other]; exact connected
      · rw [socket_drain_other]; exact empty
      · rw [Side.other_other, socket_drain_self]; exact open'

theorem Minding.sleepsWriting (reaches : Reaches e s) (full : room s e.other = 0)
    (tot : Nat) (rest message : List β) (last : Option Nat) (retval : Int) (iovs : List (List β)) :
    Minded (sleepOn t e writerMask (.write e tot rest last message retval iovs) last s) := by
  refine minding.sleeps trivial ⟨?_, ?_, ?_, ?_⟩
  · rw [addWaitQueue, socket_setSocket_self]
    exact mem_append_right _ (mem_singleton_self _)
  · rw [addWaitQueue, socket_setSocket_self]
    exact reaches.connected
  · rw [addWaitQueue, socket_setSocket_other]
    exact Nat.le_of_sub_eq_zero full
  · rw [addWaitQueue, socket_setSocket_other]
    exact reaches.takes.1

theorem Minding.sleepsReading (waits : Waits e s) (empty : available e s = 0)
    (rest asked : Nat) (last : Option Nat) (retval : Int) (lens : List Nat) :
    Minded (sleepOn t e readerMask (.read e 0 rest last asked retval lens) last s) := by
  refine minding.sleeps rfl ⟨?_, ?_, ?_, ?_⟩
  · rw [addWaitQueue, socket_setSocket_self]
    exact mem_append_right _ (mem_singleton_self _)
  · rw [addWaitQueue, socket_setSocket_self]
    exact waits.connected
  · rw [addWaitQueue, socket_setSocket_self]
    exact eq_nil_of_length_eq_zero empty
  · rw [addWaitQueue, socket_setSocket_other]
    exact waits.open'

omit [DecidableEq T] in
theorem Minding.unwritten {outcome : Outcome (List β)}
    (ends : ∀ tot rest last, outcome ≠ .waits tot rest last) : Wrote t e s (s, outcome) :=
  ⟨minding, id, Nat.le_refl _, fun tot rest last waits => absurd waits (ends tot rest last)⟩

omit minding in
omit [DecidableEq T] in
theorem shortReturn_ends {L : Type*} (err : Errno) (sofar : Nat) (n : Nat) (left : L) (last : Option Nat) :
    shortReturn err sofar ≠ .waits n left last := by
  unfold shortReturn
  split <;> simp

omit minding in
theorem reaches_filled (reaches : Reaches e (fill s e.other t data)) : Reaches e s := by
  obtain ⟨connected, takes⟩ := reaches
  rw [socket_fill_other] at connected
  rw [socket_fill_self] at takes
  exact ⟨connected, takes⟩

theorem Minding.writes {tot : Nat} {rest : List β}
    (connected : (socket e s).m_state = .CONNECTED) (filling : Filling e [rest] s) :
    Wrote t e s (writeLoop t e tot rest wq s) := by
  by_cases takes : Takes (socket e.other s)
  · have reaches : Reaches e s := ⟨connected, takes⟩
    by_cases full : room s e.other = 0
    · rw [writeLoop_none takes full]
      exact ⟨minding, id, le_rfl, fun _ _ _ _ => ⟨reaches, full⟩⟩
    · have some : rest ≠ [] := filling reaches (by omega) rest (mem_singleton_self _)
      by_cases fits : rest.length ≤ room s e.other
      · rw [writeLoop_fits takes some fits]
        refine ⟨minding.filled takes some, reaches_filled, ?_, fun _ _ _ waits => by cases waits⟩
        rw [room_fill]
        exact Nat.sub_le ..
      · have part : rest.take (room s e.other) ≠ [] := by
          rw [← length_pos_iff, length_take]
          omega
        have none : room (fill s e.other t (rest.take (room s e.other))) e.other = 0 := by
          rw [room_fill, length_take]
          omega
        rw [writeLoop_part takes connected (by omega) (by omega)]
        refine ⟨minding.filled takes part, reaches_filled, ?_, fun _ _ _ _ => ⟨⟨?_, takes.filled⟩, none⟩⟩
        · rw [none]
          exact Nat.zero_le _
        · rw [socket_fill_other]
          exact connected
  · rw [writeLoop_refused takes]
    exact minding.unwritten (shortReturn_ends .EPIPE tot)

theorem Minding.writeCall {buf : List β} (filling : Filling e [buf] s) : Wrote t e s (write t e buf s) := by
  unfold write
  dsimp only
  split
  · split
    · exact minding.unwritten nofun
    · exact minding.unwritten nofun
  next connected =>
    split
    · exact minding.unwritten nofun
    · exact minding.writes (by simpa using connected) filling

theorem Minding.writesOn (tot : Nat) (rest : List β) (last : Option Nat)
    (interrupted : Bool) : Wrote t e s (writeOn t e tot rest last interrupted s) := by
  have after : Wrote t e s (removeWaitQueue t e s, Outcome.returned 0 (L := List β)) := by
    obtain ⟨list, same⟩ := removeWaitQueue_same s e e t
    refine ⟨minding.dequeued, fun ⟨connected, takes⟩ => ⟨?_, removeWaitQueue_takes.mp takes⟩,
      Nat.le_of_eq removeWaitQueue_room, fun _ _ _ waits => by cases waits⟩
    rwa [same] at connected
  have ends : ∀ {outcome : Outcome (List β)}, (∀ n rest last, outcome ≠ .waits n rest last) →
      Wrote t e s (removeWaitQueue t e s, outcome) := fun ends =>
    ⟨after.minding, after.reaches, after.less, fun n rest last waits => absurd waits (ends n rest last)⟩
  unfold writeOn
  dsimp only
  split
  · split
    next on =>
      have data := length_pos_iff.mp on.1
      have wrote : Wrote t e (removeWaitQueue t e s) (writeLoop t e tot rest (some last) (removeWaitQueue t e s)) :=
        after.minding.writes on.2 fun _ _ buf mem => by rwa [mem_singleton.mp mem]
      exact ⟨wrote.minding, fun reaches => after.reaches (wrote.reaches reaches),
        le_trans wrote.less after.less, wrote.waits⟩
    next =>
      split
      · exact ends nofun
      · exact ends nofun
  · exact ends (shortReturn_ends .EINTR tot)
  · exact ends (shortReturn_ends .EAGAIN tot)

omit minding in
omit [DecidableEq T] in
theorem Wrote.filling (wrote : Wrote t e s written)
    {bufs : List (List β)} (filling : Filling e bufs s) : Filling e bufs written.1 := fun reaches some =>
  filling (wrote.reaches reaches) (Nat.lt_of_lt_of_le some wrote.less)

omit minding in
theorem Wrote.goesOn (wrote : Wrote t e s written) {iovs : List (List β)} (filling : Filling e iovs s)
    (more : ∀ (n : Int) (v : W T β), Minding t v → Filling e iovs v → Minded (next n v))
    (message : List β) (retval : Int) : Minded (afterWrite t e message retval iovs next written) := by
  have filling := wrote.filling filling
  obtain ⟨v, outcome⟩ := written
  cases outcome with
  | returned n =>
    unfold afterWrite
    dsimp only
    split
    · refine Minding.rets ?_ _
      refine wrote.minding.calm (fun _ _ => rfl) (fun _ _ => id) fun f => Alike.set ?_ f
      exact ⟨rfl, rfl, rfl, rfl, rfl, rfl, ⟨rfl, rfl⟩, fun _ _ _ => id⟩
    · exact more _ _ wrote.minding filling
  | failed err =>
    exact more _ _ (wrote.minding.failing err) fun reaches => filling ⟨reaches.connected, reaches.takes⟩
  | waits tot rest last =>
    obtain ⟨reaches, full⟩ := wrote.waits tot rest last rfl
    exact wrote.minding.sleepsWriting reaches full tot rest message last retval iovs

theorem Minding.sends (message : List β) (iovs : List (List β)) (retval : Int)
    (filling : Filling e iovs s) : Minded (sendmsgLoop t e message iovs retval s) := by
  induction iovs generalizing s retval with
  | nil =>
    refine Minding.rets ?_ _
    refine minding.calm (fun _ _ => rfl) (fun _ _ => id) fun f => Alike.set ?_ f
    exact ⟨rfl, rfl, rfl, rfl, rfl, rfl, ⟨rfl, rfl⟩, fun _ _ _ => id⟩
  | cons buf iovs ih =>
    have first : Filling e [buf] s := fun reaches some other mem =>
      filling reaches some other (mem_cons.mpr (.inl (mem_singleton.mp mem)))
    have rest : Filling e iovs s := fun reaches some other mem =>
      filling reaches some other (mem_cons_of_mem _ mem)
    exact (minding.writeCall first).goesOn rest (fun n v there filling => ih there n filling) message retval

omit minding in
omit [DecidableEq T] in
theorem fits_zero (lens : List Nat) : Fits 0 lens := by
  cases lens with
  | nil => trivial
  | cons len lens => exact .inr (.inl rfl)

omit minding in
theorem waits_drained {n : Nat} (waits : Waits e (drain s e t n)) : Waits e s := by
  obtain ⟨connected, blocking, open'⟩ := waits
  rw [socket_drain_self] at connected blocking
  rw [socket_drain_other] at open'
  exact ⟨connected, blocking, open'⟩

omit minding in
omit [DecidableEq T] in
theorem Linked.connected (linked : Linked s) (readable : Readable (socket e s)) (none : available e s = 0) :
    (socket e s).m_state = .CONNECTED := by
  rcases readable with connected | ⟨-, size⟩
  · exact connected
  · rw [(linked.queues e).size] at size
    unfold available at none
    omega

omit minding in
omit [DecidableEq T] in
theorem Linked.readStop_waits (linked : Linked s) {filled : Nat}
    (connected : (socket e s).m_state = .CONNECTED) {n : Nat}
    (waits : readStop e filled count wq s = .waits n rest last) : n = filled ∧ Waits e s := by
  unfold readStop at waits
  split at waits
  · exact absurd waits (shortReturn_ends .EAGAIN filled n rest last)
  next blocking =>
    split at waits
    · cases waits
    next going =>
      refine ⟨?_, connected, by simpa using blocking, ?_⟩
      · unfold waitUntil at waits
        split at waits
        · split at waits
          · exact absurd waits (shortReturn_ends .EAGAIN filled n rest last)
          · cases waits
            rfl
        · cases waits
          rfl
      · have peer := linked.peer e connected
        simpa [peer] using going

theorem Minding.reads (filled : Filled e (count :: lens) s) : Got t e lens (readLoop t e 0 count wq s) := by
  have queue := minding.linked.queues e
  by_cases on : 0 < count ∧ Readable (socket e s)
  · obtain ⟨positive, readable⟩ := on
    have attached : Attached (socket e s) := by
      rcases readable with connected | remote
      · exact .inl connected
      · exact .inr remote.1
    have drained := minding.drained attached count
    have out : (readData (socket e s).m_readBuffer count).2.length = min count (available e s) := by
      rw [queue.fresh.readData_out, length_take, available]
    have after : available e (drain s e t count) = available e s - count := by
      rw [available, socket_drain_self]
      rw [queue.fresh.readData_rest, length_drop, available]
    rcases Nat.lt_or_ge (available e s) count with part | enough
    · rcases Nat.eq_zero_or_pos (available e s) with none | some
      · have nothing : (readData (socket e s).m_readBuffer count).2 = [] := by
          refine eq_nil_of_length_eq_zero ?_
          rw [out, none, Nat.min_zero]
        rw [readLoop_none positive readable nothing]
        refine ⟨minding, fun _ _ => ?_, fun n rest last waits => ?_⟩
        · rw [none]
          exact fits_zero lens
        · obtain ⟨zero, waits⟩ := minding.linked.readStop_waits (minding.linked.connected readable none) waits
          exact ⟨zero, waits, none⟩
      · -- a read that gets a part of what it wants does not wait here, so it has not to
        have busy : ¬ Waits e s := by
          intro waits
          rcases filled waits with empty | zero | ⟨enough, -⟩
          · omega
          · omega
          · omega
        have nonempty : (readData (socket e s).m_readBuffer count).2 ≠ [] := by
          rw [← length_pos_iff]
          omega
        rw [readLoop_part positive readable nonempty (by rw [out]; omega)]
        refine ⟨drained, fun _ waits => absurd (waits_drained waits) busy, fun n rest last waits => ?_⟩
        split at waits
        next still =>
          have connected := drained.linked.connected still (by omega)
          exact absurd (waits_drained (drained.linked.readStop_waits connected waits).2) busy
        next => cases waits
    · rw [readLoop_enough positive readable (by rw [out]; omega)]
      refine ⟨drained, fun _ waits => ?_, fun n rest last waits => by cases waits⟩
      rw [after]
      rcases filled (waits_drained waits) with empty | zero | ⟨-, fits⟩
      · omega
      · omega
      · exact fits
  · rw [readLoop_idle on]
    exact ⟨minding, fun some => absurd rfl some, fun n rest last waits => by cases waits⟩

theorem Minding.readCall (filled : Filled e (count :: lens) s) : Got t e lens (read t e count s) := by
  unfold read
  dsimp only
  split
  next detached =>
    refine ⟨minding, fun _ waits => absurd waits.connected detached.1, fun n rest last waits => by cases waits⟩
  · exact minding.reads filled

omit minding in
theorem filled_dequeued (filled : Filled e lens s) : Filled e lens (removeWaitQueue t e s) := by
  obtain ⟨list, same⟩ := removeWaitQueue_same s e e t
  obtain ⟨list', same'⟩ := removeWaitQueue_same s e e.other t
  rintro ⟨connected, blocking, open'⟩
  rw [same] at connected blocking
  rw [same'] at open'
  rw [available, same]
  exact filled ⟨connected, blocking, open'⟩

theorem Minding.readsOn
    (filled : Filled e (if waitResult interrupted last s.now = .OK then rest :: lens else lens) s) :
    Got t e lens (readOn t e 0 rest last interrupted s) := by
  have after : Minding t (removeWaitQueue t e s) := minding.dequeued
  have ends : ∀ err : Errno, Filled e lens s → Got t e lens (removeWaitQueue t e s, shortReturn err 0) :=
    fun err filled => ⟨after, fun _ => filled_dequeued filled, fun n rest last waits => by cases waits⟩
  unfold readOn
  dsimp only
  rw [removeWaitQueue_now]
  cases result : waitResult interrupted last s.now with
  | OK =>
    rw [if_pos result] at filled
    exact after.reads (filled_dequeued filled)
  | INTERRUPTED =>
    rw [if_neg (by simp [result])] at filled
    exact ends .EINTR filled
  | TIMEOUT =>
    rw [if_neg (by simp [result])] at filled
    exact ends .EAGAIN filled

omit minding in
theorem Got.goesOn {got : W T β × Outcome Nat} (done : Got t e lens got)
    (more : ∀ (n : Int) (v : W T β), Minding t v → Filled e lens v → Minded (next n v))
    (asked : Nat) (retval : Int) : Minded (afterRead t e asked retval lens next got) := by
  obtain ⟨v, outcome⟩ := got
  cases outcome with
  | returned n =>
    unfold afterRead
    dsimp only
    split
    · refine Minding.rets ?_ _
      refine done.minding.calm (fun _ _ => rfl) (fun _ _ => id) fun f => Alike.set ?_ f
      exact ⟨rfl, rfl, rfl, rfl, rfl, rfl, ⟨rfl, rfl⟩, fun _ _ _ => id⟩
    next some => exact more _ _ done.minding (done.filled (by simpa using some))
  | failed err =>
    refine more _ _ (done.minding.failing err) fun waits => ?_
    exact done.filled nofun ⟨waits.connected, waits.blocking, waits.open'⟩
  | waits filled rest last =>
    obtain ⟨rfl, waits, empty⟩ := done.waits filled rest last rfl
    exact done.minding.sleepsReading waits empty rest asked last retval lens

theorem Minding.receives (asked : Nat) (lens : List Nat) (retval : Int)
    (filled : Filled e lens s) : Minded (recvmsgLoop t e asked lens retval s) := by
  induction lens generalizing s retval with
  | nil =>
    refine Minding.rets ?_ _
    refine minding.calm (fun _ _ => rfl) (fun _ _ => id) fun f => Alike.set ?_ f
    exact ⟨rfl, rfl, rfl, rfl, rfl, rfl, ⟨rfl, rfl⟩, fun _ _ _ => id⟩
  | cons len lens ih =>
    exact (minding.readCall filled).goesOn (fun n v there filled => ih there n filled) asked retval

omit [DecidableEq T] in
theorem Minding.flags (queue : Queue q) (same : q.m_state = (socket e s).m_state ∧ q.m_peer = (socket e s).m_peer ∧
      q.m_readBuffer = (socket e s).m_readBuffer ∧ q.m_readBufferSize = (socket e s).m_readBufferSize ∧
      q.waitQueue = (socket e s).waitQueue)
    (reads : q.m_shutWrite = (socket e s).m_shutWrite ∨ ∀ u filled rest last asked retval lens,
      s.place u = .inside (.read e.other filled rest last asked retval lens) → s.status u ≠ .blocked)
    (writes : q.m_shutRead = (socket e s).m_shutRead ∨ ∀ u tot rest last message retval iovs,
      s.place u = .inside (.write e.other tot rest last message retval iovs) → s.status u ≠ .blocked) :
    Minding t (setSocket e q s) := by
  obtain ⟨state, peer, buffer, size, entries⟩ := same
  have states : ∀ f, (socket f (setSocket e q s)).m_state = (socket f s).m_state ∧
      (socket f (setSocket e q s)).m_peer = (socket f s).m_peer := by
    intro f
    rcases e.eq_or f with rfl | rfl
    · rw [socket_setSocket_self]
      exact ⟨state, peer⟩
    · rw [socket_setSocket_other]
      exact ⟨rfl, rfl⟩
  have linked : Linked (setSocket e q s) := by
    refine ⟨fun f => ?_, fun f connected => ?_, fun f connected => ?_⟩
    · rcases e.eq_or f with rfl | rfl
      · rw [socket_setSocket_self]
        exact queue
      · rw [socket_setSocket_other]
        exact minding.linked.queues _
    · rw [(states f).1] at connected
      rw [(states f).2]
      exact minding.linked.peer f connected
    · rw [(states f).1] at connected
      rw [(states f.other).1]
      exact minding.linked.both f connected
  refine minding.step linked (fun _ _ => rfl) (fun _ _ => id) fun u frame other inside sleeps waiting => ?_
  cases frame with
  | write f tot rest last message retval iovs =>
    obtain ⟨listed, connected, full, open'⟩ := waiting
    rcases e.eq_or f with rfl | rfl
    · refine ⟨?_, ?_, ?_, ?_⟩
      · rw [socket_setSocket_self, entries]; exact listed
      · rw [socket_setSocket_self, state]; exact connected
      · rw [socket_setSocket_other]; exact full
      · rw [socket_setSocket_other]; exact open'
    · rw [Side.other_other] at full open'
      refine ⟨?_, ?_, ?_, ?_⟩
      · rw [socket_setSocket_other]; exact listed
      · rw [socket_setSocket_other]; exact connected
      · rw [Side.other_other, socket_setSocket_self, size]; exact full
      · rcases writes with same | none
        · rw [Side.other_other, socket_setSocket_self, same]
          exact open'
        · exact absurd sleeps (none u tot rest last message retval iovs inside)
  | read f filled rest last asked retval lens =>
    obtain ⟨listed, connected, empty, open'⟩ := waiting
    rcases e.eq_or f with rfl | rfl
    · refine ⟨?_, ?_, ?_, ?_⟩
      · rw [socket_setSocket_self, entries]; exact listed
      · rw [socket_setSocket_self, state]; exact connected
      · rw [socket_setSocket_self, buffer]; exact empty
      · rw [socket_setSocket_other]; exact open'
    · rw [Side.other_other] at open'
      refine ⟨?_, ?_, ?_, ?_⟩
      · rw [socket_setSocket_other]; exact listed
      · rw [socket_setSocket_other]; exact connected
      · rw [socket_setSocket_other]; exact empty
      · rcases reads with same | none
        · rw [Side.other_other, socket_setSocket_self, same]
          exact open'
        · exact absurd sleeps (none u filled rest last asked retval lens inside)

theorem Minding.shuts (how : How) (reads : how ≠ .SHUT_RD → ∀ u filled rest last asked retval lens,
      s.place u = .inside (.read e.other filled rest last asked retval lens) → s.status u ≠ .blocked)
    (writes : how ≠ .SHUT_WR → ∀ u tot rest last message retval iovs,
      s.place u = .inside (.write e.other tot rest last message retval iovs) → s.status u ≠ .blocked) :
    Minded (shutdown t e how s) := by
  have queue := minding.linked.queues e
  unfold shutdown
  dsimp only
  split
  · exact (minding.failing .ENOTCONN).rets _
  next =>
    cases how with
    | SHUT_RD =>
      refine Minding.rets ?_ _
      refine minding.flags ?_ ⟨rfl, rfl, rfl, rfl, rfl⟩ (.inl rfl) (.inr (writes nofun))
      exact ⟨queue.joined, queue.fresh, queue.size, queue.flow, queue.order⟩
    | SHUT_WR =>
      refine Minding.rets ?_ _
      refine minding.flags ?_ ⟨rfl, rfl, rfl, rfl, rfl⟩ (.inr (reads nofun)) (.inl rfl)
      exact ⟨queue.joined, queue.fresh, queue.size, queue.flow, queue.order⟩
    | SHUT_RDWR =>
      refine Minding.rets ?_ _
      refine minding.flags ?_ ⟨rfl, rfl, rfl, rfl, rfl⟩ (.inr (reads nofun)) (.inr (writes nofun))
      exact ⟨queue.joined, queue.fresh, queue.size, queue.flow, queue.order⟩

omit minding in
omit [DecidableEq T] in
theorem Watch.listed (watch : Watch s u) (inside : s.place u = .inside frame)
    (sleeps : s.status u = .blocked) : ∃ e mask, (⟨u, mask⟩ : WaitQueueEntry T) ∈ (socket e s).waitQueue ∧
      (socket e s).m_state = .CONNECTED ∧ PollEvent.POLLHUP ∈ mask := by
  have waiting := watch.asleep frame inside sleeps
  cases frame with
  | write e tot rest last message retval iovs =>
    exact ⟨e, writerMask, waiting.1, waiting.2.1, by simp [writerMask]⟩
  | read e filled rest last asked retval lens =>
    exact ⟨e, readerMask, waiting.1, waiting.2.1, by simp [readerMask]⟩

theorem Minding.closes : Minded (close t e s) := by
  have queues := minding.linked.queues
  unfold close
  split
  next connected =>
    have both := minding.linked.both e connected
    have left : peerClosed e.other s = wakeWaiters .POLLHUP e.other
        (setSocket e.other { socket e.other s with m_peer := false, m_state := .REMOTECLOSED } s) := by
      unfold peerClosed
      rw [if_pos both]
    have mine : socket e (clearAll e true (peerClosed e.other s)) = { socket e s with
        m_state := .CLOSED, m_peer := false, m_readBuffer := [], m_readBufferSize := 0 } := by
      rw [left]
      simp [clearAll]
    have yours : socket e.other (clearAll e true (peerClosed e.other s)) = { socket e.other s with
        m_peer := false, m_state := .REMOTECLOSED } := by
      rw [left]
      simp [clearAll]
    have linked : Linked (clearAll e true (peerClosed e.other s)) := by
      refine ⟨fun f => ?_, fun f on => ?_, fun f on => ?_⟩
      · rcases e.eq_or f with rfl | rfl
        · rw [mine]
          exact (queues _).cleared
        · rw [yours]
          exact (queues _).abandoned both
      all_goals
        exfalso
        rcases e.eq_or f with rfl | rfl
        · simp [mine] at on
        · simp [yours] at on
    refine Minding.rets ?_ _
    have place : (clearAll e true (peerClosed e.other s)).place = s.place := by
      rw [left]
      simp [clearAll]
    -- what is asleep at the end was in one of the two lists, both of which were woken
    have asleep : ∀ u, (clearAll e true (peerClosed e.other s)).status u = .blocked →
        (peerClosed e.other s).status u = .blocked ∧ s.status u = .blocked := by
      intro u sleeps
      have before := wakeWaiters_asleep _ e u sleeps
      refine ⟨before, ?_⟩
      rw [left] at before
      have first := wakeWaiters_asleep _ e.other u before
      exact first
    refine minding.step linked (fun u _ => by rw [place]) (fun u _ sleeps => (asleep u sleeps).2)
      fun u frame other inside sleeps _ => ?_
    obtain ⟨f, mask, listed, -, hup⟩ := (minding.others u other).listed inside (asleep u sleeps).2
    exfalso
    rcases e.eq_or f with rfl | rfl
    · refine wakeWaiters_wakes _ f u ?_ hup sleeps
      rw [left]
      simpa using listed
    · have still := (asleep u sleeps).1
      rw [left] at still
      refine wakeWaiters_wakes _ e.other u ?_ hup still
      rw [socket_setSocket_self]
      exact listed
  next remote =>
    have off : ∀ f, (socket f s).m_state ≠ .CONNECTED := by
      intro f on
      rcases e.eq_or f with rfl | rfl
      · simp [remote] at on
      · have both := minding.linked.both _ on
        rw [Side.other_other, remote] at both
        cases both
    refine Minding.rets ?_ _
    refine minding.step ⟨fun f => ?_, fun f on => ?_, fun f on => ?_⟩ (fun _ _ => rfl) (fun _ _ => id)
      fun u frame other inside sleeps _ => ?_
    · rcases e.eq_or f with rfl | rfl
      · simpa [clearAll] using (queues f).cleared
      · simpa [clearAll] using queues e.other
    · exfalso
      rcases e.eq_or f with rfl | rfl
      · simp [clearAll] at on
      · exact off e.other (by simpa [clearAll] using on)
    · exfalso
      rcases e.eq_or f with rfl | rfl
      · simp [clearAll] at on
      · exact off e.other (by simpa [clearAll] using on)
    · obtain ⟨f, mask, -, on, -⟩ := (minding.others u other).listed inside sleeps
      exact absurd on (off f)
  next => exact minding.rets _

end

theorem Minded.enter (minded : Minded s) {op : Op β} (prompt : PromptCall s op) :
    Minded (LocalStream.enter t op s) := by
  have before : Minding t s := ⟨minded.linked, fun u _ => minded.watch u⟩
  have minding : Minding t (clearMoved t s) := before.calm (fun _ _ => rfl) (fun _ _ => id) fun _ => .refl t _
  have filling : ∀ {e bufs}, Filling e bufs s → Filling e bufs (clearMoved t s) := fun filling reaches =>
    filling ⟨reaches.connected, reaches.takes⟩
  have filled : ∀ {e lens}, Filled e lens s → Filled e lens (clearMoved t s) := fun filled waits =>
    filled ⟨waits.connected, waits.blocking, waits.open'⟩
  unfold LocalStream.enter
  cases op with
  | write e buf => exact minding.sends _ [buf] 0 (filling prompt)
  | sendmsg e named iovs =>
    dsimp only
    unfold sendmsg
    split
    · have failed : Minded (sendmsgLoop t e iovs.flatten [] (-1) (setErr t .EISCONN (clearMoved t s))) :=
        (minding.failing .EISCONN).sends _ [] (-1) fun _ _ buf mem => absurd mem not_mem_nil
      exact failed
    · exact minding.sends iovs.flatten iovs 0 (filling prompt)
  | read e count => exact minding.receives _ [count] 0 (filled prompt)
  | recvmsg e lens => exact minding.receives _ lens 0 (filled prompt)
  | shutdown e how => exact minding.shuts how prompt.1 prompt.2
  | close e => exact minding.closes
  | setfl e nonblock =>
    refine Minding.rets ?_ _
    refine minding.calm (fun _ _ => rfl) (fun _ _ => id) fun f => Alike.set ?_ f
    exact ⟨rfl, rfl, rfl, rfl, rfl, rfl, ⟨rfl, rfl⟩, fun _ _ _ => id⟩
  | setTimeouts e send recv =>
    refine Minding.rets ?_ _
    refine minding.calm (fun _ _ => rfl) (fun _ _ => id) fun f => Alike.set ?_ f
    exact ⟨rfl, rfl, rfl, rfl, rfl, rfl, ⟨rfl, rfl⟩, fun _ _ _ => id⟩

theorem Minded.resume (minded : Minded s) (inside : s.place t = .inside frame)
    (prompt : PromptReturn s interrupted frame) :
    Minded (LocalStream.resume t frame interrupted (s.give t)) := by
  have started := (minded.watch t).started frame inside
  have before : Minding t s := ⟨minded.linked, fun u _ => minded.watch u⟩
  have minding : Minding t (s.give t) := before.calm (fun _ _ => rfl)
    (fun u other sleeps => by simpa [other] using sleeps) fun _ => .refl t _
  cases frame with
  | write e tot rest last message retval iovs =>
    have filling : Filling e iovs (s.give t) := fun reaches => prompt ⟨reaches.connected, reaches.takes⟩
    exact (minding.writesOn tot rest last interrupted).goesOn filling
      (fun n v there filling => there.sends message iovs n filling) message retval
  | read e filled rest last asked retval lens =>
    cases (show filled = 0 from started)
    have finds : Filled e (if waitResult interrupted last (s.give t).now = .OK then rest :: lens else lens)
        (s.give t) := fun waits => prompt ⟨waits.connected, waits.blocking, waits.open'⟩
    exact (minding.readsOn finds).goesOn (fun n v there filled => there.receives asked lens n filled) asked retval

theorem minded_of_joined (first : (program T β).Start s) : Minded s := by
  have joined : Pair.Joined s.shared := first.shared
  refine ⟨⟨fun e => ?_, fun e _ => joined.peer e, fun e _ => joined.state e.other⟩, fun u => ⟨?_, ?_⟩⟩
  · have buffer : (socket e s).m_readBuffer = [] := joined.buffer e
    have size : (socket e s).m_readBufferSize = 0 := joined.size e
    have accepted : (socket e s).accepted = [] := joined.accepted e
    have delivered : (socket e s).delivered = [] := joined.delivered e
    refine ⟨.inl (.inl (joined.state e)), by simp [buffer, Fresh], by simp [buffer, size], fun _ => ?_, ?_⟩
    · simp [accepted, delivered, buffer, Stream.Conserved]
    · simp [delivered]
  · exact fun frame inside => by simp [first.own u] at inside
  · exact fun frame inside => by simp [first.own u] at inside

omit [DecidableEq T] in
theorem Minded.idle (minded : Minded s) (idle : Program.Idle s v) : Minded v := by
  have alike : ∀ (t : T) e, Alike t (socket e s) (socket e v) := fun t e => by
    rw [socket, socket, idle.shared]
    exact .refl t _
  have linked : Linked v := by
    refine ⟨fun e => ?_, fun e => ?_, fun e => ?_⟩
    all_goals
      unfold socket
      rw [idle.shared]
    · exact minded.linked.queues e
    · exact minded.linked.peer e
    · exact minded.linked.both e
  refine ⟨linked, fun u => ⟨fun frame inside => ?_, fun frame inside sleeps => ?_⟩⟩
  · exact (minded.watch u).started frame (idle.place ▸ inside)
  · rw [idle.place] at inside
    have before : s.status u = .blocked := by
      rcases idle.asleep u sleeps with asleep | ⟨r, own⟩
      · exact asleep
      · rw [own] at inside
        cases inside
    have waiting := (minded.watch u).asleep frame inside before
    cases frame with
    | write e tot rest last message retval iovs =>
      simpa only [Frame.Waiting, socket, idle.shared] using waiting
    | read e filled rest last asked retval lens =>
      simpa only [Frame.Waiting, socket, idle.shared] using waiting

theorem minded_of_reach (reach : (machine T β).ReachBy Prompt s) : Minded s := by
  refine reach.invariant (fun s first => minded_of_joined (s := s) first) fun s a v minded prompt run => ?_
  rcases Program.step_cases run with ⟨t, op, -, rfl, -, -, rfl⟩ | ⟨t, interrupted, frame, rfl, -, -,
    inside, rfl⟩ | idle
  · exact minded.enter prompt
  · exact minded.resume inside (prompt frame inside)
  · exact minded.idle idle

/-- In the runs along `C` nobody sleeps for what has come. -/
def KeepsAwake (T β : Type*) [DecidableEq T] (C : W T β → Act T (Op β) Bool → Prop) : Prop :=
  ∀ s, (machine T β).ReachBy C s → Awake s

theorem keepsAwake_of_prompt (T β : Type*) [DecidableEq T] : KeepsAwake T β Prompt := by
  intro s reach
  have minded := minded_of_reach reach
  have alive : ∀ e, (socket e s).m_state = .CONNECTED → (socket e.other s).m_state ≠ .CLOSED := by
    intro e connected
    rw [minded.linked.both e connected]
    simp
  refine ⟨fun t e filled rest last asked retval lens inside => ⟨?_, fun sleeps => ?_⟩,
    fun t e tot rest last message retval iovs inside sleeps => ?_⟩
  · exact (minded.watch t).started _ inside
  · obtain ⟨-, connected, empty, open'⟩ := (minded.watch t).asleep _ inside sleeps
    exact ⟨empty, open', alive e connected⟩
  · obtain ⟨-, connected, full, open'⟩ := (minded.watch t).asleep _ inside sleeps
    exact ⟨full, open', alive e connected⟩

/-- A reader finds nothing and sleeps, its peer shuts the write side, and nobody wakes it. -/
theorem not_keepsAwake : ¬ KeepsAwake Bool Nat fun _ _ => True := by
  intro keeps
  let asked : W Bool Nat := clearMoved false (newPair.give false)
  let asleep : W Bool Nat := enter false (.read .b 5) (newPair.give false)
  have loop : readLoop false .b 0 5 none asked = (asked, .waits 0 5 none) :=
    (readLoop_none (e := .b) (by decide) (.inl rfl) rfl).trans rfl
  have entered : asleep = sleepOn false .b readerMask (.read .b 0 5 none 5 0 []) none asked := by
    show recvmsgLoop false .b 5 [5] 0 asked = _
    rw [recvmsgLoop, show read false .b 5 asked = readLoop false .b 0 5 none asked from rfl, loop]
    rfl
  have here : (machine Bool Nat).Reach (newPair.give false) :=
    .next (a := .dispatch false false) (.start newPair_start) trivial rfl
  have sleeps : (machine Bool Nat).Reach (sleepOn false .b readerMask (.read .b 0 5 none 5 0 []) none asked) :=
    .next (a := .call false (.read .b 5)) here trivial (congrArg some entered)
  have other := (Machine.ReachBy.next (a := .dispatch true false) sleeps trivial rfl)
  have shut := (Machine.ReachBy.next (a := .call true (.shutdown .a .SHUT_WR)) other trivial rfl)
  have awake := ((keeps _ shut).reads false .b 0 5 none 5 0 [] rfl).2 rfl
  cases awake.2.1

end Dce.LocalStream
