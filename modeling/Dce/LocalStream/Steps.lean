import Dce.LocalStream.Model

namespace Dce.LocalStream

open Coroutine Function List

section

variable {T β : Type*} (w : W T β) (e : Side) (s : SocketFd T β)

@[simp] theorem socket_setSocket_self : socket e (setSocket e s w) = s := by simp [socket, setSocket]

@[simp] theorem socket_setSocket_other : socket e.other (setSocket e s w) = socket e.other w := by
  simp [socket, setSocket]

@[simp] theorem socket_other_setSocket : socket e (setSocket e.other s w) = socket e w := by
  simp [socket, setSocket]

@[simp] theorem setSocket_place : (setSocket e s w).place = w.place := rfl
@[simp] theorem setSocket_status : (setSocket e s w).status = w.status := rfl
@[simp] theorem setSocket_current : (setSocket e s w).current = w.current := rfl
@[simp] theorem setSocket_now : (setSocket e s w).now = w.now := rfl
@[simp] theorem setSocket_moved : (setSocket e s w).shared.moved = w.shared.moved := rfl

theorem setSocket_self : setSocket e (socket e w) w = w := by
  unfold setSocket socket
  rw [update_eq_self]

end

variable {T β : Type*} [DecidableEq T] (w : W T β) (e f : Side) (t u : T)

section

variable (event : PollEvent)

@[simp] theorem wakeWaiters_place : (wakeWaiters event e w).place = w.place :=
  w.wakeAll_place _

@[simp] theorem wakeWaiters_shared : (wakeWaiters event e w).shared = w.shared :=
  w.wakeAll_shared _

@[simp] theorem wakeWaiters_now : (wakeWaiters event e w).now = w.now :=
  w.wakeAll_now _

@[simp] theorem socket_wakeWaiters : socket f (wakeWaiters event e w) = socket f w := by
  rw [socket, wakeWaiters_shared, socket]

end

section

variable (data : List β)

@[simp] theorem socket_addMoved : socket f (addMoved t data w) = socket f w := rfl
@[simp] theorem addMoved_place : (addMoved t data w).place = w.place := rfl
@[simp] theorem addMoved_status : (addMoved t data w).status = w.status := rfl
@[simp] theorem addMoved_now : (addMoved t data w).now = w.now := rfl
@[simp] theorem addMoved_moved : (addMoved t data w).shared.moved =
    update w.shared.moved t (w.shared.moved t ++ data) := rfl

end

section

variable (err : Errno)

@[simp] theorem socket_setErr : socket f (setErr t err w) = socket f w := rfl
@[simp] theorem setErr_place : (setErr t err w).place = w.place := rfl
@[simp] theorem setErr_status : (setErr t err w).status = w.status := rfl
@[simp] theorem setErr_moved : (setErr t err w).shared.moved = w.shared.moved := rfl

end

@[simp] theorem socket_ret (r : Result β) : socket f (w.ret t r) = socket f w := rfl
@[simp] theorem socket_give : socket f (w.give t) = socket f w := rfl

section

variable (mask : List PollEvent)

section

variable (frame : Frame β) (last : Option Nat)

@[simp] theorem sleepOn_place : (sleepOn t e mask frame last w).place = update w.place t (.inside frame) := by
  cases last <;> rfl

@[simp] theorem sleepOn_status : (sleepOn t e mask frame last w).status = update w.status t .blocked := by
  cases last <;> rfl

@[simp] theorem sleepOn_moved : (sleepOn t e mask frame last w).shared.moved = w.shared.moved := by
  cases last <;> rfl

theorem socket_sleepOn : socket f (sleepOn t e mask frame last w) = socket f (addWaitQueue t mask e w) := by
  cases last <;> rfl

end

omit [DecidableEq T] in
theorem addWaitQueue_same : ∃ queue, socket f (addWaitQueue t mask e w) =
    { socket f w with waitQueue := queue } := by
  rcases e.eq_or f with rfl | rfl
  · exact ⟨_, socket_setSocket_self _ _ _⟩
  · exact ⟨_, socket_setSocket_other _ _ _⟩

end

theorem removeWaitQueue_same : ∃ queue, socket f (removeWaitQueue t e w) =
    { socket f w with waitQueue := queue } := by
  rcases e.eq_or f with rfl | rfl
  · exact ⟨_, socket_setSocket_self _ _ _⟩
  · exact ⟨_, socket_setSocket_other _ _ _⟩

@[simp] theorem removeWaitQueue_now : (removeWaitQueue t e w).now = w.now := rfl
@[simp] theorem removeWaitQueue_place : (removeWaitQueue t e w).place = w.place := rfl
@[simp] theorem removeWaitQueue_status : (removeWaitQueue t e w).status = w.status := rfl
@[simp] theorem removeWaitQueue_moved : (removeWaitQueue t e w).shared.moved = w.shared.moved := rfl

variable {event : PollEvent} {buf data : List β}

theorem wakeWaiters_wakes {mask : List PollEvent}
    (listed : (⟨u, mask⟩ : WaitQueueEntry T) ∈ (socket e w).waitQueue) (event_mem : event ∈ mask) :
    (wakeWaiters event e w).status u ≠ .blocked := by
  intro asleep
  have absent := ((w.wakeAll_status_blocked u _).mp asleep).1
  exact absent (mem_map.mpr ⟨⟨u, mask⟩, mem_filter.mpr ⟨listed, by simpa using event_mem⟩, rfl⟩)

theorem wakeWaiters_asleep (asleep : (wakeWaiters event e w).status u = .blocked) : w.status u = .blocked :=
  ((w.wakeAll_status_blocked u _).mp asleep).2

theorem waitUntil_waits {L : Type*} {wq : Option (Option Nat)} {now : Nat}
    (later : ∀ last, wq = some (some last) → now < last) (timeout sofar : Nat) (rest : L) :
    ∃ last, waitUntil wq timeout now sofar rest = .waits sofar rest last := by
  unfold waitUntil
  rcases wq with _ | _ | last
  · rw [newLastTime]
    split
    next h =>
      split at h
      · cases h
      · cases Option.some.inj h
        rw [if_neg (by omega)]
        exact ⟨_, rfl⟩
    · exact ⟨_, rfl⟩
  · exact ⟨_, rfl⟩
  · have ahead := later last rfl
    rw [Option.getD_some]
    dsimp only
    rw [if_neg (by omega)]
    exact ⟨_, rfl⟩

theorem waitResult_ok {interrupted : Bool} {last : Option Nat} {now : Nat}
    (ok : waitResult interrupted last now = .OK) {limit : Nat} (timed : last = some limit) : now < limit := by
  subst timed
  unfold waitResult at ok
  split at ok
  · cases ok
  · dsimp only at ok
    split at ok
    · cases ok
    · omega

/-- `data` goes into the queue of `e`, and who waits for it wakes. -/
def fill (data : List β) : W T β :=
  wakeWaiters .POLLIN e (addMoved t data (setSocket e { socket e w with
    m_readBuffer := (socket e w).m_readBuffer ++ [⟨data, 0⟩]
    m_readBufferSize := (socket e w).m_readBufferSize + data.length
    accepted := (socket e w).accepted ++ data.map (Prod.mk t) } w))

/-- Up to `n` bytes come out of the queue of `e`, and who waits for room wakes. -/
def drain (n : Nat) : W T β :=
  if (socket e w).m_peer then wakeWaiters .POLLOUT e.other (takeData t e n w).1 else (takeData t e n w).1

def room : Nat := maxBuffer - (socket e w).m_readBufferSize

/-- The socket `e` takes data. -/
def Takes (s : SocketFd T β) : Prop := s.m_shutRead = false ∧ s.m_state ≠ .CLOSED

variable {w e t}

theorem removeWaitQueue_room : room (removeWaitQueue t e w) e.other = room w e.other := by
  obtain ⟨list, same⟩ := removeWaitQueue_same w e e.other t
  rw [room, same, room]

theorem removeWaitQueue_takes : Takes (socket e.other (removeWaitQueue t e w)) ↔ Takes (socket e.other w) := by
  obtain ⟨list, same⟩ := removeWaitQueue_same w e e.other t
  rw [same]
  rfl

theorem doRecvPacket_refuses (refuses : ¬ Takes (socket e w)) : doRecvPacket t e buf w = (w, -2) := by
  unfold doRecvPacket
  rw [if_pos]
  by_contra none
  simp only [not_or, Bool.not_eq_true] at none
  exact refuses none

theorem doRecvPacket_full (takes : Takes (socket e w)) (full : room w e = 0) : doRecvPacket t e buf w = (w, 0) := by
  have refused : ¬ ((socket e w).m_shutRead = true ∨ (socket e w).m_state = .CLOSED) := by
    simp [takes.1, takes.2]
  unfold doRecvPacket
  rw [if_neg refused, if_pos (by unfold room at full; omega)]

theorem doRecvPacket_takes (takes : Takes (socket e w)) (some : 0 < room w e) : doRecvPacket t e buf w =
      (fill w e t (buf.take (room w e)), ((min (room w e) buf.length : Nat) : Int)) := by
  have refused : ¬ ((socket e w).m_shutRead = true ∨ (socket e w).m_state = .CLOSED) := by
    simp [takes.1, takes.2]
  have length : (buf.take (room w e)).length = min (room w e) buf.length := length_take
  have data : buf.take (min (room w e) buf.length) = buf.take (room w e) := by
    by_cases all : buf.length ≤ room w e
    · rw [Nat.min_eq_right all, take_length, take_of_length_le all]
    · rw [Nat.min_eq_left (by omega)]
  unfold doRecvPacket fill
  dsimp only
  rw [if_neg refused, if_neg (by unfold room at some; omega)]
  unfold room at *
  rw [data, length]

section

variable (data : List β)

@[simp] theorem socket_fill_self : socket e (fill w e t data) = { socket e w with
    m_readBuffer := (socket e w).m_readBuffer ++ [⟨data, 0⟩]
    m_readBufferSize := (socket e w).m_readBufferSize + data.length
    accepted := (socket e w).accepted ++ data.map (Prod.mk t) } := by
  simp [fill]

@[simp] theorem socket_fill_other : socket e (fill w e.other t data) = socket e w := by
  simp [fill]

@[simp] theorem fill_place : (fill w e t data).place = w.place := by simp [fill]

@[simp] theorem fill_now : (fill w e t data).now = w.now := by simp [fill]

@[simp] theorem fill_moved : (fill w e t data).shared.moved = update w.shared.moved t
    (w.shared.moved t ++ data) := by
  simp [fill]

end

theorem room_fill : room (fill w e t data) e = room w e - data.length := by
  simp only [room, socket_fill_self]
  omega

theorem Takes.filled (takes : Takes (socket e w)) : Takes (socket e (fill w e t data)) := by
  simpa [Takes] using takes

/-- What `Write` does where there is no room for the rest. -/
def writeStop (e : Side) (tot : Nat) (rest : List β) (wq : Option (Option Nat)) (w : W T β) : Outcome (List β) :=
  if (socket e w).nonblock then .failed .EAGAIN
  else waitUntil wq (socket e w).m_sendTimeout w.now tot rest

variable {tot : Nat} {rest : List β} {wq : Option (Option Nat)}

theorem writeLoop_refused (refuses : ¬ Takes (socket e.other w)) :
    writeLoop t e tot rest wq w = (w, shortReturn .EPIPE tot) := by
  rw [writeLoop, doRecvPacket_refuses refuses]
  rfl

section

variable (takes : Takes (socket e.other w))
include takes

theorem writeLoop_none (full : room w e.other = 0) :
    writeLoop t e tot rest wq w = (w, writeStop e tot rest wq w) := by
  rw [writeLoop, doRecvPacket_full takes full]
  rw [if_pos rfl, writeStop]
  split <;> rfl

theorem writeLoop_empty (some : 0 < room w e.other) : writeLoop t e tot [] wq w =
      (fill w e.other t [], writeStop e tot [] wq (fill w e.other t [])) := by
  rw [writeLoop, doRecvPacket_takes takes some, take_nil, length_nil, Nat.min_zero]
  rw [if_pos Int.natCast_zero, writeStop]
  split <;> rfl

theorem writeLoop_fits (some : rest ≠ []) (fits : rest.length ≤ room w e.other) :
    writeLoop t e tot rest wq w = (fill w e.other t rest, .returned (tot + rest.length)) := by
  have positive := length_pos_iff.mpr some
  rw [writeLoop, doRecvPacket_takes takes (by omega), take_of_length_le fits, Nat.min_eq_right fits]
  rw [if_neg (by omega), if_pos (by omega), if_neg (by rw [Int.toNat_natCast]; omega), Int.toNat_natCast]

theorem writeLoop_part (connected : (socket e w).m_state = .CONNECTED)
    (some : 0 < room w e.other) (part : room w e.other < rest.length) :
    writeLoop t e tot rest wq w = (fill w e.other t (rest.take (room w e.other)),
      writeStop e (tot + room w e.other) (rest.drop (room w e.other)) wq
      (fill w e.other t (rest.take (room w e.other)))) := by
  have full : room (fill w e.other t (rest.take (room w e.other))) e.other = 0 := by
    rw [room_fill, length_take]
    omega
  rw [writeLoop, doRecvPacket_takes takes some, Nat.min_eq_left (le_of_lt part)]
  rw [if_neg (by omega), if_pos (by omega), Int.toNat_natCast, socket_fill_other,
    if_pos ⟨part, connected⟩, writeLoop_none takes.filled full]

end

theorem readData_nil {q : List (Buffer β)} {n : Nat} (none : (readData q n).2 = []) : (readData q n).1 = q := by
  cases q with
  | nil => rfl
  | cons b q =>
    revert none
    unfold readData
    dsimp only
    split
    · have out : (b.data.drop b.readOffset).take (min n (b.data.length - b.readOffset)) ≠ [] := by
        rw [← length_pos_iff, length_take, length_drop]
        omega
      split
      · exact fun none => absurd (append_eq_nil_iff.mp none).1 out
      · exact fun none => absurd none out
    next => exact fun _ => rfl

theorem takeData_out (n : Nat) : (takeData t e n w).2 = (readData (socket e w).m_readBuffer n).2 := rfl

theorem takeData_nil {n : Nat} (none : (takeData t e n w).2 = []) : (takeData t e n w).1 = w := by
  rw [takeData_out] at none
  have same := readData_nil none
  unfold takeData
  dsimp only
  rw [none, same, length_nil, map_nil, append_nil]
  have still : setSocket e (socket e w) w = w := setSocket_self w e
  unfold addMoved
  rw [append_nil, update_eq_self]
  exact still

section

variable (n : Nat)

@[simp] theorem socket_drain_self : socket e (drain w e t n) = { socket e w with
    m_readBuffer := (readData (socket e w).m_readBuffer n).1
    m_readBufferSize := (socket e w).m_readBufferSize - (readData (socket e w).m_readBuffer n).2.length
    delivered := (socket e w).delivered ++ (readData (socket e w).m_readBuffer n).2.map (Prod.mk t) } := by
  unfold drain
  split <;> simp [takeData]

@[simp] theorem socket_drain_other : socket e.other (drain w e t n) = socket e.other w := by
  unfold drain
  split <;> simp [takeData]

@[simp] theorem drain_place : (drain w e t n).place = w.place := by
  unfold drain
  split <;> simp [takeData]

@[simp] theorem drain_now : (drain w e t n).now = w.now := by
  unfold drain
  split <;> simp [takeData]

@[simp] theorem drain_moved : (drain w e t n).shared.moved = update w.shared.moved t
    (w.shared.moved t ++ (readData (socket e w).m_readBuffer n).2) := by
  unfold drain
  split <;> simp [takeData]

end

/-- What `Read` does where no byte is left. -/
def readStop (e : Side) (filled rest : Nat) (wq : Option (Option Nat)) (w : W T β) : Outcome Nat :=
  if (socket e w).nonblock then shortReturn .EAGAIN filled
  else if (socket e w).m_peer ∧ (socket e.other w).m_shutWrite then .returned 0
  else waitUntil wq (socket e w).m_recvTimeout w.now filled rest

variable {filled count : Nat}

theorem readLoop_idle (idle : ¬ (0 < count ∧ Readable (socket e w))) :
    readLoop t e filled count wq w = (w, .returned filled) := by
  rw [readLoop, if_neg idle]

variable (positive : 0 < count) (readable : Readable (socket e w))
include positive readable

theorem readLoop_none (none : (readData (socket e w).m_readBuffer count).2 = []) :
    readLoop t e filled count wq w = (w, readStop e filled count wq w) := by
  have same : (takeData t e count w).1 = w := takeData_nil none
  rw [readLoop, if_pos ⟨positive, readable⟩]
  dsimp only
  rw [if_pos (by rw [takeData_out, none, length_nil]), same, readStop]
  split
  · rfl
  · split <;> rfl

variable (some : (readData (socket e w).m_readBuffer count).2 ≠ [])
include some

theorem readLoop_some : readLoop t e filled count wq w =
      readLoop t e (filled + (readData (socket e w).m_readBuffer count).2.length)
        (count - (readData (socket e w).m_readBuffer count).2.length) wq (drain w e t count) := by
  have out := length_pos_iff.mpr some
  have peer : (socket e (takeData t e count w).1).m_peer = (socket e w).m_peer := by simp [takeData]
  rw [readLoop, if_pos ⟨positive, readable⟩]
  dsimp only
  rw [if_neg (by rw [takeData_out]; omega), peer]
  rfl

omit some in
theorem readLoop_enough (enough : (readData (socket e w).m_readBuffer count).2.length = count) :
    readLoop t e filled count wq w = (drain w e t count, .returned (filled + count)) := by
  have some : (readData (socket e w).m_readBuffer count).2 ≠ [] := by
    rw [← length_pos_iff]
    omega
  rw [readLoop_some positive readable some, enough, readLoop_idle (by omega)]

theorem readLoop_part (part : (readData (socket e w).m_readBuffer count).2.length < count) :
    readLoop t e filled count wq w = (drain w e t count, if Readable (socket e (drain w e t count)) then
        readStop e (filled + (readData (socket e w).m_readBuffer count).2.length)
          (count - (readData (socket e w).m_readBuffer count).2.length) wq (drain w e t count)
      else .returned (filled + (readData (socket e w).m_readBuffer count).2.length)) := by
  rw [readLoop_some positive readable some]
  split
  next still =>
    refine readLoop_none (by omega) still ?_
    rw [socket_drain_self]
    exact congrArg Prod.snd (readData_short part _)
  next done => exact readLoop_idle fun both => done both.2

end Dce.LocalStream
