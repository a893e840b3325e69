import Dce.Lib.CInt
import Dce.Lib.Iovec

/- Messages on sockets for datagrams, `unix-datagram-socket-fd.cc`. What the ns-3 socket does is given. Names of
peers and control messages are left out. -/

namespace Dce.UnixDatagram

inductive Errno
  | EAGAIN | EINTR | EINVAL
  /-- What `ErrnoToSimuErrno` makes of the error of the ns-3 socket -/
  | ns3 (e : Nat)
  deriving DecidableEq, Repr

/-- `ipHeaderIncluded` is the attribute `IpHeaderInclude`; `packetSocket` says whether `m_socket` is a
`PacketSocket`. -/
structure Socket where
  ipHeaderIncluded : Bool
  packetSocket : Bool
  deriving DecidableEq, Repr

section

/-- The bytes of the buffers, and whether `msg_name` and `msg_namelen` are there. -/
structure Message where
  named : Bool
  msg_iov : List (List UInt8)
  deriving DecidableEq, Repr

/-- What the ns-3 socket answers to the packets one after the other: it takes a packet and returns its size, or it
returns -1. -/
abbrev Answers := Nat → Option Nat

/-- What has been given to the ns-3 socket and was taken, and what the call returns. -/
structure Sent where
  packets : List (List UInt8)
  retval : Int
  err : Option Errno
  deriving DecidableEq, Repr

variable (ipHeader : List UInt8 → List UInt8) (socket : Socket) (named : Bool) (answers : Answers)

/-- The packet that is made of a buffer; `header` is that of the first one. -/
def packetOf (header : Option (List UInt8)) (buf : List UInt8) : List UInt8 :=
  let packet := buf.take (buf.length % 2 ^ 32)
  let packet := match header with
    | some ipHeader => ipHeader ++ packet
    | none => packet
  if socket.packetSocket && named then packet.drop 14 else packet

/-- The loop of `DoSendmsg`, from the buffer `i` on. The size of a packet becomes an `int`. -/
def sendLoop : Option (List UInt8) → Nat → List (List UInt8) → List (List UInt8) → Int → Sent
  | _, _, [], packets, retval => ⟨packets, retval, none⟩
  | header, i, buf :: iov, packets, retval =>
    if socket.ipHeaderIncluded && i == 0 then sendLoop (some (ipHeader buf)) (i + 1) iov packets retval
    else
      let packet := packetOf socket named header buf
      match answers packets.length with
      | some e => ⟨packets, -1, some (.ns3 e)⟩
      | none =>
        let result := CInt.toInt packet.length
        if result = -1 then ⟨packets ++ [packet], -1, some (.ns3 0)⟩
        else sendLoop header (i + 1) iov (packets ++ [packet]) (retval + result)

/-- `DoSendmsg`; `ipHeader` is the header that is made of a `struct ip`. -/
def DoSendmsg (msg : Message) : Sent := sendLoop ipHeader socket msg.named answers none 0 msg.msg_iov [] 0

end

section

/-- A packet; `link` has the fourteen bytes that go in front where it comes from a `PacketSocketAddress`. -/
structure Packet where
  payload : List UInt8
  link : Option (List UInt8)
  deriving DecidableEq, Repr

/-- `MSG_ERRQUEUE` and `MSG_DONTWAIT` of the flags, and whether there is room for a `sockaddr_ll`. -/
structure Call where
  errqueue : Bool
  dontwait : Bool
  nameFits : Bool
  msg_iov : List Iovec
  deriving DecidableEq, Repr

/-- What the ns-3 socket answers for its queue: the packet and what remains, and the bytes that can be read. -/
structure Ns3Socket where
  RecvFrom : Nat → List Packet → Option Packet × List Packet
  GetRxAvailable : List Packet → Nat

inductive PollResult
  | OK | INTERRUPTED | TIMEOUT
  deriving DecidableEq, Repr

/-- How the wait of a call ends, if it waits, and the queue then. There is none once the socket was closed. -/
structure Wakeup where
  result : PollResult
  queue : Option (List Packet)
  deriving DecidableEq, Repr

/-- What `WaitRecvDoSignal` comes to: whether it has waited, the errno where it is false, and the queue then. -/
structure Waited where
  waited : Bool
  err : Option Errno
  queue : Option (List Packet)

/-- `queue` is what the ns-3 socket has left and `errQueue` the length of `m_errQueue`. -/
structure Received where
  memory : Memory
  queue : Option (List Packet)
  errQueue : Nat
  retval : Int
  err : Option Errno

/-- A failed assertion, an access outside of an array or one that the memory faults. -/
inductive Outcome
  | returned (r : Received)
  | crashed

variable (ns3 : Ns3Socket)

def CanRecv (queue : List Packet) : Bool := ns3.GetRxAvailable queue ≠ 0

def WaitRecvDoSignal (dontwait : Bool) (wakeup : Wakeup) (queue : List Packet) : Waited :=
  if dontwait && ! CanRecv ns3 queue then ⟨false, some .EAGAIN, queue⟩
  else if CanRecv ns3 queue then ⟨false, none, queue⟩
  else
    match wakeup.result with
    | .INTERRUPTED => ⟨true, some .EINTR, wakeup.queue⟩
    | .TIMEOUT => ⟨true, some .EAGAIN, wakeup.queue⟩
    | .OK => ⟨true, none, wakeup.queue⟩

/-- What follows `RecvFrom`, with the first buffer. -/
def deliver (call : Call) (memory : Memory) (v : Iovec) (errQueue : Nat) : Option Packet × List Packet → Outcome
  | (none, queue) => .returned ⟨memory, queue, errQueue, -1, some (.ns3 0)⟩
  | (some packet, queue) =>
    let count := v.iov_len % 2 ^ 32
    match packet.link with
    | some link =>
      if ¬ call.nameFits then .returned ⟨memory, queue, errQueue, -1, some .EINVAL⟩
      else if packet.payload.length + 14 ≤ count then
        match memory.store v.iov_base (link ++ packet.payload ++
          List.replicate (count - 14 - packet.payload.length) 0) with
        | none => .crashed
        | some memory => .returned ⟨memory, queue, errQueue, packet.payload.length + 14, none⟩
      else .crashed
    | none =>
      if packet.payload.length ≤ count then
        match memory.store v.iov_base packet.payload with
        | none => .crashed
        | some memory => .returned ⟨memory, queue, errQueue, packet.payload.length, none⟩
      else .crashed

/-- What `DoRecvmsg` does once it may read. -/
def readPacket (call : Call) (memory : Memory) (errQueue : Nat) : Option (List Packet) → Outcome
  | none => .crashed
  | some queue =>
    match call.msg_iov with
    | [] => .crashed
    | v :: _ => deliver call memory v errQueue (ns3.RecvFrom (v.iov_len % 2 ^ 32) queue)

/-- `DoRecvmsg`, with whether it has waited. -/
def DoRecvmsg (call : Call) (wakeup : Wakeup) (memory : Memory) (queue : List Packet)
    (errQueue : Nat) : Bool × Outcome :=
  if call.errqueue then
    if errQueue = 0 then (false, .returned ⟨memory, queue, errQueue, -1, some .EAGAIN⟩)
    else (false, .returned ⟨memory, queue, errQueue - 1, 0, none⟩)
  else
    let wait := WaitRecvDoSignal ns3 call.dontwait wakeup queue
    match wait.err with
    | some err => (wait.waited, .returned ⟨memory, wait.queue, errQueue, -1, some err⟩)
    | none => (wait.waited, readPacket ns3 call memory errQueue wait.queue)

end

end Dce.UnixDatagram

/- Which messages become one datagram, and which datagrams one message. -/

namespace Dce.UnixDatagram

open Iovec (scatter total)

variable {ipHeader : List UInt8 → List UInt8} {socket : Socket} {named : Bool} {answers : Answers}
    {header : Option (List UInt8)}
  {i : Nat} {iov packets : List (List UInt8)} {buf : List UInt8} {retval : Int} {msg : Message}

section

/-- One packet has what all buffers have, or there is none and the call fails. -/
def Sends (msg : Message) (sent : Sent) : Prop :=
  sent.retval = -1 ∧ sent.packets = [] ∨ sent.packets = [msg.msg_iov.flatten] ∧
  sent.retval = msg.msg_iov.flatten.length

/-- There is a buffer, and the first packet is refused, or there is no other buffer, its length is an `int`, and no
link header is taken off. -/
def OneBuffer (socket : Socket) (answers : Answers) (msg : Message) : Prop :=
  ∃ buf iov, msg.msg_iov = buf :: iov ∧
    ((answers 0).isSome ∨ iov = [] ∧ buf.length < 2 ^ 31 ∧
      (socket.packetSocket = true → msg.named = true → buf = []))

theorem length_sendLoop :
    packets.length ≤ (sendLoop ipHeader socket named answers header i iov packets retval).packets.length := by
  induction iov generalizing header i packets retval with
  | nil => exact le_rfl
  | cons buf iov ih =>
    rw [sendLoop]
    split
    · exact ih
    · dsimp only
      split
      · exact le_rfl
      · split
        · rw [List.length_append]
          exact Nat.le_add_right _ _
        · refine le_trans ?_ ih
          rw [List.length_append]
          exact Nat.le_add_right _ _

variable (plain : socket.ipHeaderIncluded = false)
include plain

theorem sendLoop_more : (sendLoop ipHeader socket named answers header i (buf :: iov) packets retval).retval = -1 ∨
      packets.length < (sendLoop ipHeader socket named answers header i
        (buf :: iov) packets retval).packets.length := by
  rw [sendLoop, plain, Bool.false_and, if_neg Bool.false_ne_true]
  dsimp only
  split
  · exact .inl rfl
  · split
    · exact .inl rfl
    · right
      refine lt_of_lt_of_le ?_ length_sendLoop
      rw [List.length_append]
      exact Nat.lt_succ_self _

theorem sendLoop_refused {e : Nat} (first : answers 0 = some e) :
    sendLoop ipHeader socket named answers none 0 (buf :: iov) [] 0 = ⟨[], -1, some (.ns3 e)⟩ := by
  rw [sendLoop, plain, Bool.false_and, List.length_nil, first]
  rfl

theorem sendLoop_first (first : answers 0 = none) : sendLoop ipHeader socket named answers none 0 (buf :: iov) [] 0 =
      if CInt.toInt (packetOf socket named none buf).length = -1
      then ⟨[packetOf socket named none buf], -1, some (.ns3 0)⟩
      else sendLoop ipHeader socket named answers none 1 iov [packetOf socket named none buf]
        (CInt.toInt (packetOf socket named none buf).length) := by
  rw [sendLoop, plain, Bool.false_and, List.length_nil, first]
  simp

omit plain in
/-- A packet has the bytes of its buffer, and its size is their number. -/
theorem packetOf_iff : packetOf socket named none buf = buf ∧
    CInt.toInt (packetOf socket named none buf).length = buf.length ↔
    buf.length < 2 ^ 31 ∧ (socket.packetSocket = true → named = true → buf = []) := by
  have dropped : ∀ {l : List UInt8} {n : Nat}, l.drop (n + 1) = l → l = [] := by
    intro l n same
    have length := congrArg List.length same
    rw [List.length_drop] at length
    exact List.length_eq_zero_iff.mp (by omega)
  constructor
  · rintro ⟨same, size⟩
    rw [same] at size
    have bounds := CInt.toInt_bounds (buf.length : Int)
    have short : buf.length < 2 ^ 31 := by omega
    refine ⟨short, fun isPacket isNamed => ?_⟩
    have whole : buf.length % 2 ^ 32 = buf.length := by omega
    rw [packetOf, isPacket, isNamed, whole, List.take_length] at same
    exact dropped same
  · rintro ⟨short, stripped⟩
    have whole : buf.length % 2 ^ 32 = buf.length := by omega
    have same : packetOf socket named none buf = buf := by
      unfold packetOf
      rw [whole, List.take_length]
      dsimp only
      split
      next both =>
        rw [Bool.and_eq_true] at both
        rw [stripped both.1 both.2]
        rfl
      · rfl
    rw [same]
    exact ⟨rfl, CInt.toInt_eq (by omega) (by omega)⟩

theorem sends_iff : Sends msg (DoSendmsg ipHeader socket answers msg) ↔ OneBuffer socket answers msg := by
  obtain ⟨named, iov⟩ := msg
  unfold DoSendmsg OneBuffer Sends
  dsimp only
  cases iov with
  | nil =>
    refine ⟨fun sends => ?_, fun ⟨buf, iov, there, _⟩ => by cases there⟩
    rcases sends with ⟨wrong, -⟩ | ⟨wrong, -⟩
    · cases wrong
    · cases wrong
  | cons buf iov =>
    have exists_iff : ∀ p : List UInt8 → List (List UInt8) → Prop, (∃ b l, buf :: iov = b :: l ∧ p b l) ↔
        p buf iov := by
      intro p
      refine ⟨?_, fun holds => ⟨buf, iov, rfl, holds⟩⟩
      rintro ⟨b, l, same, holds⟩
      obtain ⟨rfl, rfl⟩ := List.cons.inj same
      exact holds
    rw [exists_iff]
    cases first : answers 0 with
    | some e =>
      rw [sendLoop_refused plain first]
      exact ⟨fun _ => .inl rfl, fun _ => .inl ⟨rfl, rfl⟩⟩
    | none =>
      have taken : ¬ ((none : Option Nat).isSome = true) := by decide
      rw [or_iff_right taken, ← packetOf_iff, sendLoop_first plain first]
      split
      next negative =>
        refine ⟨fun sends => ?_, fun ⟨_, _, size⟩ => by omega⟩
        rcases sends with ⟨-, wrong⟩ | ⟨-, wrong⟩
        · cases wrong
        · dsimp only at wrong
          omega
      next fine =>
        cases iov with
        | nil =>
          rw [sendLoop, List.flatten_cons, List.flatten_nil, List.append_nil]
          dsimp only
          constructor
          · rintro (⟨wrong, -⟩ | ⟨same, size⟩)
            · exact absurd wrong fine
            · exact ⟨rfl, (List.cons.inj same).1, size⟩
          · exact fun ⟨_, same, size⟩ => .inr ⟨by rw [same], size⟩
        | cons next iov =>
          refine ⟨fun sends => ?_, fun both => absurd both.1 (List.cons_ne_nil next iov)⟩
          rcases sends with ⟨-, wrong⟩ | ⟨one, size⟩
          · have fewer := le_trans length_sendLoop (Nat.le_of_eq (congrArg List.length wrong))
            exact nomatch fewer
          · rcases sendLoop_more plain with failed | more
            · rw [failed] at size
              omega
            · rw [one] at more
              exact nomatch more

end

section

variable {ns3 : Ns3Socket} {call : Call} {wakeup : Wakeup} {memory : Memory} {queue rest : List Packet}
    {errQueue : Nat}
  {packet : Packet} {v : Iovec} {outcome : Outcome} {r : Received}

/-- Of a packet that is too large, the socket gives nothing or the first part, and keeps the rest. The bytes that can
be read are those of the packets. -/
structure Conforms (ns3 : Ns3Socket) : Prop where
  empty : ∀ max, ns3.RecvFrom max [] = (none, [])
  fits : ∀ max packet queue, packet.payload.length ≤ max → ns3.RecvFrom max (packet :: queue) = (some packet, queue)
  large : ∀ max packet queue, max < packet.payload.length →
    ns3.RecvFrom max (packet :: queue) = (none, packet :: queue) ∨
      ns3.RecvFrom max (packet :: queue) = (some { packet with payload := packet.payload.take max },
        { packet with payload := packet.payload.drop max } :: queue)
  available : ∀ queue, ns3.GetRxAvailable queue = (queue.map fun packet => packet.payload.length).sum

/-- The next packet is taken and fills the buffers as far as it reaches. Where there is none the call fails. -/
def Takes (call : Call) (memory : Memory) (queue : List Packet) (r : Received) : Prop :=
  match queue with
  | packet :: queue => r.queue = some queue ∧
    r.memory = scatter memory call.msg_iov (packet.payload.take (total call.msg_iov)) ∧
    r.retval = min (total call.msg_iov) packet.payload.length
  | [] => r.retval = -1 ∧ r.queue = some [] ∧ r.memory = memory

/-- A packet that is there is taken at once. A call that finds none fails, or waits for one. A call that reads the
queue of errors takes no packet. -/
def Receives (call : Call) (wakeup : Wakeup) (memory : Memory) (queue : List Packet) : Bool × Outcome → Prop
  | (_, .crashed) => False
  | (waited, .returned r) =>
    if call.errqueue then r.queue = some queue ∧ r.memory = memory
    else if queue ≠ [] then waited = false ∧ Takes call memory queue r
    else if call.dontwait then Takes call memory [] r
    else
      match wakeup.result with
      | .OK => ∃ queue, wakeup.queue = some queue ∧ Takes call memory queue r
      | _ => r.retval = -1 ∧ r.queue = wakeup.queue ∧ r.memory = memory

/-- There is a first buffer, and the next packet has no link header and is not longer. -/
def FirstBuffer (call : Call) (queue : List Packet) : Prop :=
  ∃ v iov, call.msg_iov = v :: iov ∧ ∀ packet ∈ queue.head?, packet.link = none ∧
  packet.payload.length ≤ v.iov_len % 2 ^ 32

/-- Where there are packets, one of them is not empty, and the first one fits into the first buffer; where there are
none, the call does not wait, or its wait fails or leaves a packet that fits. -/
def Finds (call : Call) (wakeup : Wakeup) (queue : List Packet) : Prop :=
  if queue ≠ [] then (∃ packet ∈ queue, packet.payload ≠ []) ∧ FirstBuffer call queue
  else call.dontwait = true ∨ wakeup.result ≠ .OK ∨ ∃ queue, wakeup.queue = some queue ∧ FirstBuffer call queue

theorem queue_deliver {got : Option Packet × List Packet}
    (delivered : deliver call memory v errQueue got = .returned r) :
    r.queue = some got.2 := by
  obtain ⟨_ | packet, queue⟩ := got
  · cases delivered
    rfl
  · unfold deliver at delivered
    dsimp only at delivered
    split at delivered
    · split at delivered
      · cases delivered
        rfl
      · split at delivered
        · split at delivered
          · cases delivered
          · cases delivered
            rfl
        · cases delivered
    · split at delivered
      · split at delivered
        · cases delivered
        · cases delivered
          rfl
      · cases delivered

theorem retval_deliver {link : List UInt8} (linked : packet.link = some link)
    (delivered : deliver call memory v errQueue (some packet, queue) = .returned r) :
    r.retval = -1 ∨ r.retval = packet.payload.length + 14 := by
  unfold deliver at delivered
  dsimp only at delivered
  rw [linked] at delivered
  dsimp only at delivered
  split at delivered
  · cases delivered
    exact .inl rfl
  · split at delivered
    · split at delivered
      · cases delivered
      · cases delivered
        exact .inr rfl
    · cases delivered

theorem deliver_fits (plain : packet.link = none) (fits : packet.payload.length ≤ v.iov_len % 2 ^ 32)
    (mapped : memory.Mapped v.iov_base v.iov_len) :
    deliver call memory v errQueue (some packet, queue) =
      .returned ⟨memory.put v.iov_base packet.payload, queue, errQueue, packet.payload.length, none⟩ := by
  have short : packet.payload.length ≤ v.iov_len := fits.trans (Nat.mod_le _ _)
  have stored := Memory.store_of_mapped (mapped.sub le_rfl (Nat.add_le_add_left short _))
  unfold deliver
  dsimp only
  rw [plain]
  rw [if_pos fits, stored]

theorem canRecv_iff (conforms : Conforms ns3) : CanRecv ns3 queue = true ↔
    ∃ packet ∈ queue, packet.payload ≠ [] := by
  have bytes : CanRecv ns3 queue = true ↔ ns3.GetRxAvailable queue ≠ 0 := decide_eq_true_iff
  rw [bytes, conforms.available, Ne, List.sum_eq_zero_iff_forall_eq_nat]
  simp

theorem canRecv_nil (conforms : Conforms ns3) : CanRecv ns3 [] = false := by
  refine Bool.eq_false_iff.mpr fun ready => ?_
  obtain ⟨_, mem, -⟩ := (canRecv_iff conforms).mp ready
  cases mem

/-- A packet that was taken does not stay. -/
theorem Takes.queue_ne (takes : Takes call memory queue r) (here : queue ≠ []) : r.queue ≠ some queue := by
  cases queue with
  | nil => exact absurd rfl here
  | cons packet queue =>
    rw [takes.1]
    exact fun same => List.cons_ne_self packet queue (Option.some.inj same).symm

/-- What is read of a queue. -/
theorem readPacket_iff (errQueue : Nat) (conforms : Conforms ns3) (mapped : Iovec.Mapped memory call.msg_iov) :
    (∃ r, readPacket ns3 call memory errQueue (some queue) = .returned r ∧ Takes call memory queue r) ↔
      FirstBuffer call queue := by
  unfold readPacket
  cases buffers : call.msg_iov with
  | nil =>
    refine iff_of_false (fun ⟨_, crashed, _⟩ => by cases crashed) ?_
    rintro ⟨v, iov, there, -⟩
    cases buffers.symm.trans there
  | cons v iov =>
    have first : FirstBuffer call queue ↔
        ∀ packet ∈ queue.head?, packet.link = none ∧ packet.payload.length ≤ v.iov_len % 2 ^ 32 := by
      refine ⟨?_, fun each => ⟨v, iov, buffers, each⟩⟩
      rintro ⟨v', iov', there, each⟩
      obtain ⟨rfl, -⟩ := List.cons.inj (buffers.symm.trans there)
      exact each
    rw [first]
    dsimp only
    cases queue with
    | nil =>
      rw [conforms.empty]
      exact iff_of_true ⟨_, rfl, rfl, rfl, rfl⟩ nofun
    | cons packet queue =>
      constructor
      · rintro ⟨r, delivered, left, -, count⟩
        have fits : packet.payload.length ≤ v.iov_len % 2 ^ 32 := by
          by_contra large
          have kept := queue_deliver delivered
          rw [left] at kept
          rcases conforms.large _ packet queue (Nat.lt_of_not_le large) with same | part
          · rw [same] at kept
            exact absurd (congrArg List.length (Option.some.inj kept)) (by simp)
          · rw [part] at kept
            exact absurd (congrArg List.length (Option.some.inj kept)) (by simp)
        rintro _ ⟨⟩
        refine ⟨?_, fits⟩
        rw [conforms.fits _ _ _ fits] at delivered
        cases link : packet.link with
        | none => rfl
        | some header =>
          rcases retval_deliver link delivered with failed | counted
          · omega
          · omega
      · intro each
        obtain ⟨plain, fits⟩ := each packet rfl
        have here : memory.Mapped v.iov_base v.iov_len := mapped v (buffers ▸ List.mem_cons_self)
        have short : packet.payload.length ≤ v.iov_len := fits.trans (Nat.mod_le _ _)
        have room : packet.payload.length ≤ total (v :: iov) := by
          rw [Iovec.total_cons]
          omega
        rw [conforms.fits _ _ _ fits, deliver_fits plain fits here]
        refine ⟨_, rfl, rfl, ?_, ?_⟩
        · rw [buffers, List.take_of_length_le room, Iovec.scatter_first short]
        · rw [buffers]
          dsimp only
          omega

section

variable (data : call.errqueue = false)
include data

/-- A packet is there: the call has not waited, and what it has read is right. -/
theorem receives_here {waited : Bool} (here : queue ≠ []) : Receives call wakeup memory queue (waited, outcome) ↔
    waited = false ∧ ∃ r, outcome = .returned r ∧ Takes call memory queue r := by
  cases outcome with
  | crashed => exact iff_of_false id fun ⟨_, _, crashed, _⟩ => by cases crashed
  | returned r =>
    unfold Receives
    dsimp only
    rw [data, if_neg Bool.false_ne_true, if_pos here]
    exact and_congr_right fun _ => ⟨fun takes => ⟨r, rfl, takes⟩, fun ⟨_, same, takes⟩ => by cases same; exact takes⟩

/-- None is there, and the wait is over. -/
theorem receives_later {waited : Bool} (waits : call.dontwait = false) (ok : wakeup.result = .OK) :
    Receives call wakeup memory [] (waited, outcome) ↔
      ∃ r queue, wakeup.queue = some queue ∧ outcome = .returned r ∧ Takes call memory queue r := by
  cases outcome with
  | crashed => exact iff_of_false id fun ⟨_, _, _, crashed, _⟩ => by cases crashed
  | returned r =>
    unfold Receives
    dsimp only
    rw [data, if_neg Bool.false_ne_true, if_neg (not_not.mpr rfl), waits, if_neg Bool.false_ne_true, ok]
    exact ⟨fun ⟨queue, found, takes⟩ => ⟨r, queue, found, rfl, takes⟩,
      fun ⟨_, queue, found, same, takes⟩ => by cases same; exact ⟨queue, found, takes⟩⟩

/-- None is there, and none comes. -/
theorem receives_nothing (fails : call.dontwait = true ∨ wakeup.result ≠ .OK) (conforms : Conforms ns3) :
    Receives call wakeup memory [] (DoRecvmsg ns3 call wakeup memory [] errQueue) := by
  unfold DoRecvmsg WaitRecvDoSignal
  rw [data, canRecv_nil conforms]
  cases waits : call.dontwait with
  | true =>
    unfold Receives
    simp [data, waits, Takes]
  | false =>
    have failed := fails.resolve_left (by rw [waits]; exact Bool.false_ne_true)
    cases result : wakeup.result with
    | OK => exact absurd result failed
    | INTERRUPTED | TIMEOUT =>
      unfold Receives
      simp [data, waits, result]

end

theorem receives_iff (conforms : Conforms ns3) (mapped : Iovec.Mapped memory call.msg_iov) :
    Receives call wakeup memory queue (DoRecvmsg ns3 call wakeup memory queue errQueue) ↔
      call.errqueue = true ∨ Finds call wakeup queue := by
  cases data : call.errqueue with
  | true =>
    refine iff_of_true ?_ (.inl rfl)
    unfold DoRecvmsg
    rw [if_pos data]
    split
    · unfold Receives
      dsimp only
      rw [if_pos data]
      exact ⟨rfl, rfl⟩
    · unfold Receives
      dsimp only
      rw [if_pos data]
      exact ⟨rfl, rfl⟩
  | false =>
    rw [or_iff_right Bool.false_ne_true]
    unfold Finds
    by_cases here : queue = []
    · subst here
      rw [if_neg (not_not.mpr rfl)]
      by_cases fails : call.dontwait = true ∨ wakeup.result ≠ .OK
      · exact iff_of_true (receives_nothing data fails conforms) (fails.elim .inl fun failed => .inr (.inl failed))
      · obtain ⟨waits, ok⟩ := not_or.mp fails
        have ok := not_not.mp ok
        have waits := Bool.eq_false_iff.mpr waits
        have call_eq : DoRecvmsg ns3 call wakeup memory [] errQueue = (true,
          readPacket ns3 call memory errQueue wakeup.queue) := by
          unfold DoRecvmsg WaitRecvDoSignal
          rw [data, waits, canRecv_nil conforms, ok]
          rfl
        rw [call_eq, receives_later data waits ok, waits, or_iff_right Bool.false_ne_true,
          or_iff_right (not_not.mpr ok)]
        constructor
        · rintro ⟨r, queue, left, read, takes⟩
          rw [left] at read
          exact ⟨queue, left, (readPacket_iff errQueue conforms mapped).mp ⟨r, read, takes⟩⟩
        · rintro ⟨queue, left, first⟩
          obtain ⟨r, read, takes⟩ := (readPacket_iff errQueue conforms mapped).mpr first
          exact ⟨r, queue, left, left ▸ read, takes⟩
    · rw [if_pos here, ← canRecv_iff conforms, ← readPacket_iff errQueue conforms mapped]
      cases ready : CanRecv ns3 queue with
      | true =>
        have at_once : DoRecvmsg ns3 call wakeup memory queue errQueue =
            (false, readPacket ns3 call memory errQueue queue) := by
          unfold DoRecvmsg WaitRecvDoSignal
          rw [data, ready, Bool.not_true, Bool.and_false]
          rfl
        rw [at_once, receives_here data here]
        exact ⟨fun ⟨_, read⟩ => ⟨rfl, read⟩, fun ⟨_, read⟩ => ⟨rfl, read⟩⟩
      | false =>
        refine iff_of_false (fun receives => ?_) fun ⟨wrong, _⟩ => by cases wrong
        -- it has waited, or it has failed and left the packets
        unfold DoRecvmsg WaitRecvDoSignal at receives
        rw [data, ready] at receives
        cases waits : call.dontwait with
        | true =>
          rw [waits] at receives
          obtain ⟨-, _, same, takes⟩ := (receives_here data here).mp receives
          cases same
          exact takes.queue_ne here rfl
        | false =>
          rw [waits] at receives
          cases result : wakeup.result with
          | OK | INTERRUPTED | TIMEOUT =>
            rw [result] at receives
            exact absurd ((receives_here data here).mp receives).1 (by nofun)

end

/-- `sendmsg` and `recvmsg` of a socket whose messages do not begin with an IP header. -/
theorem messages_iff {ns3 : Ns3Socket} {call : Call} {wakeup : Wakeup} {memory : Memory} {queue : List Packet}
    {errQueue : Nat}
    (plain : socket.ipHeaderIncluded = false) (conforms : Conforms ns3) (mapped : Iovec.Mapped memory call.msg_iov) :
    (Sends msg (DoSendmsg ipHeader socket answers msg) ↔ OneBuffer socket answers msg) ∧
      (Receives call wakeup memory queue (DoRecvmsg ns3 call wakeup memory queue errQueue) ↔
        call.errqueue = true ∨ Finds call wakeup queue) :=
  ⟨sends_iff plain, receives_iff conforms mapped⟩

/-- A socket that keeps what is too large. -/
def udp : Ns3Socket where
  RecvFrom
    | _, [] => (none, [])
    | max, packet :: queue => if packet.payload.length ≤ max then (some packet, queue) else (none, packet :: queue)
  GetRxAvailable queue := (queue.map fun packet => packet.payload.length).sum

theorem conforms_udp : Conforms udp where
  empty _ := rfl
  fits _ _ _ fits := if_pos fits
  large _ _ _ large := .inl (if_neg (not_le.mpr large))
  available _ := rfl

def udpSocket : Socket := ⟨false, false⟩

/-- Buffers of these lengths, one behind the other. -/
def buffers : Nat → List Nat → List Iovec
  | _, [] => []
  | a, n :: lens => ⟨a, n⟩ :: buffers (a + n) lens

/-- What is in these buffers is sent. -/
def sent (bufs : List (List UInt8)) : Prop :=
  Sends ⟨true, bufs⟩ (DoSendmsg id udpSocket (fun _ => none) ⟨true, bufs⟩)

/-- A call with buffers of these lengths and `MSG_DONTWAIT`. -/
def call (lens : List Nat) : Call := ⟨false, true, true, buffers 0 lens⟩

/-- A packet of these bytes is received into buffers of these lengths. -/
def received (payload : List UInt8) (lens : List Nat) : Prop :=
  Receives (call lens) ⟨.OK, none⟩ (fun _ => some 0) [⟨payload, none⟩]
    (DoRecvmsg udp (call lens) ⟨.OK, none⟩ (fun _ => some 0) [⟨payload, none⟩] 0)

theorem messages_udp : sent [[1, 2, 3]] ∧ received [1, 2, 3] [4] := by
  have both : (sent [[1, 2, 3]] ↔ _) ∧ (received [1, 2, 3] [4] ↔ _) :=
    messages_iff rfl conforms_udp Iovec.mapped_const
  refine ⟨both.1.mpr ⟨[1, 2, 3], [], rfl, .inr ⟨rfl, by decide, nofun⟩⟩, both.2.mpr (.inr ?_)⟩
  refine ⟨⟨_, List.mem_cons_self, by decide⟩, ⟨0, 4⟩, [], rfl, ?_⟩
  rintro _ ⟨⟩
  exact ⟨rfl, by decide⟩

/-- A header and its data become two datagrams; a datagram is not taken for a buffer and another behind it, nor is
one without a byte. -/
theorem not_one_datagram : ¬ sent [[1], [2, 3]] ∧ ¬ received [1, 2, 3] [1, 2] ∧ ¬ received [] [4] := by
  refine ⟨?_, fun receives => ?_, fun receives => ?_⟩
  · unfold sent Sends
    decide
  · exact absurd (congrArg List.length (Option.some.inj receives.2.1)) (by decide)
  · exact absurd (congrArg List.length (Option.some.inj receives.2.1)) (by decide)

end Dce.UnixDatagram
