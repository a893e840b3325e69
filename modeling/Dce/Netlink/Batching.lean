import Dce.Netlink.Framing
import Dce.Netlink.Socket

/- The loop of `NetlinkSocket::SendTo` over a datagram. -/

namespace Dce.Netlink

open NetlinkMessage Reader List Option

/-- A round of the loop: what `RemoveHeader` has read, the messages that are handled, and the
remaining length with the bytes that the packet still has. -/
structure Round where
  read : List NetlinkMessage
  handled : List NetlinkMessage
  remain_len : UInt32
  left : Nat

/-- `SendTo` between two rounds; the handler works on a `κ`. -/
structure Sending (κ : Type) where
  p : List UInt8
  remain_len : UInt32
  multipartnlmsg : List NetlinkMessage
  kernel : κ
  rounds : List Round

section

variable {κ : Type} (B : Buffer) (handle : κ → NetlinkMessage → Option κ)

namespace Sending

/-- One round. It stops where the parser fails, where the assertion does or where the handler stops. -/
def round (s : Sending κ) : Option (Sending κ) :=
  match (MultipartNetlinkMessage.deserialize B s.multipartnlmsg).run s.p with
  | .error _ => none
  | .ok ((multipartnlmsg, size), _) =>
    let remain_len := s.remain_len - .ofNat size
    let p := s.p.drop size
    if remain_len = .ofNat p.length then do
      let kernel ← multipartnlmsg.foldlM handle s.kernel
      return {
        p, remain_len, multipartnlmsg, kernel
        rounds := s.rounds ++ [⟨multipartnlmsg.drop s.multipartnlmsg.length, multipartnlmsg, remain_len, p.length⟩] }
    else none

/-- `while (remain_len > GetHeaderSize ())`. A round that removes nothing is followed by the same
again, and without an end. -/
def loop : Nat → Sending κ → Option (Sending κ)
  | 0, _ => none
  | fuel + 1, s => if 16 < s.remain_len then s.round B handle >>= loop fuel else some s

def start (p : List UInt8) (kernel : κ) : Sending κ where
  p := p
  remain_len := .ofNat p.length
  multipartnlmsg := []
  kernel := kernel
  rounds := []

def run (p : List UInt8) (kernel : κ) : Option (Sending κ) := loop B handle (p.length + 1) (start p kernel)

end Sending

/-- `SendTo`, to a netlink address -/
def sendTo (kernel : κ) (p : List UInt8) : Option κ := (Sending.run B handle p kernel).map Sending.kernel

end

/-- A packet of requests; its size is a `uint32_t`. -/
structure Datagram (B : Buffer) where
  requests : List TlvMessage
  size : ((requests.map (TlvMessage.bytes B)).flatten).length < 2 ^ 32

variable {B : Buffer}

/-- What `NetlinkMessage::Deserialize` makes of a message; it may leave bytes of it unread. -/
def TlvMessage.Parses (B : Buffer) (m : TlvMessage) (nlmsg : NetlinkMessage) : Prop :=
  ∃ unread, (NetlinkMessage.deserialize B {}).run (m.bytes B) = .ok (nlmsg, unread)

def Datagram.bytes (d : Datagram B) : List UInt8 := (d.requests.map (TlvMessage.bytes B)).flatten

/-- Whatever the handler does, each round handles what it has read and each request is read once, in
order; the remaining length is what is left; and it is as if the requests had been sent one by one. -/
structure Datagram.Batches (d : Datagram B) : Prop where
  once : ∃ messages, List.Forall₂ (TlvMessage.Parses B) d.requests messages ∧
    ∀ (κ : Type) (handle : κ → NetlinkMessage → κ) (kernel : κ), ∃ s,
      Sending.run B (fun kernel nlmsg => some (handle kernel nlmsg)) d.bytes kernel = some s ∧
      s.kernel = messages.foldl handle kernel ∧ s.rounds.flatMap Round.handled = messages ∧
      ∀ r ∈ s.rounds, r.handled = r.read ∧ r.remain_len.toNat = r.left
  same : ∀ (κ : Type) (handle : κ → NetlinkMessage → Option κ) (kernel : κ),
    sendTo B handle kernel d.bytes = d.requests.foldlM (fun kernel m => sendTo B handle kernel (m.bytes B)) kernel

namespace MultipartNetlinkMessage

variable {input rest : List UInt8}

theorem loop_appends {before : List NetlinkMessage × Bool} {after : List NetlinkMessage × Bool}
    (run : (loop .endless (fun s => s.2) (round B) before).run input = .ok (after, rest)) :
    before.1 <+: after.1 := by
  refine loop_keeps (P := fun s => before.1 <+: s.1) ?_ prefix_rfl run
  intro s input t rest extends' one
  obtain ⟨nlmsg, mid, -, last⟩ := bind_cases one
  obtain ⟨rfl, -⟩ := pure_cases last
  exact extends'.trans (prefix_append _ _)

theorem deserialize_appends {before messages : List NetlinkMessage} {size : Nat}
    (run : (deserialize B before).run input = .ok ((messages, size), rest)) :
    before <+: messages ∧ size = getSerializedSize messages := by
  obtain ⟨⟨all, more⟩, mid, first, last⟩ := bind_cases run
  obtain ⟨same, -⟩ := pure_cases last
  cases same
  exact ⟨loop_appends first, rfl⟩

end MultipartNetlinkMessage

namespace Sending

variable {κ : Type} {handle : κ → NetlinkMessage → Option κ} {s t : Sending κ} {fuel : Nat}

/-- A round takes messages from the packet, as many bytes as the container then has, and handles
all of the container. -/
theorem round_cases (step : s.round B handle = some t) : ∃ added rest, let all := s.multipartnlmsg ++ added
      let size := MultipartNetlinkMessage.getSerializedSize all
      (MultipartNetlinkMessage.deserialize B s.multipartnlmsg).run s.p = .ok ((all, size), rest) ∧
      s.remain_len - .ofNat size = .ofNat (s.p.drop size).length ∧
      all.foldlM handle s.kernel = some t.kernel ∧ t.multipartnlmsg = all ∧
      ∃ remain_len left, t.rounds = s.rounds ++ [⟨added, all, remain_len, left⟩] := by
  unfold round at step
  split at step
  next => cases step
  next messages size rest read =>
    obtain ⟨⟨added, rfl⟩, rfl⟩ := MultipartNetlinkMessage.deserialize_appends read
    dsimp only at step
    split at step
    next holds =>
      obtain ⟨kernel, handled, same⟩ := bind_eq_some_iff.mp step
      cases same
      exact ⟨added, rest, read, holds, handled, rfl, _, _, by rw [drop_left]⟩
    next => cases step

variable (run : loop B handle fuel s = some t)
include run

theorem loop_cases : t = s ∨ 16 < s.remain_len ∧ ∃ fuel' s', s.round B handle = some s' ∧
    loop B handle fuel' s' = some t := by
  cases fuel with
  | zero => cases run
  | succ fuel =>
    unfold loop at run
    split at run
    next more =>
      obtain ⟨s', step, later⟩ := bind_eq_some_iff.mp run
      exact .inr ⟨more, fuel, s', step, later⟩
    next =>
      cases run
      exact .inl rfl

theorem loop_rounds : s.rounds <+: t.rounds := by
  induction fuel generalizing s with
  | zero => cases run
  | succ fuel ih =>
    unfold loop at run
    split at run
    next =>
      obtain ⟨s', step, later⟩ := bind_eq_some_iff.mp run
      obtain ⟨added, -, -, -, -, -, remain_len, left, rounds⟩ := round_cases step
      have grows := ih later
      rw [rounds] at grows
      exact (prefix_append _ _).trans grows
    next =>
      cases run
      exact prefix_rfl

end Sending

theorem deserialize_hdr {input rest : List UInt8} {nlmsg : NetlinkMessage}
    (run : (deserialize B {}).run input = .ok (nlmsg, rest)) :
    ∃ mid, (NetlinkMessageHeader.deserialize B).run input = .ok (nlmsg.m_hdr, mid) := by
  obtain ⟨hdr, mid, first, last⟩ := bind_cases run
  suffices same : nlmsg.m_hdr = hdr from ⟨mid, by rw [same]; exact first⟩
  dsimp only at last
  split at last
  · unfold deserializeService at last
    split at last
    case h_1 | h_7 => rw [(pure_cases last).1]
    all_goals
      obtain ⟨_, _, -, last⟩ := bind_cases last
      rw [(pure_cases last).1]
  · rw [(pure_cases last).1]

/-- `Deserialize` goes on after this message. -/
def TlvMessage.Continues (m : TlvMessage) : Prop :=
  m.hdr.m_nlmsgFlags &&& msgFMulti ≠ 0 ∧ m.hdr.m_nlmsgType ≠ msgDone

namespace TlvMessage

variable {m : TlvMessage} {nlmsg : NetlinkMessage}

variable {rest unread : List UInt8}

theorem hdr_of_run (run : (deserialize B {}).run (m.bytes B ++ rest) = .ok (nlmsg, unread)) :
    nlmsg.m_hdr = m.hdr := by
  obtain ⟨mid, run⟩ := deserialize_hdr run
  rw [bytes, append_assoc, m.hdr.reads] at run
  exact (Prod.mk.inj (Except.ok.inj run)).1.symm

theorem Parses.hdr (parses : m.Parses B nlmsg) : nlmsg.m_hdr = m.hdr := by
  obtain ⟨unread, run⟩ := parses
  rw [← append_nil (m.bytes B)] at run
  exact hdr_of_run run

theorem continues_iff (same : nlmsg.m_hdr = m.hdr) : MultipartNetlinkMessage.continues nlmsg = true ↔
    m.Continues := by
  unfold MultipartNetlinkMessage.continues Continues
  rw [same, decide_eq_true_iff]

theorem length_bytes (m : TlvMessage) : (m.bytes B).length = (m.hdr.m_nlmsgLen.toNat + 3) / 4 * 4 := by
  have split : m.bytes B = m.hdr.serialize B ++ m.body B := rfl
  rw [split, length_append, NetlinkMessageHeader.length_serialize, m.length_body]

theorem header_le_bytes (m : TlvMessage) : 16 ≤ (m.bytes B).length := by
  have split : m.bytes B = m.hdr.serialize B ++ m.body B := rfl
  rw [split, length_append, NetlinkMessageHeader.length_serialize]
  omega

theorem getSerializedSize_eq (short : (m.bytes B).length < 2 ^ 32) (same : nlmsg.m_hdr = m.hdr) :
    nlmsg.getSerializedSize = (m.bytes B).length := by
  have length := m.length_bytes (B := B)
  rw [getSerializedSize, same, msgAlign_of_le (by omega), length]

theorem deserialize_cases {messages : List NetlinkMessage} {size : Nat}
    (run : (MultipartNetlinkMessage.deserialize B []).run (m.bytes B ++ rest) = .ok ((messages, size), unread)) :
    ∃ nlmsg added, messages = nlmsg :: added ∧ nlmsg.m_hdr = m.hdr ∧ (m.Continues ↔ added ≠ []) := by
  obtain ⟨⟨all, more⟩, mid, first, last⟩ := bind_cases run
  obtain ⟨same, -⟩ := pure_cases last
  cases same
  rw [loop_run MultipartNetlinkMessage.progress_round] at first
  obtain ⟨s, mid', one, onward⟩ := bind_cases first
  obtain ⟨nlmsg, mid'', read, last⟩ := bind_cases one
  obtain ⟨rfl, rfl⟩ := pure_cases last
  have same := hdr_of_run read
  rw [loop_run MultipartNetlinkMessage.progress_round] at onward
  by_cases goes : m.Continues
  · rw [if_pos ((continues_iff same).mpr goes)] at onward
    obtain ⟨s, mid', two, onward⟩ := bind_cases onward
    obtain ⟨nlmsg', mid'', read, last⟩ := bind_cases two
    obtain ⟨rfl, rfl⟩ := pure_cases last
    obtain ⟨added, rfl⟩ := MultipartNetlinkMessage.loop_appends onward
    exact ⟨nlmsg, nlmsg' :: added, rfl, same, iff_of_true goes nofun⟩
  · rw [if_neg (mt (continues_iff same).mp goes)] at onward
    obtain ⟨same', -⟩ := pure_cases onward
    cases same'
    exact ⟨nlmsg, [], rfl, same, iff_of_false goes nofun⟩

theorem deserialize_alone (parses : m.Parses B nlmsg) (stops : ¬ m.Continues) :
    ∃ unread, (MultipartNetlinkMessage.deserialize B []).run (m.bytes B) =
      .ok (([nlmsg], MultipartNetlinkMessage.getSerializedSize [nlmsg]), unread) := by
  obtain ⟨unread, run⟩ := parses
  have same := Parses.hdr ⟨unread, run⟩
  have one : (MultipartNetlinkMessage.round B ([], true)).run (m.bytes B) =
      .ok (([nlmsg], MultipartNetlinkMessage.continues nlmsg), unread) := bind_ok run
  have loop : (loop .endless (fun s => s.2) (MultipartNetlinkMessage.round B) ([], true)).run (m.bytes B) =
      .ok (([nlmsg], MultipartNetlinkMessage.continues nlmsg), unread) := by
    rw [loop_run MultipartNetlinkMessage.progress_round, if_pos rfl, bind_ok one,
      loop_run MultipartNetlinkMessage.progress_round, if_neg (mt (continues_iff same).mp stops)]
    rfl
  exact ⟨unread, bind_ok loop⟩

end TlvMessage

section

variable {κ : Type} {handle : κ → NetlinkMessage → Option κ} {m : TlvMessage} {nlmsg : NetlinkMessage}

section

variable (short : (m.bytes B).length < 2 ^ 32)
include short

theorem more_of_long (long : 16 < m.hdr.m_nlmsgLen) (kernel : κ) :
    16 < (Sending.start (m.bytes B) kernel).remain_len := by
  have length := m.length_bytes (B := B)
  have := UInt32.lt_iff_toNat_lt.mp long
  simp only [UInt32.reduceToNat] at this
  show 16 < UInt32.ofNat (m.bytes B).length
  rw [UInt32.lt_iff_toNat_lt, UInt32.toNat_ofNat']
  simp only [UInt32.reduceToNat]
  omega

theorem run_alone (parses : m.Parses B nlmsg) (stops : ¬ m.Continues) (long : 16 < m.hdr.m_nlmsgLen) (kernel : κ) :
    Sending.run B handle (m.bytes B) kernel = (handle kernel nlmsg).map fun kernel =>
      { p := [], remain_len := 0, multipartnlmsg := [nlmsg], kernel, rounds := [⟨[nlmsg], [nlmsg], 0, 0⟩] } := by
  obtain ⟨unread, read⟩ := TlvMessage.deserialize_alone parses stops
  have size : MultipartNetlinkMessage.getSerializedSize [nlmsg] = (m.bytes B).length := by
    rw [MultipartNetlinkMessage.getSerializedSize, map_singleton, sum_singleton,
      TlvMessage.getSerializedSize_eq short parses.hdr, Nat.mod_eq_of_lt short]
  rw [size] at read
  have step : (Sending.start (m.bytes B) kernel).round B handle = (handle kernel nlmsg).map fun kernel =>
      { p := [], remain_len := 0, multipartnlmsg := [nlmsg], kernel, rounds := [⟨[nlmsg], [nlmsg], 0, 0⟩] } := by
    unfold Sending.round Sending.start
    rw [read]
    dsimp only
    rw [drop_length, UInt32.sub_self, foldlM_cons]
    cases handle kernel nlmsg <;> rfl
  have length := m.header_le_bytes (B := B)
  obtain ⟨fuel, enough⟩ := Nat.exists_eq_add_one_of_ne_zero (show (m.bytes B).length ≠ 0 by omega)
  unfold Sending.run
  rw [enough, Sending.loop, if_pos (more_of_long short long kernel), step]
  cases handle kernel nlmsg <;> rfl

theorem sendTo_alone (parses : m.Parses B nlmsg) (stops : ¬ m.Continues)
    (long : 16 < m.hdr.m_nlmsgLen) (kernel : κ) : sendTo B handle kernel (m.bytes B) = handle kernel nlmsg := by
  unfold sendTo
  rw [run_alone short parses stops long]
  cases handle kernel nlmsg <;> rfl

end

theorem run_header (header : m.hdr.m_nlmsgLen ≤ 16) (kernel : κ) :
    Sending.run B handle (m.bytes B) kernel = some (.start (m.bytes B) kernel) := by
  have length := m.length_bytes (B := B)
  have small := UInt32.le_iff_toNat_le.mp header
  simp only [UInt32.reduceToNat] at small
  unfold Sending.run Sending.loop
  rw [if_neg]
  show ¬ 16 < UInt32.ofNat (m.bytes B).length
  rw [UInt32.lt_iff_toNat_lt, UInt32.toNat_ofNat']
  simp only [UInt32.reduceToNat]
  omega

end

/-- A handler that keeps what it is given. -/
def record (log : List NetlinkMessage) (nlmsg : NetlinkMessage) : Option (List NetlinkMessage) :=
  some (log ++ [nlmsg])

section

variable {m : TlvMessage} {log log' : List NetlinkMessage}

section

variable (messages log : List NetlinkMessage)

theorem foldlM_record : messages.foldlM record log = some (log ++ messages) := by
  induction messages generalizing log with
  | nil => rw [append_nil]; rfl
  | cons m messages ih =>
    exact (ih (log ++ [m])).trans (by rw [append_assoc]; rfl)

theorem foldl_record : messages.foldl (fun log nlmsg => log ++ [nlmsg]) log = log ++ messages := by
  induction messages generalizing log with
  | nil => exact (append_nil log).symm
  | cons m messages ih => rw [foldl_cons, ih, append_assoc, singleton_append]

end

theorem Sending.loop_record {fuel : Nat} {s t : Sending (List NetlinkMessage)}
    (run : Sending.loop B record fuel s = some t) :
    s.kernel <+: t.kernel := by
  induction fuel generalizing s with
  | zero => cases run
  | succ fuel ih =>
    unfold Sending.loop at run
    split at run
    next =>
      obtain ⟨s', step, later⟩ := bind_eq_some_iff.mp run
      obtain ⟨added, -, -, -, handled, -⟩ := Sending.round_cases step
      rw [foldlM_record] at handled
      have grows := ih later
      rw [← some.inj handled] at grows
      exact (prefix_append _ _).trans grows
    next =>
      cases run
      exact prefix_rfl

theorem sendTo_record {p : List UInt8} (run : sendTo B record log p = some log') : log <+: log' := by
  obtain ⟨t, sent, rfl⟩ := map_eq_some_iff.mp run
  exact Sending.loop_record (s := .start p log) sent

theorem sendTo_long (short : (m.bytes B).length < 2 ^ 32) (long : 16 < m.hdr.m_nlmsgLen)
    (run : sendTo B record log (m.bytes B) = some log') :
    ∃ nlmsg added, log ++ nlmsg :: added <+: log' ∧ nlmsg.m_hdr = m.hdr ∧ (m.Continues ↔ added ≠ []) ∧
      let size := MultipartNetlinkMessage.getSerializedSize (nlmsg :: added)
      UInt32.ofNat (m.bytes B).length - .ofNat size = .ofNat ((m.bytes B).drop size).length := by
  obtain ⟨t, sent, rfl⟩ := map_eq_some_iff.mp run
  unfold Sending.run Sending.loop at sent
  rw [if_pos (more_of_long short long log)] at sent
  obtain ⟨s, step, later⟩ := bind_eq_some_iff.mp sent
  obtain ⟨all, rest, read, holds, handled, -⟩ := Sending.round_cases step
  have read' : (MultipartNetlinkMessage.deserialize B []).run (m.bytes B ++ []) =
      .ok ((all, MultipartNetlinkMessage.getSerializedSize all), rest) := by
    rw [append_nil]
    exact read
  obtain ⟨nlmsg, added, rfl, same, goes⟩ := TlvMessage.deserialize_cases read'
  have grows := Sending.loop_record later
  rw [foldlM_record] at handled
  rw [← some.inj handled] at grows
  exact ⟨nlmsg, added, grows, same, goes, holds⟩

variable {requests : List TlvMessage}

theorem foldlM_sendTo_record
    (run : requests.foldlM (fun log m => sendTo B record log (m.bytes B)) log = some log') : log <+: log' := by
  induction requests generalizing log with
  | nil =>
    cases run
    exact prefix_rfl
  | cons m requests ih =>
    obtain ⟨log₁, first, run⟩ := bind_eq_some_iff.mp run
    exact (sendTo_record first).trans (ih run)

theorem head_foldlM_sendTo (short : ∀ m ∈ requests, (m.bytes B).length < 2 ^ 32)
    (run : requests.foldlM (fun log m => sendTo B record log (m.bytes B)) [] = some log') :
    ∀ nlmsg ∈ log'.head?, 16 < nlmsg.m_hdr.m_nlmsgLen := by
  induction requests with
  | nil =>
    cases run
    exact fun _ mem => nomatch mem
  | cons m requests ih =>
    rw [foldlM_cons] at run
    obtain ⟨log₁, first, run⟩ := bind_eq_some_iff.mp run
    by_cases long : 16 < m.hdr.m_nlmsgLen
    · obtain ⟨nlmsg, added, grows, same, -⟩ := sendTo_long (short m mem_cons_self) long first
      obtain ⟨later, rfl⟩ := grows.trans (foldlM_sendTo_record run)
      intro head mem
      cases mem
      rw [same]
      exact long
    · unfold sendTo at first
      rw [run_header (UInt32.not_lt.mp long)] at first
      cases first
      exact ih (fun m mem => short m (mem_cons_of_mem _ mem)) run

end

namespace Datagram

theorem short (d : Datagram B) : ∀ m ∈ d.requests, (m.bytes B).length < 2 ^ 32 := by
  intro m mem
  have total := d.size
  have part := (sublist_flatten_of_mem (mem_map_of_mem (f := TlvMessage.bytes B) mem)).length_le
  omega

/-- There is no request, or one; it is longer than its header, and the parser does not fail on it
and stops after it. -/
def Single (d : Datagram B) : Prop :=
  d.requests = [] ∨ ∃ m, d.requests = [m] ∧ (∃ nlmsg, m.Parses B nlmsg) ∧ 16 < m.hdr.m_nlmsgLen ∧ ¬ m.Continues

variable {d : Datagram B} {messages : List NetlinkMessage} {requests : List TlvMessage}

theorem Single.batches (single : d.Single) : d.Batches := by
  have short := d.short
  obtain ⟨requests, size⟩ := d
  rcases single with rfl | ⟨m, rfl, ⟨nlmsg, parses⟩, long, stops⟩
  · exact ⟨⟨[], .nil, fun κ handle kernel => ⟨.start [] kernel, rfl, rfl, rfl, fun r mem => nomatch mem⟩⟩,
      fun κ handle kernel => rfl⟩
  · have whole : (Datagram.mk (B := B) [m] size).bytes = m.bytes B := flatten_singleton
    refine ⟨⟨[nlmsg], .cons parses .nil, fun κ handle kernel => ?_⟩, fun κ handle kernel => ?_⟩
    · rw [whole, run_alone (short m mem_cons_self) parses stops long]
      refine ⟨_, rfl, rfl, rfl, fun r mem => ?_⟩
      rw [mem_singleton.mp mem]
      exact ⟨rfl, rfl⟩
    · rw [whole]
      exact (bind_pure _).symm

section

variable (short : ∀ m ∈ requests, (m.bytes B).length < 2 ^ 32)
    (pairs : List.Forall₂ (TlvMessage.Parses B) requests messages)
include short pairs

theorem sum_sizes : (messages.map getSerializedSize).sum = ((requests.map (TlvMessage.bytes B)).flatten).length := by
  induction pairs with
  | nil => rfl
  | cons here _ ih =>
    have later := ih fun m mem => short m (mem_cons_of_mem _ mem)
    rw [map_cons, sum_cons, map_cons, flatten_cons, length_append, later,
      TlvMessage.getSerializedSize_eq (short _ mem_cons_self) here.hdr]

theorem size_pos : ∀ nlmsg ∈ messages, 16 ≤ nlmsg.getSerializedSize := by
  induction pairs with
  | nil => exact fun _ mem => nomatch mem
  | cons here _ ih =>
    refine forall_mem_cons.mpr ⟨?_, ih fun m mem => short m (mem_cons_of_mem _ mem)⟩
    rw [TlvMessage.getSerializedSize_eq (short _ mem_cons_self) here.hdr]
    exact TlvMessage.header_le_bytes _

end

/-- If the first request asks the parser to go on, it is not handled alone as it is here. -/
theorem not_continues {m : TlvMessage} {nlmsg : NetlinkMessage}
    (short : ∀ m' ∈ m :: requests, (m'.bytes B).length < 2 ^ 32)
    (size : (((m :: requests).map (TlvMessage.bytes B)).flatten).length < 2 ^ 32)
    (pairs : List.Forall₂ (TlvMessage.Parses B) (m :: requests) (nlmsg :: messages))
    (apart : (m :: requests).foldlM (fun log m => sendTo B record log (m.bytes B)) [] = some (nlmsg :: messages)) :
    ¬ m.Continues := by
  intro goes
  have lengths := sum_sizes short pairs
  have positive := size_pos short pairs
  have here := (forall₂_cons.mp pairs).1
  by_cases long : 16 < m.hdr.m_nlmsgLen
  · obtain ⟨log, first, later⟩ := bind_eq_some_iff.mp apart
    obtain ⟨nlmsg', added, grows, -, more, holds⟩ := sendTo_long (short m mem_cons_self) long first
    obtain ⟨rest, split⟩ := grows.trans (foldlM_sendTo_record later)
    obtain ⟨rfl, rfl⟩ := cons_eq_cons.mp split
    obtain ⟨second, added, rfl⟩ := exists_cons_of_ne_nil (more.mp goes)
    -- the messages that are taken together are longer than the packet
    have one := TlvMessage.getSerializedSize_eq (short m mem_cons_self) here.hdr
    have two := positive second (by simp)
    have total : ((nlmsg' :: second :: added).map getSerializedSize).sum +
        (rest.map getSerializedSize).sum = (((m :: requests).map (TlvMessage.bytes B)).flatten).length := by
      rw [← lengths, ← sum_append, ← map_append]
      rfl
    rw [MultipartNetlinkMessage.getSerializedSize] at holds
    rw [map_cons, map_cons, sum_cons, sum_cons] at holds total
    have left := congrArg UInt32.toNat holds
    rw [UInt32.toNat_sub, UInt32.toNat_ofNat', UInt32.toNat_ofNat', UInt32.toNat_ofNat', length_drop] at left
    omega
  · have head := head_foldlM_sendTo short apart nlmsg rfl
    rw [here.hdr] at head
    exact long head

theorem Batches.single (batches : d.Batches) : d.Single := by
  have short := d.short
  have size := d.size
  obtain ⟨⟨messages, pairs, runs⟩, same⟩ := batches
  obtain ⟨s, run, kernel, handled, rounds⟩ := runs _ (fun log nlmsg => log ++ [nlmsg]) []
  have together : sendTo B record [] d.bytes = some messages := by
    rw [foldl_record] at kernel
    exact map_eq_some_iff.mpr ⟨s, run, kernel⟩
  have apart := (same _ record []).symm.trans together
  unfold bytes at run
  unfold Single
  cases each : d.requests with
  | nil => exact .inl rfl
  | cons m requests =>
    rw [each] at pairs run apart short size
    refine .inr ?_
    cases messages with
    | nil => cases pairs
    | cons nlmsg messages =>
      have stops := not_continues short size pairs apart
      obtain ⟨here, later⟩ := forall₂_cons.mp pairs
      rw [map_cons, flatten_cons] at run
      -- the first round is made, or nothing would be handled
      rcases Sending.loop_cases run with rfl | ⟨-, fuel, s', step, onward⟩
      · cases handled
      obtain ⟨added, rest, read, -, -, container, remain_len, left, rounds'⟩ := Sending.round_cases step
      obtain ⟨first, added, rfl, -, more⟩ := TlvMessage.deserialize_cases read
      obtain rfl := not_not.mp (mt more.mpr stops)
      cases later with
      | nil =>
        refine ⟨m, rfl, ⟨nlmsg, here⟩, by_contra fun long => ?_, stops⟩
        rw [map_nil, flatten_nil, append_nil, run_header (UInt32.not_lt.mp long)] at run
        cases run
        cases handled
      | cons =>
        rcases Sending.loop_cases onward with rfl | ⟨-, fuel', s'', step', onward⟩
        · -- the second request is left out
          rw [rounds'] at handled
          cases handled
        · -- the second round handles the first request again
          obtain ⟨added', -, -, -, -, -, remain_len', left', rounds''⟩ := Sending.round_cases step'
          have later := (Sending.loop_rounds onward).subset (rounds'' ▸ mem_append_right _ mem_cons_self)
          have again := congrArg length (rounds _ later).1
          rw [container] at again
          change (first :: added').length = added'.length at again
          rw [length_cons] at again
          omega

/-- A datagram is handled as its requests are if and only if there is at most one, and that one is
whole in itself. -/
theorem batches_iff (d : Datagram B) : d.Batches ↔ d.Single :=
  ⟨Batches.single, Single.batches⟩

end Datagram

/-- A request for all addresses. -/
def getAddr : TlvMessage where
  hdr := { m_nlmsgLen := 20, m_nlmsgType := rtmGetAddr, m_nlmsgFlags := 0x301, m_nlmsgSeq := 1 }
  service := [0, 0, 0, 0]
  attributes := []
  hasService := (⟨1, rfl⟩ : 4 ∣ 4)
  tiled := rfl

def getAddrTwice : Datagram .littleEndian where
  requests := [getAddr, getAddr]
  size := by
    show (getAddr.bytes _ ++ (getAddr.bytes _ ++ [])).length < 2 ^ 32
    rw [List.length_append, List.length_append, TlvMessage.length_bytes]
    decide

/-- Of two requests in a datagram the first is handled twice. -/
theorem not_batches : ¬ getAddrTwice.Batches := by
  intro batches
  rcases batches.single with none | ⟨m, one, -⟩
  · cases none
  · cases one

end Dce.Netlink
