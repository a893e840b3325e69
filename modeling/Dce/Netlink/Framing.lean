import Dce.Netlink.Message
import Mathlib.Data.List.TakeWhile

namespace Dce.Netlink

open NetlinkMessage NetlinkAttributeValue Reader List

variable {B : Buffer}

/-- An attribute as it lies in a message: its `struct nlattr`, then its payload with the padding. -/
structure Tlv where
  nla_len : UInt16
  nla_type : UInt16
  payload : List UInt8
  covers : 4 ≤ nla_len.toNat
  padded : 4 + payload.length = (nla_len.toNat + 3) / 4 * 4

def Tlv.bytes (B : Buffer) (t : Tlv) : List UInt8 :=
  B.u16.encode t.nla_len ++ B.u16.encode t.nla_type ++ t.payload

/-- The size of the struct between a header and its attributes. Where the source reads none, or
has one for requests to dump, it is any multiple of 4. -/
def NetlinkMessageHeader.HasService (h : NetlinkMessageHeader) (size : Nat) : Prop :=
  match h.service with
  | .route => size = 12
  | .address => size = 8
  | .interface => size = 16
  | _ => 4 ∣ size

/-- A message as it lies in a packet: a header, the struct of its type, and attributes that fill
what `nlmsg_len` says, padding included. -/
structure TlvMessage where
  hdr : NetlinkMessageHeader
  service : List UInt8
  attributes : List Tlv
  hasService : hdr.HasService service.length
  tiled : (hdr.m_nlmsgLen.toNat + 3) / 4 * 4 = 16 + service.length +
    (attributes.map fun t => 4 + t.payload.length).sum

namespace TlvMessage

def attributeBytes (B : Buffer) (m : TlvMessage) : List UInt8 := (m.attributes.map (Tlv.bytes B)).flatten

def bytes (B : Buffer) (m : TlvMessage) : List UInt8 :=
  m.hdr.serialize B ++ (m.service ++ m.attributeBytes B)

end TlvMessage

theorem Tlv.length_bytes (t : Tlv) : (t.bytes B).length = 4 + t.payload.length := by
  rw [bytes, length_append, length_append, B.u16.length_encode, B.u16.length_encode, B.width_u16]

theorem TlvMessage.length_attributeBytes (m : TlvMessage) :
    (m.attributeBytes B).length = (m.attributes.map fun t => 4 + t.payload.length).sum := by
  rw [attributeBytes, length_flatten, map_map]
  exact congrArg sum (map_congr_left fun t _ => t.length_bytes)

/-- The attribute types of the message that follows a header, and those it has read. -/
def Service.attributeTypes : Service → List NetlinkAttributeValueType
  | .route => RouteMessage.m_attributeTypes
  | .address => InterfaceAddressMessage.m_attributeTypes
  | .interface => InterfaceInfoMessage.m_attributeTypes
  | _ => []

def Service.attributes (m : NetlinkMessage) : Service → List NetlinkAttribute
  | .route => m.m_routeTemplate.m_attributes
  | .address => m.m_addressTemplate.m_attributes
  | .interface => m.m_interfaceTemplate.m_attributes
  | _ => []

/-- `NetlinkAttribute::Deserialize` takes this attribute whole, and the caller's loop takes as much
off its length. -/
def Tlv.ReadAs (B : Buffer) (vtypes : List NetlinkAttributeValueType) (t : Tlv) (attr : NetlinkAttribute) : Prop :=
  (NetlinkAttribute.deserialize B vtypes).Reads (t.bytes B) attr ∧ (t.bytes B).length = attr.getSerializedSize

/-- `NetlinkMessage::Deserialize` takes this message whole, and one attribute for each of its own. -/
def TlvMessage.ReadAs (B : Buffer) (m : TlvMessage) (nlmsg : NetlinkMessage) : Prop :=
  (NetlinkMessage.deserialize B {}).Reads (m.bytes B) nlmsg ∧
    List.Forall₂ (Tlv.ReadAs B m.hdr.service.attributeTypes) m.attributes (m.hdr.service.attributes nlmsg)

/-- `n` messages, one after the other. -/
def deserializeMessages (B : Buffer) : Nat → Reader Fault (List NetlinkMessage)
  | 0 => return []
  | n + 1 => do
    let nlmsg ← NetlinkMessage.deserialize B {}
    return nlmsg :: (← deserializeMessages B n)

/-- A stream of messages is read to its end, each message and each attribute whole, and also by
`MultipartNetlinkMessage::Deserialize` if it goes on as far. -/
def Tracks (B : Buffer) (stream : List TlvMessage) : Prop :=
  ∃ messages, List.Forall₂ (TlvMessage.ReadAs B) stream messages ∧
    (deserializeMessages B stream.length).Reads (stream.map (TlvMessage.bytes B)).flatten messages ∧
    (MultipartNetlinkMessage.Framed messages →
      (MultipartNetlinkMessage.deserialize B []).Reads (stream.map (TlvMessage.bytes B)).flatten
        (messages, MultipartNetlinkMessage.getSerializedSize messages))

/-- What a payload is to be for the reader of its type: not known to the table, it has none; an
integer has from 1 to 4 bytes; a string ends in the last word of its payload and before the buffer
does; an address has 20 bytes at most. -/
def Tlv.Readable (vtypes : List NetlinkAttributeValueType) (t : Tlv) : Prop :=
  match vtypes[t.nla_type.toNat]? with
  | none | some .U64 => False
  | some .UNSPEC => t.payload = []
  | some .U8 | some .U16 | some .U32 => t.payload.length = 4
  | some .STRING =>
    let length := (t.payload.takeWhile (· ≠ 0)).length
    length < 512 ∧ (length + 1 + 3) / 4 * 4 = t.payload.length
  | some .ADDRESS => t.nla_len.toNat ≤ 4 + 20

/-- What a message is to be for the branch of its type: a dump request has 4 bytes of body, an
error 20 and the types that are not read none; of the others every attribute is readable. -/
def TlvMessage.Readable (m : TlvMessage) : Prop :=
  match m.hdr.service with
  | .done | .unknown => m.service = [] ∧ m.attributes = []
  | .error => (m.service = [] ∨ m.service.length = 20) ∧ m.attributes = []
  | .general => (m.service = [] ∨ m.service.length = 4) ∧ m.attributes = []
  | .route | .address | .interface => ∀ t ∈ m.attributes, t.Readable m.hdr.service.attributeTypes

namespace Tlv

variable {vtypes : List NetlinkAttributeValueType} {type : NetlinkAttributeValueType} {t : Tlv}

theorem toNat_sub_four (t : Tlv) : (t.nla_len - 4).toNat = t.nla_len.toNat - 4 := by
  have := t.covers
  have := t.nla_len.toNat_lt
  rw [UInt16.toNat_sub]
  simp only [UInt16.reduceToNat]
  omega

theorem readAs_of_value (value : NetlinkAttributeValue) (xs pad : List UInt8)
    (known : vtypes[t.nla_type.toNat]? = some type) (split : t.payload = xs ++ pad)
    (reads : (deserializeValue B type (t.nla_len.toNat - 4)).Reads xs (value, value.getSize))
    (padded : pad.length = msgAlign value.getSize - value.getSize)
    (size : t.payload.length = msgAlign value.getSize) :
    t.ReadAs B vtypes ⟨t.nla_len, t.nla_type, value⟩ := by
  refine ⟨?_, by rw [length_bytes, size]; rfl⟩
  have payload : (deserializeWithType B type (t.nla_len - 4).toNat).Reads t.payload value := by
    rw [toNat_sub_four, split]
    exact reads.bind ((reads_bytes _ padded).map fun _ => value)
  unfold bytes
  rw [append_assoc]
  refine (B.u16.reads _ t.nla_len).bind ((B.u16.reads _ t.nla_type).bind ?_)
  rw [known]
  exact payload.map (NetlinkAttribute.mk t.nla_len t.nla_type)

theorem readAs_of_integer (value : List UInt8 → NetlinkAttributeValue) (n : Nat)
    (known : vtypes[t.nla_type.toNat]? = some type) (four : t.payload.length = 4) (positive : 0 < n) (short : n ≤ 4)
    (size : ∀ xs, (value xs).getSize = n)
    (reads : ∀ xs, xs.length = n → (deserializeValue B type (t.nla_len.toNat - 4)).Reads xs (value xs, n)) :
    ∃ attr, t.ReadAs B vtypes attr := by
  have whole : msgAlign n = 4 := by
    unfold msgAlign
    omega
  refine ⟨_, readAs_of_value (value (t.payload.take n)) _ _ known (take_append_drop n t.payload).symm ?_ ?_ ?_⟩
  · rw [size]
    exact reads _ (by rw [length_take]; omega)
  · rw [size, whole, length_drop, four]
  · rw [size, whole, four]

theorem exists_terminator {xs : List UInt8} (ends : (xs.takeWhile (· ≠ 0)).length < xs.length) :
    ∃ pad, xs = xs.takeWhile (· ≠ 0) ++ 0 :: pad := by
  induction xs with
  | nil => cases ends
  | cons b xs ih =>
    by_cases zero : b = 0
    · exact ⟨xs, by simp [zero]⟩
    · rw [takeWhile_cons_of_pos (by simpa using zero)] at ends ⊢
      obtain ⟨pad, split⟩ := ih (by simpa using ends)
      exact ⟨pad, congrArg (b :: ·) split⟩

theorem Readable.exists_readAs (readable : t.Readable vtypes) : ∃ attr, t.ReadAs B vtypes attr := by
  unfold Readable at readable
  split at readable
  case h_1 => cases readable
  case h_2 => cases readable
  case h_3 known =>
    exact ⟨_, readAs_of_value .unspec [] [] known (by rw [readable]; rfl) (Reads.pure _) rfl (by rw [readable]; rfl)⟩
  case h_4 known =>
    refine readAs_of_integer (fun xs => .u8 (xs.headD 0)) 1 known readable (by omega) (by omega) (fun _ => rfl) ?_
    intro xs length
    obtain ⟨b, rfl⟩ := length_eq_one_iff.mp length
    exact (reads_byte _ b).map fun v => (u8 v, 1)
  case h_5 known =>
    refine readAs_of_integer (fun xs => .u16 (B.u16.decode xs)) 2 known readable (by omega) (by omega)
      (fun _ => rfl) ?_
    intro xs length
    exact ((reads_bytes _ (length.trans B.width_u16.symm)).map B.u16.decode).map fun v => (u16 v, 2)
  case h_6 known =>
    refine readAs_of_integer (fun xs => .u32 (B.u32.decode xs)) 4 known readable (by omega) (by omega)
      (fun _ => rfl) ?_
    intro xs length
    exact ((reads_bytes _ (length.trans B.width_u32.symm)).map B.u32.decode).map fun v => (u32 v, 4)
  case h_7 known =>
    obtain ⟨room, ends⟩ := readable
    obtain ⟨pad, split⟩ := exists_terminator (show (t.payload.takeWhile (· ≠ 0)).length < t.payload.length by omega)
    have free : 0 ∉ t.payload.takeWhile (· ≠ 0) := fun mem => by
      simpa using mem_takeWhile_imp mem
    have length := congrArg length split
    have whole : msgAlign ((t.payload.takeWhile (· ≠ 0)).length + 1) = t.payload.length := by
      rw [← ends]
      exact msgAlign_of_le (by omega)
    generalize t.payload.takeWhile (· ≠ 0) = v at *
    rw [length_append, length_cons] at length
    refine ⟨_, readAs_of_value (.string v) (v ++ [0]) pad known (by rw [split, append_assoc]; rfl) ?_ ?_ ?_⟩
    · exact (reads_readString free room).map fun v => (string v, v.length + 1)
    · rw [getSize]
      omega
    · rw [getSize, whole]
  case h_8 known =>
    have padded := t.padded
    have whole : msgAlign (t.nla_len.toNat - 4) = t.payload.length := by
      unfold msgAlign
      omega
    have length : (t.payload.take (t.nla_len.toNat - 4)).length = t.nla_len.toNat - 4 := by
      rw [length_take]
      omega
    refine ⟨_, readAs_of_value (.address (t.payload.take (t.nla_len.toNat - 4))) _ _ known
      (take_append_drop (t.nla_len.toNat - 4) t.payload).symm ?_ ?_ ?_⟩
    · have run : (B.readFrom (t.nla_len.toNat - 4)).Reads (t.payload.take (t.nla_len.toNat - 4))
          (t.payload.take (t.nla_len.toNat - 4)) := by
        rw [B.readFrom_fits _ (by omega)]
        exact reads_bytes _ length
      exact run.map fun v => (address v, v.length)
    · rw [getSize, length, whole, length_drop]
    · rw [getSize, length, whole]

theorem readString_cases {room : Nat} {input rest v : List UInt8}
    (run : (readString room).run input = .ok (v, rest)) :
    input = v ++ 0 :: rest ∧ 0 ∉ v ∧ v.length < room := by
  induction room generalizing input v with
  | zero => cases run
  | succ room ih =>
    obtain ⟨b, mid, first, last⟩ := bind_cases run
    cases byte_cases first
    by_cases zero : b = 0
    · rw [if_pos zero] at last
      obtain ⟨rfl, rfl⟩ := pure_cases last
      exact ⟨by rw [zero]; rfl, not_mem_nil, by rw [length_nil]; omega⟩
    · rw [if_neg zero] at last
      obtain ⟨w, mid, later, last⟩ := bind_cases last
      obtain ⟨rfl, rfl⟩ := pure_cases last
      obtain ⟨rfl, free, short⟩ := ih later
      refine ⟨rfl, fun mem => ?_, by rw [length_cons]; omega⟩
      exact (mem_cons.mp mem).elim (fun same => zero same.symm) free

theorem takeWhile_string {v rest : List UInt8} (free : 0 ∉ v) : (v ++ 0 :: rest).takeWhile (· ≠ 0) = v := by
  induction v with
  | nil => simp
  | cons b v ih =>
    obtain ⟨first, others⟩ := not_or.mp fun either => free (mem_cons.mpr either)
    rw [cons_append, takeWhile_cons_of_pos (by simpa using Ne.symm first), ih others]

theorem readable_of_run {payload : NetlinkAttributeValue} (known : vtypes[t.nla_type.toNat]? = some type)
    (narrow : type ≠ .U64)
    (run : (deserializeWithType B type (t.nla_len - 4).toNat).run t.payload = .ok (payload, [])) :
    t.Readable vtypes := by
  obtain ⟨⟨value, len⟩, mid, first, run⟩ := bind_cases run
  obtain ⟨pad, rest, last, run⟩ := bind_cases run
  obtain ⟨-, rfl⟩ := pure_cases run
  obtain ⟨rfl, padded⟩ := bytes_cases last
  rw [append_nil] at first
  rw [toNat_sub_four] at first
  unfold Readable
  rw [known]
  cases type with
  | UNSPEC =>
    obtain ⟨same, rfl⟩ := pure_cases first
    cases same
    exact length_eq_zero_iff.mp padded
  | U8 =>
    obtain ⟨b, mid, read, run⟩ := bind_cases first
    obtain ⟨same, rfl⟩ := pure_cases run
    cases same
    show t.payload.length = 4
    rw [byte_cases read, length_cons, padded]
    decide
  | U16 =>
    obtain ⟨v, mid, read, run⟩ := bind_cases first
    obtain ⟨same, rfl⟩ := pure_cases run
    cases same
    obtain ⟨xs, split, length, -⟩ := Codec.read_cases read
    show t.payload.length = 4
    rw [split, length_append, length, B.width_u16, padded]
    decide
  | U32 =>
    obtain ⟨v, mid, read, run⟩ := bind_cases first
    obtain ⟨same, rfl⟩ := pure_cases run
    cases same
    obtain ⟨xs, split, length, -⟩ := Codec.read_cases read
    show t.payload.length = 4
    rw [split, length_append, length, B.width_u32, padded]
    decide
  | U64 => exact absurd rfl narrow
  | STRING =>
    obtain ⟨v, mid, read, run⟩ := bind_cases first
    obtain ⟨same, rfl⟩ := pure_cases run
    cases same
    obtain ⟨split, free, short⟩ := readString_cases read
    have length := congrArg length split
    have whole := msgAlign_of_le (x := v.length + 1) (by omega)
    rw [length_append, length_cons, padded] at length
    show (t.payload.takeWhile (· ≠ 0)).length < 512 ∧ ((t.payload.takeWhile (· ≠ 0)).length + 1 + 3) / 4 * 4 =
      t.payload.length
    rw [show t.payload.takeWhile (· ≠ 0) = v from split ▸ takeWhile_string free]
    omega
  | ADDRESS =>
    obtain ⟨v, mid, read, run⟩ := bind_cases first
    rcases Nat.lt_or_ge 20 (t.nla_len.toNat - 4) with large | fits
    · rw [B.readFrom_large _ large] at read
      cases read
    · omega

theorem readable_of_readAs {attr : NetlinkAttribute} (narrow : .U64 ∉ vtypes) (readAs : t.ReadAs B vtypes attr) :
    t.Readable vtypes := by
  have run := readAs.1 []
  unfold bytes NetlinkAttribute.deserialize at run
  rw [append_assoc, append_assoc, bind_ok (B.u16.reads _ t.nla_len _), bind_ok (B.u16.reads _ t.nla_type _),
    append_nil] at run
  cases known : vtypes[t.nla_type.toNat]? with
  | none =>
    rw [known] at run
    cases run
  | some type =>
    rw [known] at run
    obtain ⟨payload, rest, read, run⟩ := bind_cases run
    obtain ⟨-, rfl⟩ := pure_cases run
    exact readable_of_run known (fun wide => narrow (wide ▸ mem_of_getElem? known)) read

end Tlv

section

variable {len : UInt32} {ys : List UInt8} {attrs : List NetlinkAttribute}

theorem covers_u16 : (B.u16.read Fault.pastEnd).Covers 2 [] fun _ => True := by
  rw [← B.width_u16]
  exact B.u16.covers _

theorem covers_u32 : (B.u32.read Fault.pastEnd).Covers 4 [] fun _ => True := by
  rw [← B.width_u32]
  exact B.u32.covers _

theorem covers_header : (NetlinkMessageHeader.deserialize B).Covers 16 [] fun _ => True :=
  covers_u32.bind fun _ => covers_u16.bind fun _ => covers_u16.bind fun _ => covers_u32.bind fun _ =>
    covers_u32.bind fun _ => .last (.pure _) trivial

theorem covers_error : (NetlinkMessageError.deserialize B).Covers 20 [] fun _ => True :=
  covers_u32.bind fun _ => covers_header.bind fun _ => .last (.pure _) trivial

theorem covers_general (m : GeneralMessage) : m.deserialize.Covers 4 [] fun _ => True :=
  (covers_byte _).bind fun _ => (covers_bytes _ 3).bind fun _ => .last (.pure _) trivial

theorem covers_route (read : (deserializeAttribute B RouteMessage.m_attributeTypes (len - 12) []).Reads ys attrs) :
    (RouteMessage.deserialize B {} len).Covers 12 ys fun m => m.m_attributes = attrs := by
  show Covers _ (1 + (1 + (1 + (1 + (1 + (1 + (1 + (1 + (4 + 0))))))))) ys _
  refine (covers_byte _).bind fun m_family => (covers_byte _).bind fun m_dstLen =>
    (covers_byte _).bind fun m_srcLen => (covers_byte _).bind fun m_tos =>
    (covers_byte _).bind fun m_tableId => (covers_byte _).bind fun m_protocol =>
    (covers_byte _).bind fun m_scope => (covers_byte _).bind fun m_type =>
    covers_u32.bind fun m_flags => ?_
  have last := read.map fun m_attributes =>
    RouteMessage.mk ⟨m_family, m_attributes⟩ m_dstLen m_srcLen m_tos m_tableId m_protocol m_scope m_type m_flags
  exact .last last rfl

theorem covers_address
    (read : (deserializeAttribute B InterfaceAddressMessage.m_attributeTypes (len - 8) []).Reads ys attrs) :
    (InterfaceAddressMessage.deserialize B {} len).Covers 8 ys fun m => m.m_attributes = attrs := by
  show Covers _ (1 + (1 + (1 + (1 + (4 + 0))))) ys _
  refine (covers_byte _).bind fun m_family => (covers_byte _).bind fun m_length =>
    (covers_byte _).bind fun m_flags => (covers_byte _).bind fun m_scope =>
    covers_u32.bind fun m_index => ?_
  have last := read.map fun m_attributes =>
    InterfaceAddressMessage.mk ⟨m_family, m_attributes⟩ m_length m_flags m_scope m_index.toInt32
  exact .last last rfl

theorem covers_interface
    (read : (deserializeAttribute B InterfaceInfoMessage.m_attributeTypes (len - 16) []).Reads ys attrs) :
    (InterfaceInfoMessage.deserialize B {} len).Covers 16 ys fun m => m.m_attributes = attrs := by
  show Covers _ (1 + (1 + (2 + (4 + (4 + (4 + 0)))))) ys _
  refine (covers_byte _).bind fun m_family => (covers_byte _).bind fun m_reserved =>
    covers_u16.bind fun m_deviceType => covers_u32.bind fun m_interfaceIndex =>
    covers_u32.bind fun m_deviceFlags => covers_u32.bind fun m_changeMask => ?_
  have last := read.map fun m_attributes =>
    InterfaceInfoMessage.mk ⟨m_family, m_attributes⟩
      m_reserved m_deviceType m_interfaceIndex.toInt32 m_deviceFlags m_changeMask
  exact .last last rfl

end

theorem takes_header : (NetlinkMessageHeader.deserialize B).Takes 16 := by
  have four := fun fault : Fault => B.u32.takes fault
  have two := fun fault : Fault => B.u16.takes fault
  rw [B.width_u32] at four
  rw [B.width_u16] at two
  exact (four _).bind fun _ => (two _).bind fun _ => (two _).bind fun _ => (four _).bind fun _ =>
    (four _).bind fun _ => .pure _

theorem takes_error : (NetlinkMessageError.deserialize B).Takes 20 := by
  have four := B.u32.takes Fault.pastEnd
  rw [B.width_u32] at four
  exact four.bind fun _ => takes_header.bind fun _ => .pure _

theorem takes_general (m : GeneralMessage) : m.deserialize.Takes 4 :=
  (takes_byte _).bind fun _ => (takes_bytes _ 3).bind fun _ => .pure _

theorem exists_forall₂ {α β : Type} {R : α → β → Prop} {xs : List α} (each : ∀ x ∈ xs, ∃ y, R x y) :
    ∃ ys, List.Forall₂ R xs ys := by
  induction xs with
  | nil => exact ⟨[], .nil⟩
  | cons x xs ih =>
    obtain ⟨y, here⟩ := each x mem_cons_self
    obtain ⟨ys, later⟩ := ih fun x mem => each x (mem_cons_of_mem _ mem)
    exact ⟨y :: ys, .cons here later⟩

theorem forall_of_forall₂ {α β : Type} {R : α → β → Prop} {P : α → Prop} {xs : List α} {ys : List β}
    (pairs : List.Forall₂ R xs ys) (step : ∀ x y, R x y → P x) : ∀ x ∈ xs, P x := by
  induction pairs with
  | nil => exact fun _ mem => absurd mem not_mem_nil
  | cons here _ ih => exact forall_mem_cons.mpr ⟨step _ _ here, ih⟩

namespace TlvMessage

variable {m : TlvMessage}

def body (B : Buffer) (m : TlvMessage) : List UInt8 := m.service ++ m.attributeBytes B

theorem length_body (m : TlvMessage) : (m.hdr.m_nlmsgLen.toNat + 3) / 4 * 4 = 16 + (m.body B).length := by
  rw [m.tiled, body, length_append, length_attributeBytes, Nat.add_assoc]

theorem exists_attributes (size : Nat) (length : m.service.length = size)
    (each : ∀ t ∈ m.attributes, t.Readable m.hdr.service.attributeTypes) :
    ∃ attrs, List.Forall₂ (Tlv.ReadAs B m.hdr.service.attributeTypes) m.attributes attrs ∧
      (deserializeAttribute B m.hdr.service.attributeTypes (.ofNat (m.body B).length - .ofNat size) []).Reads
        (m.attributeBytes B) attrs := by
  obtain ⟨attrs, pairs⟩ := exists_forall₂ fun t mem => (each t mem).exists_readAs (B := B)
  refine ⟨attrs, pairs, reads_deserializeAttribute (forall₂_map_left_iff.mpr pairs) ?_⟩
  have bound := m.hdr.m_nlmsgLen.toNat_lt
  have whole := m.length_body (B := B)
  have split : (m.body B).length = size + (m.attributeBytes B).length := by
    rw [body, length_append, length]
  refine toNat_sub_service size ?_ (by omega)
  show _ = size + (m.attributeBytes B).length
  rw [UInt32.toNat_ofNat']
  omega

theorem readAs_of_body (nlmsg : NetlinkMessage)
    (reads : (deserializeService B { m_hdr := m.hdr } (.ofNat (m.body B).length)).Reads (m.body B) nlmsg)
    (some' : m.body B ≠ [])
    (pairs : List.Forall₂ (Tlv.ReadAs B m.hdr.service.attributeTypes) m.attributes
      (m.hdr.service.attributes nlmsg)) :
    m.ReadAs B nlmsg :=
  ⟨reads_message m.length_body (fun _ => reads) fun none => absurd none some', pairs⟩

theorem body_ne_nil {size : Nat} (length : m.service.length = size) (positive : 0 < size) : m.body B ≠ [] := by
  intro none
  have := congrArg List.length none
  rw [body, length_append, length_nil] at this
  omega

theorem exists_readAs_of_bare (bare : m.attributes = []) (reads : m.service ≠ [] → ∃ nlmsg,
      (deserializeService B { m_hdr := m.hdr } (.ofNat m.service.length)).Reads m.service nlmsg)
    (none : ∀ nlmsg, m.hdr.service.attributes nlmsg = []) : ∃ nlmsg, m.ReadAs B nlmsg := by
  have whole : m.body B = m.service := by
    rw [body, attributeBytes, bare]
    exact append_nil _
  have length := m.length_body (B := B)
  by_cases empty : m.service = []
  · refine ⟨{ m_hdr := m.hdr }, reads_message length (fun some' => absurd (whole.trans empty) some') fun _ =>
      rfl, ?_⟩
    rw [bare, none]
    exact .nil
  · obtain ⟨nlmsg, reads⟩ := reads empty
    refine ⟨nlmsg, readAs_of_body nlmsg (by rwa [whole]) (by rwa [whole]) ?_⟩
    rw [bare, none]
    exact .nil

theorem Readable.exists_readAs (readable : m.Readable) : ∃ nlmsg, m.ReadAs B nlmsg := by
  have hasService := m.hasService
  unfold Readable at readable
  unfold NetlinkMessageHeader.HasService at hasService
  cases kind : m.hdr.service with
  | done =>
    rw [kind] at readable
    exact exists_readAs_of_bare readable.2 (fun some' => absurd readable.1 some') fun _ => by rw [kind]; rfl
  | unknown =>
    rw [kind] at readable
    exact exists_readAs_of_bare readable.2 (fun some' => absurd readable.1 some') fun _ => by rw [kind]; rfl
  | error =>
    rw [kind] at readable
    refine exists_readAs_of_bare readable.2 (fun some' => ?_) fun _ => by rw [kind]; rfl
    obtain ⟨e, reads, -⟩ := covers_error (B := B) m.service (readable.1.resolve_left some')
    rw [append_nil] at reads
    unfold deserializeService
    rw [kind]
    exact ⟨_, reads.map _⟩
  | general =>
    rw [kind] at readable
    refine exists_readAs_of_bare readable.2 (fun some' => ?_) fun _ => by rw [kind]; rfl
    obtain ⟨g, reads, -⟩ := covers_general {} m.service (readable.1.resolve_left some')
    rw [append_nil] at reads
    unfold deserializeService
    rw [kind]
    exact ⟨_, reads.map _⟩
  | route =>
    rw [kind] at readable hasService
    obtain ⟨attrs, pairs, read⟩ := exists_attributes (B := B) 12 hasService (by rwa [kind])
    rw [kind] at pairs read
    obtain ⟨r, reads, rfl⟩ := covers_route read m.service hasService
    refine ⟨_, readAs_of_body { m_hdr := m.hdr, m_routeTemplate := r } ?_ (body_ne_nil hasService (by omega)) ?_⟩
    · unfold deserializeService
      rw [kind]
      exact reads.map fun r => ({ m_hdr := m.hdr, m_routeTemplate := r } : NetlinkMessage)
    · rw [kind]
      exact pairs
  | address =>
    rw [kind] at readable hasService
    obtain ⟨attrs, pairs, read⟩ := exists_attributes (B := B) 8 hasService (by rwa [kind])
    rw [kind] at pairs read
    obtain ⟨r, reads, rfl⟩ := covers_address read m.service hasService
    refine ⟨_, readAs_of_body { m_hdr := m.hdr, m_addressTemplate := r } ?_ (body_ne_nil hasService (by omega)) ?_⟩
    · unfold deserializeService
      rw [kind]
      exact reads.map fun r => ({ m_hdr := m.hdr, m_addressTemplate := r } : NetlinkMessage)
    · rw [kind]
      exact pairs
  | interface =>
    rw [kind] at readable hasService
    obtain ⟨attrs, pairs, read⟩ := exists_attributes (B := B) 16 hasService (by rwa [kind])
    rw [kind] at pairs read
    obtain ⟨r, reads, rfl⟩ := covers_interface read m.service hasService
    refine ⟨_, readAs_of_body { m_hdr := m.hdr, m_interfaceTemplate := r } ?_ (body_ne_nil hasService (by omega)) ?_⟩
    · unfold deserializeService
      rw [kind]
      exact reads.map fun r => ({ m_hdr := m.hdr, m_interfaceTemplate := r } : NetlinkMessage)
    · rw [kind]
      exact pairs

theorem narrow (service : Service) : .U64 ∉ service.attributeTypes := by
  cases service <;> decide

theorem ReadAs.service_run {nlmsg : NetlinkMessage} (readAs : m.ReadAs B nlmsg) (bare : m.attributes = [])
    (some' : m.service ≠ []) :
    (deserializeService B { m_hdr := m.hdr } (.ofNat m.service.length)).run m.service = .ok (nlmsg, []) := by
  have whole : m.body B = m.service := by
    rw [body, attributeBytes, bare]
    exact append_nil _
  have length := m.length_body (B := B)
  rw [whole] at length
  have run := readAs.1 []
  rw [append_nil] at run
  exact message_cases length some' (by rw [← whole]; exact run)

theorem ReadAs.readable {nlmsg : NetlinkMessage} (readAs : m.ReadAs B nlmsg) : m.Readable := by
  have bare : (∀ nlmsg, m.hdr.service.attributes nlmsg = []) → m.attributes = [] := fun none => by
    have pairs := readAs.2
    rw [none] at pairs
    exact forall₂_nil_right_iff.mp pairs
  have each := forall_of_forall₂ readAs.2 fun t attr => Tlv.readable_of_readAs (narrow m.hdr.service)
  unfold Readable
  cases kind : m.hdr.service with
  | route => rwa [kind] at each
  | address => rwa [kind] at each
  | interface => rwa [kind] at each
  | done =>
    have bare := bare fun _ => by rw [kind]; rfl
    refine ⟨by_contra fun some' => ?_, bare⟩
    have run := readAs.service_run bare some'
    unfold deserializeService at run
    rw [kind] at run
    exact some' (pure_cases run).2.symm
  | unknown =>
    have bare := bare fun _ => by rw [kind]; rfl
    refine ⟨by_contra fun some' => ?_, bare⟩
    have run := readAs.service_run bare some'
    unfold deserializeService at run
    rw [kind] at run
    exact some' (pure_cases run).2.symm
  | error =>
    have bare := bare fun _ => by rw [kind]; rfl
    refine ⟨or_iff_not_imp_left.mpr fun some' => ?_, bare⟩
    have run := readAs.service_run bare some'
    unfold deserializeService at run
    rw [kind] at run
    exact (takes_error.bind fun _ => .pure _) _ _ _ run
  | general =>
    have bare := bare fun _ => by rw [kind]; rfl
    refine ⟨or_iff_not_imp_left.mpr fun some' => ?_, bare⟩
    have run := readAs.service_run bare some'
    unfold deserializeService at run
    rw [kind] at run
    exact ((takes_general _).bind fun _ => .pure _) _ _ _ run

end TlvMessage

/-- A stream is read to its end, message by message and attribute by attribute, if and only if
each of its messages is one that its branch can read. -/
theorem tracks_iff (stream : List TlvMessage) : Tracks B stream ↔ ∀ m ∈ stream, m.Readable := by
  constructor
  · rintro ⟨messages, pairs, -⟩
    exact forall_of_forall₂ pairs fun _ _ readAs => readAs.readable
  · intro readable
    obtain ⟨messages, pairs⟩ := exists_forall₂ fun m member => (readable m member).exists_readAs (B := B)
    have each := forall₂_map_left_iff.mpr (pairs.imp fun _ _ readAs => readAs.1)
    refine ⟨messages, pairs, ?_, MultipartNetlinkMessage.deserialize_reads each⟩
    clear readable each
    induction pairs with
    | nil => exact Reader.Reads.pure _
    | @cons m nlmsg stream messages here _ ih => exact here.1.bind (ih.map (nlmsg :: ·))

/-- A new address with its `IFA_FLAGS`, type 8. -/
def addressFlags : TlvMessage where
  hdr := { m_nlmsgLen := 32, m_nlmsgType := rtmNewAddr }
  service := [2, 24, 0, 0, 1, 0, 0, 0]
  attributes := [⟨8, 8, [128, 0, 0, 0], by decide, by decide⟩]
  hasService := rfl
  tiled := rfl

/-- The table of address attributes ends before `IFA_FLAGS`. -/
theorem not_tracks : ¬ Tracks .littleEndian [addressFlags] := by
  rintro ⟨messages, pairs, -⟩
  obtain ⟨nlmsg, _, readAs, -, -⟩ := forall₂_cons_left_iff.mp pairs
  exact readAs.readable _ mem_cons_self

end Dce.Netlink
