import Dce.Netlink.Message
import Mathlib.Algebra.BigOperators.Ring.List

namespace Dce.Netlink

open NetlinkMessageHeader Reader List

variable {B : Buffer}

theorem NetlinkMessageError.reads (e : NetlinkMessageError) :
    (NetlinkMessageError.deserialize B).Reads (e.serialize B) e := by
  have last := (e.m_msg.reads (B := B)).map (NetlinkMessageError.mk e.m_error)
  exact (B.u32.reads _ e.m_error.toUInt32).bind last

theorem GeneralMessage.reads {m : GeneralMessage} (bare : m.m_attributes = []) :
    (GeneralMessage.deserialize {}).Reads m.serialize m := by
  obtain ⟨m_family, m_attributes⟩ := m
  cases bare
  have zeros := reads_bytes Fault.pastEnd (length_replicate (n := 3) (a := (0 : UInt8)))
  exact (reads_byte _ m_family).bind (zeros.map fun _ => GeneralMessage.mk m_family [])

/-- Attributes that the table of a service message knows. -/
def KnownAttributes (vtypes : List NetlinkAttributeValueType) (attributes : List NetlinkAttribute) : Prop :=
  ∀ attr ∈ attributes, attr.WellFormed vtypes

namespace KnownAttributes

variable {vtypes : List NetlinkAttributeValueType} {attributes : List NetlinkAttribute}

theorem length_serializeAttribute (known : KnownAttributes vtypes attributes) :
    (serializeAttribute B attributes).length = getAttributeSerializedSize attributes := by
  unfold serializeAttribute getAttributeSerializedSize
  rw [length_flatMap]
  exact congrArg sum (map_congr_left fun attr mem => (known attr mem).length_serialize)

theorem reads (known : KnownAttributes vtypes attributes) (narrow : .U64 ∉ vtypes) {len : UInt32}
    (length : len.toNat = getAttributeSerializedSize attributes) :
    (deserializeAttribute B vtypes len []).Reads (serializeAttribute B attributes) attributes := by
  have flat : (attributes.map (NetlinkAttribute.serialize B)).flatten = serializeAttribute B attributes :=
    (flatMap_def ..).symm
  refine reads_deserializeAttribute (forall₂_map_left_iff.mpr (forall₂_same.mpr fun attr mem => ?_)) ?_
  · exact ⟨(known attr mem).reads narrow, (known attr mem).length_serialize⟩
  · rw [flat, known.length_serializeAttribute, length]

theorem four_dvd (attributes : List NetlinkAttribute) : 4 ∣ getAttributeSerializedSize attributes := by
  refine dvd_sum (R := Nat) fun size mem => ?_
  obtain ⟨attr, -, rfl⟩ := mem_map.mp mem
  exact Nat.dvd_add (Nat.dvd_refl 4) (four_dvd_msgAlign _)

end KnownAttributes

section

variable {len : UInt32}

variable {m : RouteMessage}

theorem RouteMessage.reads (known : KnownAttributes m_attributeTypes m.m_attributes)
    (length : len.toNat = m.getSerializedSize) : (RouteMessage.deserialize B {} len).Reads (m.serialize B) m := by
  have attributes := known.reads (B := B) (by decide) (toNat_sub_service 12 length (by omega))
  have last := attributes.map fun m_attributes => { m with m_attributes }
  exact (reads_byte _ m.m_family).bind ((reads_byte _ m.m_dstLen).bind
    ((reads_byte _ m.m_srcLen).bind ((reads_byte _ m.m_tos).bind
    ((reads_byte _ m.m_tableId).bind ((reads_byte _ m.m_protocol).bind
    ((reads_byte _ m.m_scope).bind ((reads_byte _ m.m_type).bind
    ((B.u32.reads _ m.m_flags).bind last))))))))

theorem InterfaceAddressMessage.reads {m : InterfaceAddressMessage}
    (known : KnownAttributes m_attributeTypes m.m_attributes) (length : len.toNat = m.getSerializedSize) :
    (InterfaceAddressMessage.deserialize B {} len).Reads (m.serialize B) m := by
  have attributes := known.reads (B := B) (by decide) (toNat_sub_service 8 length (by omega))
  have last := attributes.map fun m_attributes => { m with m_attributes }
  have index := B.u32.reads Fault.pastEnd m.m_index.toUInt32
  exact (reads_byte _ m.m_family).bind ((reads_byte _ m.m_length).bind
    ((reads_byte _ m.m_flags).bind ((reads_byte _ m.m_scope).bind (index.bind last))))

theorem InterfaceInfoMessage.reads {m : InterfaceInfoMessage}
    (known : KnownAttributes m_attributeTypes m.m_attributes) (length : len.toNat = m.getSerializedSize) :
    (InterfaceInfoMessage.deserialize B {} len).Reads (m.serialize B) m := by
  have attributes := known.reads (B := B) (by decide) (toNat_sub_service 16 length (by omega))
  have last := attributes.map fun m_attributes => { m with m_attributes }
  exact (reads_byte _ m.m_family).bind ((reads_byte _ m.m_reserved).bind
    ((B.u16.reads _ m.m_deviceType).bind ((B.u32.reads _ m.m_interfaceIndex.toUInt32).bind
    ((B.u32.reads _ m.m_deviceFlags).bind ((B.u32.reads _ m.m_changeMask).bind last)))))

theorem RouteMessage.length_serialize (known : KnownAttributes m_attributeTypes m.m_attributes) :
    (m.serialize B).length = m.getSerializedSize := by
  simp only [serialize, getSerializedSize, length_cons, length_append, B.u32.length_encode, B.width_u32,
    known.length_serializeAttribute]
  omega

theorem InterfaceAddressMessage.length_serialize {m : InterfaceAddressMessage}
    (known : KnownAttributes m_attributeTypes m.m_attributes) : (m.serialize B).length = m.getSerializedSize := by
  simp only [serialize, getSerializedSize, length_cons, length_append, B.u32.length_encode, B.width_u32,
    known.length_serializeAttribute]
  omega

theorem InterfaceInfoMessage.length_serialize {m : InterfaceInfoMessage}
    (known : KnownAttributes m_attributeTypes m.m_attributes) : (m.serialize B).length = m.getSerializedSize := by
  simp only [serialize, getSerializedSize, length_cons, length_append, B.u16.length_encode, B.width_u16,
    B.u32.length_encode, B.width_u32, known.length_serializeAttribute]
  omega

end

/-- The messages that the source builds: a header, and the part that its type asks for. -/
inductive Supported : NetlinkMessage → Prop
  | done {h : NetlinkMessageHeader} : h.m_nlmsgType = msgDone → h.m_nlmsgLen = 16 → Supported { m_hdr := h }
  | error {h : NetlinkMessageHeader} (e : NetlinkMessageError) : h.m_nlmsgType = msgError →
      Supported (NetlinkMessage.setErrorMessage { m_hdr := h } e)
  | dump {h : NetlinkMessageHeader} {m : GeneralMessage} : isMessageFlagsDump h.m_nlmsgFlags = true →
      h.m_nlmsgType ∈ [rtmGetLink, rtmGetAddr, rtmGetRoute] → m.m_attributes = [] →
      Supported (NetlinkMessage.setGeneralMessage { m_hdr := h } m)
  | route {h : NetlinkMessageHeader} {m : RouteMessage} :
      h.m_nlmsgType ∈ [rtmNewRoute, rtmDelRoute] ∨ h.m_nlmsgType = rtmGetRoute ∧
      isMessageFlagsDump h.m_nlmsgFlags = false →
      KnownAttributes RouteMessage.m_attributeTypes m.m_attributes → 16 + m.getSerializedSize < 2 ^ 32 →
      Supported (NetlinkMessage.setRouteMessage { m_hdr := h } m)
  | address {h : NetlinkMessageHeader} {m : InterfaceAddressMessage} :
      h.m_nlmsgType ∈ [rtmNewAddr, rtmDelAddr] ∨ h.m_nlmsgType = rtmGetAddr ∧
      isMessageFlagsDump h.m_nlmsgFlags = false →
      KnownAttributes InterfaceAddressMessage.m_attributeTypes m.m_attributes →
      16 + m.getSerializedSize < 2 ^ 32 →
      Supported (NetlinkMessage.setInterfaceAddressMessage { m_hdr := h } m)
  | interface {h : NetlinkMessageHeader} {m : InterfaceInfoMessage} :
      h.m_nlmsgType ∈ [rtmNewLink, rtmDelLink, rtmSetLink] ∨
        h.m_nlmsgType = rtmGetLink ∧ isMessageFlagsDump h.m_nlmsgFlags = false →
      KnownAttributes InterfaceInfoMessage.m_attributeTypes m.m_attributes → 16 + m.getSerializedSize < 2 ^ 32 →
      Supported (NetlinkMessage.setInterfaceInfoMessage { m_hdr := h } m)

/-- The types for which `Serialize` and `Deserialize` have no branch. -/
def Unwritten (h : NetlinkMessageHeader) : Prop :=
  h.m_nlmsgType = rtmDelLink ∨
    (h.m_nlmsgType = rtmGetLink ∨ h.m_nlmsgType = rtmGetAddr) ∧ isMessageFlagsDump h.m_nlmsgFlags = false

instance (h : NetlinkMessageHeader) : Decidable (Unwritten h) := by
  unfold Unwritten
  infer_instance

section

variable {h : NetlinkMessageHeader}

theorem service_done (type : h.m_nlmsgType = msgDone) : h.service = .done := by
  simp [service, type]

theorem service_error (type : h.m_nlmsgType = msgError) : h.service = .error := by
  simp +decide [service, type]

theorem service_general (dump : isMessageFlagsDump h.m_nlmsgFlags = true)
    (type : h.m_nlmsgType ∈ [rtmGetLink, rtmGetAddr, rtmGetRoute]) : h.service = .general := by
  simp only [mem_cons, not_mem_nil, or_false] at type
  rcases type with type | type | type <;> simp +decide [service, type, dump]

theorem service_route (type : h.m_nlmsgType ∈ [rtmNewRoute, rtmDelRoute] ∨
    h.m_nlmsgType = rtmGetRoute ∧ isMessageFlagsDump h.m_nlmsgFlags = false) : h.service = .route := by
  simp only [mem_cons, not_mem_nil, or_false] at type
  rcases type with (type | type) | ⟨type, dump⟩
  · simp +decide [service, type]
  · simp +decide [service, type]
  · simp +decide [service, type, dump]

theorem service_address (type : h.m_nlmsgType ∈ [rtmNewAddr, rtmDelAddr]) : h.service = .address := by
  simp only [mem_cons, not_mem_nil, or_false] at type
  rcases type with type | type <;> simp +decide [service, type]

theorem service_interface (type : h.m_nlmsgType ∈ [rtmNewLink, rtmSetLink]) : h.service = .interface := by
  simp only [mem_cons, not_mem_nil, or_false] at type
  rcases type with type | type <;> simp +decide [service, type]

theorem service_unwritten (unwritten : Unwritten h) : h.service = .unknown := by
  rcases unwritten with type | ⟨type | type, dump⟩
  · simp +decide [service, type]
  · simp +decide [service, type, dump]
  · simp +decide [service, type, dump]

end

variable {m : NetlinkMessage}

theorem written_of_service (xs : List UInt8) (bytes : m.serialize B = m.m_hdr.serialize B ++ xs)
    (aligned : 4 ∣ xs.length)
    (length : m.m_hdr.m_nlmsgLen.toNat = 16 + xs.length)
    (body : (NetlinkMessage.deserializeService B { m_hdr := m.m_hdr } (.ofNat xs.length)).Reads xs m)
    (empty : xs = [] → m = { m_hdr := m.m_hdr }) :
    (NetlinkMessage.deserialize B {}).Reads (m.serialize B) m ∧
    (m.serialize B).length = m.m_hdr.m_nlmsgLen.toNat := by
  refine ⟨?_, ?_⟩
  · rw [bytes]
    exact reads_message (by omega) (fun _ => body) empty
  · rw [bytes, length_append, length_serialize, length]

theorem toNat_msgLen {size : Nat} (small : 16 + size < 2 ^ 32) : (UInt32.ofNat (16 + size)).toNat = 16 + size := by
  rw [UInt32.toNat_ofNat', Nat.mod_eq_of_lt small]

section

variable (supported : Supported m)
include supported

/-- A supported message that `Serialize` has a branch for is read back, and its length is in its header. -/
theorem Supported.written (written : ¬ Unwritten m.m_hdr) :
    (NetlinkMessage.deserialize B {}).Reads (m.serialize B) m ∧
      (m.serialize B).length = m.m_hdr.m_nlmsgLen.toNat := by
  cases supported with
  | @done h type length =>
    have kind := service_done type
    have bytes : NetlinkMessage.serialize B { m_hdr := h } = h.serialize B ++ [] := by
      unfold NetlinkMessage.serialize
      rw [kind]
    refine written_of_service [] bytes (Nat.dvd_zero 4) ?_ ?_ fun _ => rfl
    · rw [length]
      rfl
    · unfold NetlinkMessage.deserializeService
      rw [kind]
      exact Reads.pure _
  | @error h e type =>
    have kind : (NetlinkMessage.setErrorMessage { m_hdr := h } e).m_hdr.service = .error := service_error type
    have size : (e.serialize B).length = 20 := by
      rw [NetlinkMessageError.serialize, length_append, B.u32.length_encode, B.width_u32, length_serialize]
    refine written_of_service (e.serialize B) ?_ (by rw [size]; decide) ?_ ?_ fun none => ?_
    · unfold NetlinkMessage.serialize
      rw [kind]
      rfl
    · rw [size]
      rfl
    · unfold NetlinkMessage.deserializeService
      rw [kind]
      exact e.reads.map fun v => NetlinkMessage.setErrorMessage { m_hdr := h } v
    · rw [none] at size
      cases size
  | @dump h g dump type bare =>
    have kind : (NetlinkMessage.setGeneralMessage { m_hdr := h } g).m_hdr.service = .general :=
      service_general dump type
    refine written_of_service g.serialize ?_ ⟨1, rfl⟩ rfl ?_ fun none => by cases none
    · unfold NetlinkMessage.serialize
      rw [kind]
      rfl
    · unfold NetlinkMessage.deserializeService
      rw [kind]
      exact (GeneralMessage.reads bare).map fun v => NetlinkMessage.setGeneralMessage { m_hdr := h } v
  | @route h r type known small =>
    have kind : (NetlinkMessage.setRouteMessage { m_hdr := h } r).m_hdr.service = .route := service_route type
    have size := RouteMessage.length_serialize (B := B) known
    have aligned : 4 ∣ r.getSerializedSize := Nat.dvd_add (by decide) (KnownAttributes.four_dvd _)
    refine written_of_service (r.serialize B) ?_ (by rwa [size]) ?_ ?_ fun none => ?_
    · unfold NetlinkMessage.serialize
      rw [kind]
      rfl
    · rw [size]
      exact toNat_msgLen small
    · unfold NetlinkMessage.deserializeService
      rw [kind]
      have run : (RouteMessage.deserialize B {} (.ofNat r.getSerializedSize)).Reads (r.serialize B) r :=
        RouteMessage.reads known (by rw [UInt32.toNat_ofNat']; omega)
      rw [size]
      exact run.map fun v => { NetlinkMessage.setRouteMessage { m_hdr := h } r with m_routeTemplate := v }
    · rw [none, length_nil, RouteMessage.getSerializedSize] at size
      omega
  | @address h r type known small =>
    have type : h.m_nlmsgType ∈ [rtmNewAddr, rtmDelAddr] :=
      type.resolve_right fun get => written (.inr ⟨.inr get.1, get.2⟩)
    have kind : (NetlinkMessage.setInterfaceAddressMessage { m_hdr := h } r).m_hdr.service = .address :=
      service_address type
    have size := InterfaceAddressMessage.length_serialize (B := B) known
    have aligned : 4 ∣ r.getSerializedSize := Nat.dvd_add (by decide) (KnownAttributes.four_dvd _)
    refine written_of_service (r.serialize B) ?_ (by rwa [size]) ?_ ?_ fun none => ?_
    · unfold NetlinkMessage.serialize
      rw [kind]
      rfl
    · rw [size]
      exact toNat_msgLen small
    · unfold NetlinkMessage.deserializeService
      rw [kind]
      have run : (InterfaceAddressMessage.deserialize B {} (.ofNat r.getSerializedSize)).Reads (r.serialize B) r :=
        InterfaceAddressMessage.reads known (by rw [UInt32.toNat_ofNat']; omega)
      rw [size]
      exact run.map fun v => { NetlinkMessage.setInterfaceAddressMessage { m_hdr := h } r with
        m_addressTemplate := v }
    · rw [none, length_nil, InterfaceAddressMessage.getSerializedSize] at size
      omega
  | @interface h r type known small =>
    have type : h.m_nlmsgType ∈ [rtmNewLink, rtmSetLink] := by
      rcases type with type | get
      · simp only [mem_cons] at type ⊢
        exact type.imp_right fun other => other.resolve_left fun del => written (.inl del)
      · exact absurd (.inr ⟨.inl get.1, get.2⟩) written
    have kind : (NetlinkMessage.setInterfaceInfoMessage { m_hdr := h } r).m_hdr.service = .interface :=
      service_interface type
    have size := InterfaceInfoMessage.length_serialize (B := B) known
    have aligned : 4 ∣ r.getSerializedSize := Nat.dvd_add (by decide) (KnownAttributes.four_dvd _)
    refine written_of_service (r.serialize B) ?_ (by rwa [size]) ?_ ?_ fun none => ?_
    · unfold NetlinkMessage.serialize
      rw [kind]
      rfl
    · rw [size]
      exact toNat_msgLen small
    · unfold NetlinkMessage.deserializeService
      rw [kind]
      have run : (InterfaceInfoMessage.deserialize B {} (.ofNat r.getSerializedSize)).Reads (r.serialize B) r :=
        InterfaceInfoMessage.reads known (by rw [UInt32.toNat_ofNat']; omega)
      rw [size]
      exact run.map fun v => { NetlinkMessage.setInterfaceInfoMessage { m_hdr := h } r with
        m_interfaceTemplate := v }
    · rw [none, length_nil, InterfaceInfoMessage.getSerializedSize] at size
      omega

theorem Supported.aligned : 4 ∣ m.m_hdr.m_nlmsgLen.toNat := by
  have service : ∀ {size n : Nat} (attributes : List NetlinkAttribute), 4 ∣ n →
      size = n + getAttributeSerializedSize attributes → 16 + size < 2 ^ 32 →
      4 ∣ (UInt32.ofNat (16 + size)).toNat := by
    intro size n attributes aligned total small
    rw [toNat_msgLen small, total]
    exact Nat.dvd_add (by decide) (Nat.dvd_add aligned (KnownAttributes.four_dvd attributes))
  cases supported with
  | done _ length => rw [length]; decide
  | error e _ => exact ⟨9, rfl⟩
  | dump _ _ _ => exact ⟨5, rfl⟩
  | @route h r _ _ small => exact service r.m_attributes (by decide) rfl small
  | @address h r _ _ small => exact service r.m_attributes (by decide) rfl small
  | @interface h r _ _ small => exact service r.m_attributes (by decide) rfl small

theorem Supported.getSerializedSize : m.getSerializedSize = m.m_hdr.m_nlmsgLen.toNat := by
  have aligned := supported.aligned
  have bound := m.m_hdr.m_nlmsgLen.toNat_lt
  rw [NetlinkMessage.getSerializedSize, msgAlign]
  omega

/-- Of a message for which `Serialize` has no branch only the header is written. -/
theorem Supported.not_written (unwritten : Unwritten m.m_hdr) :
    (m.serialize B).length < m.m_hdr.m_nlmsgLen.toNat := by
  have bytes : (m.serialize B).length = 16 := by
    unfold NetlinkMessage.serialize
    rw [service_unwritten unwritten, append_nil, length_serialize]
  have kind := service_unwritten unwritten
  rw [bytes]
  cases supported with
  | done type length => rw [service_done type] at kind; cases kind
  | error e type => exact absurd ((service_error type).symm.trans kind) (by decide)
  | dump dump type bare => exact absurd ((service_general dump type).symm.trans kind) (by decide)
  | route type known small => exact absurd ((service_route type).symm.trans kind) (by decide)
  | @address h r type known small =>
    show 16 < (UInt32.ofNat (16 + r.getSerializedSize)).toNat
    rw [toNat_msgLen small, InterfaceAddressMessage.getSerializedSize]
    omega
  | @interface h r type known small =>
    show 16 < (UInt32.ofNat (16 + r.getSerializedSize)).toNat
    rw [toNat_msgLen small, InterfaceInfoMessage.getSerializedSize]
    omega

end

namespace MultipartNetlinkMessage

variable {messages : List NetlinkMessage}

theorem run_loop (each : ∀ m ∈ messages, (NetlinkMessage.deserialize B {}).Reads (m.serialize B) m ∧
      continues m = true)
    (before : List NetlinkMessage) (rest : List UInt8) :
    (loop .endless (fun s => s.2) (round B) (before, true)).run (serialize B messages ++ rest) =
      (loop .endless (fun s => s.2) (round B) (before ++ messages, true)).run rest := by
  induction messages generalizing before with
  | nil => rw [append_nil]; rfl
  | cons m messages ih =>
    obtain ⟨reads, goes⟩ := each m mem_cons_self
    have one := reads_round reads (before, true)
    rw [goes] at one
    rw [loop_run progress_round, if_pos rfl, serialize, flatMap_cons, append_assoc, bind_ok (one _)]
    have later := ih (fun m mem => each m (mem_cons_of_mem _ mem)) (before ++ [m])
    rwa [append_assoc] at later

theorem deserialize_serialize (framed : Framed messages)
    (each : ∀ m ∈ messages, (NetlinkMessage.deserialize B {}).Reads (m.serialize B) m) :
    (deserialize B []).Reads (serialize B messages) (messages, getSerializedSize messages) := by
  have flat : (messages.map (NetlinkMessage.serialize B)).flatten = serialize B messages := (flatMap_def ..).symm
  exact deserialize_reads (forall₂_map_left_iff.mpr (forall₂_same.mpr each)) framed

theorem loop_end (before : List NetlinkMessage) (r : (List NetlinkMessage × Bool) × List UInt8) :
    (loop .endless (fun s => s.2) (round B) (before, true)).run [] ≠ .ok r := by
  intro run
  obtain ⟨a, mid, run, -⟩ := bind_cases run
  exact absurd (progress_round _ _ _ _ run) (Nat.not_lt_zero _)

theorem continues_or_stops (messages : List NetlinkMessage) :
    (∀ m ∈ messages, continues m = true) ∨ ∃ before last after, messages = before ++ last :: after ∧
      (∀ m ∈ before, continues m = true) ∧ continues last = false := by
  induction messages with
  | nil => exact .inl fun _ mem => absurd mem not_mem_nil
  | cons m messages ih =>
    cases goes : continues m with
    | false => exact .inr ⟨[], m, messages, rfl, fun _ mem => absurd mem not_mem_nil, goes⟩
    | true =>
      rcases ih with all | ⟨before, last, after, rfl, all, stops⟩
      · exact .inl fun n mem => (mem_cons.mp mem).elim (fun same => same ▸ goes) (all n)
      · exact .inr ⟨m :: before, last, after, rfl,
          fun n mem => (mem_cons.mp mem).elim (fun same => same ▸ goes) (all n), stops⟩

theorem length_serialize (each : ∀ m ∈ messages, (m.serialize B).length = m.m_hdr.m_nlmsgLen.toNat) :
    (serialize B messages).length = (messages.map fun m => m.m_hdr.m_nlmsgLen.toNat).sum := by
  rw [serialize, length_flatMap]
  exact congrArg sum (map_congr_left each)

theorem getSerializedSize_eq (supported : ∀ m ∈ messages, Supported m) :
    getSerializedSize messages = (messages.map fun m => m.m_hdr.m_nlmsgLen.toNat).sum % 2 ^ 32 := by
  exact congrArg (sum · % 2 ^ 32) (map_congr_left fun m mem => (supported m mem).getSerializedSize)

/-- Whatever follows a datagram, `Deserialize` gives back the messages that `Serialize` has
written, and takes as many bytes as `GetSerializedSize` says, padding included. -/
structure RoundTrips (B : Buffer) (messages : List NetlinkMessage) : Prop where
  parsed : (deserialize B []).Reads (serialize B messages) (messages, getSerializedSize messages)
  size : (serialize B messages).length = getSerializedSize messages
  aligned : 4 ∣ getSerializedSize messages
  each : ∀ m ∈ messages, (m.serialize B).length = m.getSerializedSize ∧ 4 ∣ m.getSerializedSize

theorem roundTrips_iff {messages : List NetlinkMessage} (supported : ∀ m ∈ messages, Supported m) :
    RoundTrips B messages ↔ Framed messages ∧ (∀ m ∈ messages, ¬ Unwritten m.m_hdr) ∧
      (messages.map fun m => m.m_hdr.m_nlmsgLen.toNat).sum < 2 ^ 32 := by
  constructor
  · intro trips
    have written : ∀ m ∈ messages, ¬ Unwritten m.m_hdr := by
      intro m member unwritten
      have short := (supported m member).not_written (B := B) unwritten
      rw [(trips.each m member).1, (supported m member).getSerializedSize] at short
      omega
    have reads := fun m member => (supported m member).written (B := B) (written m member)
    refine ⟨?_, written, ?_⟩
    · -- past the last message there is nothing to read, and what follows a message that stops is not read
      rcases continues_or_stops messages with all | ⟨before, last, after, rfl, all, stops⟩
      · obtain ⟨a, mid, run, -⟩ := Reader.bind_cases (trips.parsed [])
        rw [run_loop fun m member => ⟨(reads m member).1, all m member⟩] at run
        exact absurd run (loop_end _ _)
      · have framed : Framed (before ++ [last]) := ⟨before, last, rfl, all, stops⟩
        have first :=
          deserialize_serialize framed (fun m member => (reads m (by simp at member ⊢; tauto)).1) (serialize B after)
        have bytes : serialize B (before ++ last :: after) ++ [] = serialize B (before ++ [last]) ++
            serialize B after := by
          simp [serialize]
        have whole := trips.parsed []
        rw [bytes, first] at whole
        have same : before ++ [last] = before ++ last :: after := congrArg (·.1.1) (Except.ok.inj whole)
        exact ⟨before, last, same.symm, all, stops⟩
    · rw [← length_serialize fun m member => (reads m member).2, trips.size]
      exact Nat.mod_lt _ (by decide)
  · rintro ⟨framed, written, short⟩
    have reads := fun m member => (supported m member).written (B := B) (written m member)
    have size := getSerializedSize_eq supported
    rw [Nat.mod_eq_of_lt short] at size
    refine ⟨?_, ?_, ?_, fun m member => ?_⟩
    · exact deserialize_serialize framed fun m member => (reads m member).1
    · rw [size, length_serialize fun m member => (reads m member).2]
    · rw [size]
      refine dvd_sum (R := Nat) fun length member => ?_
      obtain ⟨m, here, rfl⟩ := mem_map.mp member
      exact (supported m here).aligned
    · rw [(supported m member).getSerializedSize]
      exact ⟨(reads m member).2, (supported m member).aligned⟩

/-- The reply to a dump of a node with one address. -/
def addressDump : List NetlinkMessage := [ NetlinkMessage.setInterfaceAddressMessage
    { m_hdr := { m_nlmsgType := rtmNewAddr, m_nlmsgFlags := msgFMulti, m_nlmsgSeq := 7, m_nlmsgPid := 12 } }
    { m_family := 2, m_length := 24, m_index := 1,
      m_attributes := [.of 2 (.address [10, 0, 0, 1]), .of 3 (.string [108, 111])] },
  { m_hdr := { m_nlmsgType := msgDone, m_nlmsgFlags := msgFMulti, m_nlmsgSeq := 7, m_nlmsgPid := 12 } }]

theorem roundTrips_addressDump : RoundTrips .littleEndian addressDump := by
  have known : KnownAttributes InterfaceAddressMessage.m_attributeTypes
      [.of 2 (.address [10, 0, 0, 1]), .of 3 (.string [108, 111])] := by
    intro attr member
    simp only [mem_cons, not_mem_nil, or_false] at member
    rcases member with rfl | rfl
    · exact ⟨rfl, show 4 ≤ 20 by decide, rfl⟩
    · exact ⟨rfl, ⟨by decide, by decide⟩, rfl⟩
  refine (roundTrips_iff ?_).mpr ⟨⟨[_], _, rfl, by decide, rfl⟩, by decide, by decide⟩
  exact forall_mem_cons.mpr ⟨.address (.inl (by decide)) known (by decide),
    forall_mem_cons.mpr ⟨.done rfl rfl, fun _ none => absurd none not_mem_nil⟩⟩

/-- The announcement that an interface is gone: its body is never written. -/
def delLink : NetlinkMessage :=
  NetlinkMessage.setInterfaceInfoMessage { m_hdr := { m_nlmsgType := rtmDelLink } } { m_interfaceIndex := 1 }

theorem not_roundTrips : Supported delLink ∧ Framed [delLink] ∧ ¬ RoundTrips .littleEndian [delLink] := by
  refine ⟨?_, ⟨[], delLink, rfl, by decide, rfl⟩, fun trips => ?_⟩
  · exact .interface (.inl (by decide)) (fun _ none => absurd none not_mem_nil) (by decide)
  · exact absurd trips.size (by decide)

end MultipartNetlinkMessage

end Dce.Netlink
