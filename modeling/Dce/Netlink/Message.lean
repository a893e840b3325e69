import Dce.Netlink.Attribute

/- Netlink messages: `netlink-message.cc` and `netlink-message-route.cc`. -/

namespace Dce.Netlink

open Reader

def msgFMulti : UInt16 := 2
def msgFAck : UInt16 := 4
def msgFDump : UInt16 := 0x300

def msgError : UInt16 := 2
def msgDone : UInt16 := 3
def rtmNewLink : UInt16 := 16
def rtmDelLink : UInt16 := 17
def rtmGetLink : UInt16 := 18
def rtmSetLink : UInt16 := 19
def rtmNewAddr : UInt16 := 20
def rtmDelAddr : UInt16 := 21
def rtmGetAddr : UInt16 := 22
def rtmNewRoute : UInt16 := 24
def rtmDelRoute : UInt16 := 25
def rtmGetRoute : UInt16 := 26
def rtmMax : UInt16 := 27

structure NetlinkMessageHeader where
  m_nlmsgLen : UInt32 := 16
  m_nlmsgType : UInt16 := 0
  m_nlmsgFlags : UInt16 := 0
  m_nlmsgSeq : UInt32 := 0
  m_nlmsgPid : UInt32 := 0
  deriving DecidableEq

structure NetlinkMessageError where
  m_error : Int32 := 0
  m_msg : NetlinkMessageHeader := {}
  deriving DecidableEq

structure GeneralMessage where
  m_family : UInt8 := 0
  m_attributes : List NetlinkAttribute := []
  deriving DecidableEq

structure InterfaceInfoMessage extends GeneralMessage where
  m_reserved : UInt8 := 0
  m_deviceType : UInt16 := 0
  m_interfaceIndex : Int32 := 0
  m_deviceFlags : UInt32 := 0
  m_changeMask : UInt32 := 0
  deriving DecidableEq

structure InterfaceAddressMessage extends GeneralMessage where
  m_length : UInt8 := 0
  m_flags : UInt8 := 0
  m_scope : UInt8 := 0
  m_index : Int32 := 0
  deriving DecidableEq

structure RouteMessage extends GeneralMessage where
  m_dstLen : UInt8 := 0
  m_srcLen : UInt8 := 0
  m_tos : UInt8 := 0
  m_tableId : UInt8 := 0
  m_protocol : UInt8 := 0
  m_scope : UInt8 := 0
  m_type : UInt8 := 0
  m_flags : UInt32 := 0
  deriving DecidableEq

namespace NetlinkMessageHeader

def serialize (B : Buffer) (h : NetlinkMessageHeader) : List UInt8 :=
  B.u32.encode h.m_nlmsgLen ++ (B.u16.encode h.m_nlmsgType ++ (B.u16.encode h.m_nlmsgFlags ++
    (B.u32.encode h.m_nlmsgSeq ++ B.u32.encode h.m_nlmsgPid)))

def deserialize (B : Buffer) : Reader Fault NetlinkMessageHeader := do
  let m_nlmsgLen ← B.u32.read .pastEnd
  let m_nlmsgType ← B.u16.read .pastEnd
  let m_nlmsgFlags ← B.u16.read .pastEnd
  let m_nlmsgSeq ← B.u32.read .pastEnd
  let m_nlmsgPid ← B.u32.read .pastEnd
  return { m_nlmsgLen, m_nlmsgType, m_nlmsgFlags, m_nlmsgSeq, m_nlmsgPid }

end NetlinkMessageHeader

namespace NetlinkMessageError

def serialize (B : Buffer) (e : NetlinkMessageError) : List UInt8 :=
  B.u32.encode e.m_error.toUInt32 ++ e.m_msg.serialize B

def deserialize (B : Buffer) : Reader Fault NetlinkMessageError := do
  let m_error ← B.u32.read .pastEnd
  let m_msg ← NetlinkMessageHeader.deserialize B
  return { m_error := m_error.toInt32, m_msg }

def getSerializedSize (_ : NetlinkMessageError) : Nat := 20

end NetlinkMessageError

namespace GeneralMessage

def serialize (m : GeneralMessage) : List UInt8 := m.m_family :: List.replicate 3 0

def deserialize (m : GeneralMessage) : Reader Fault GeneralMessage := do
  let m_family ← Reader.byte .pastEnd
  let _ ← Reader.bytes .pastEnd 3
  return { m with m_family }

def getSerializedSize (_ : GeneralMessage) : Nat := msgAlign 1

end GeneralMessage

namespace InterfaceInfoMessage

def m_attributeTypes : List NetlinkAttributeValueType :=
  [.UNSPEC, .ADDRESS, .ADDRESS, .STRING, .U32, .U32, .U8, .UNSPEC, .UNSPEC,
    .UNSPEC, .UNSPEC, .UNSPEC, .UNSPEC, .UNSPEC, .UNSPEC, .UNSPEC, .UNSPEC, .UNSPEC]

def serialize (B : Buffer) (m : InterfaceInfoMessage) : List UInt8 :=
  m.m_family :: m.m_reserved :: (B.u16.encode m.m_deviceType ++
    (B.u32.encode m.m_interfaceIndex.toUInt32 ++ (B.u32.encode m.m_deviceFlags ++
      (B.u32.encode m.m_changeMask ++ serializeAttribute B m.m_attributes))))

def deserialize (B : Buffer) (m : InterfaceInfoMessage) (len : UInt32) : Reader Fault InterfaceInfoMessage := do
  let m_family ← Reader.byte .pastEnd
  let m_reserved ← Reader.byte .pastEnd
  let m_deviceType ← B.u16.read .pastEnd
  let m_interfaceIndex ← B.u32.read .pastEnd
  let m_deviceFlags ← B.u32.read .pastEnd
  let m_changeMask ← B.u32.read .pastEnd
  let m_attributes ← deserializeAttribute B m_attributeTypes (len - 16) m.m_attributes
  return {
    m_family, m_attributes, m_reserved, m_deviceType, m_deviceFlags, m_changeMask,
    m_interfaceIndex := m_interfaceIndex.toInt32 }

def getSerializedSize (m : InterfaceInfoMessage) : Nat := 16 + getAttributeSerializedSize m.m_attributes

end InterfaceInfoMessage

namespace InterfaceAddressMessage

def m_attributeTypes : List NetlinkAttributeValueType :=
  [.UNSPEC, .ADDRESS, .ADDRESS, .STRING, .ADDRESS, .ADDRESS, .UNSPEC, .ADDRESS]

def serialize (B : Buffer) (m : InterfaceAddressMessage) : List UInt8 :=
  m.m_family :: m.m_length :: m.m_flags :: m.m_scope :: (B.u32.encode m.m_index.toUInt32 ++
    serializeAttribute B m.m_attributes)

def deserialize (B : Buffer) (m : InterfaceAddressMessage) (len : UInt32) :
    Reader Fault InterfaceAddressMessage := do
  let m_family ← Reader.byte .pastEnd
  let m_length ← Reader.byte .pastEnd
  let m_flags ← Reader.byte .pastEnd
  let m_scope ← Reader.byte .pastEnd
  let m_index ← B.u32.read .pastEnd
  let m_attributes ← deserializeAttribute B m_attributeTypes (len - 8) m.m_attributes
  return { m_family, m_attributes, m_length, m_flags, m_scope, m_index := m_index.toInt32 }

def getSerializedSize (m : InterfaceAddressMessage) : Nat := 8 + getAttributeSerializedSize m.m_attributes

end InterfaceAddressMessage

namespace RouteMessage

def m_attributeTypes : List NetlinkAttributeValueType :=
  [.UNSPEC, .ADDRESS, .ADDRESS, .U32, .U32, .ADDRESS, .U32, .ADDRESS,
    .UNSPEC, .UNSPEC, .UNSPEC, .UNSPEC, .UNSPEC, .UNSPEC, .UNSPEC, .UNSPEC]

def serialize (B : Buffer) (m : RouteMessage) : List UInt8 :=
  m.m_family :: m.m_dstLen :: m.m_srcLen :: m.m_tos :: m.m_tableId :: m.m_protocol :: m.m_scope :: m.m_type ::
    (B.u32.encode m.m_flags ++ serializeAttribute B m.m_attributes)

def deserialize (B : Buffer) (m : RouteMessage) (len : UInt32) : Reader Fault RouteMessage := do
  let m_family ← Reader.byte .pastEnd
  let m_dstLen ← Reader.byte .pastEnd
  let m_srcLen ← Reader.byte .pastEnd
  let m_tos ← Reader.byte .pastEnd
  let m_tableId ← Reader.byte .pastEnd
  let m_protocol ← Reader.byte .pastEnd
  let m_scope ← Reader.byte .pastEnd
  let m_type ← Reader.byte .pastEnd
  let m_flags ← B.u32.read .pastEnd
  let m_attributes ← deserializeAttribute B m_attributeTypes (len - 12) m.m_attributes
  return {
    m_family, m_attributes, m_dstLen, m_srcLen, m_tos, m_tableId, m_protocol, m_scope, m_type, m_flags }

def getSerializedSize (m : RouteMessage) : Nat := 12 + getAttributeSerializedSize m.m_attributes

end RouteMessage

structure NetlinkMessage where
  m_hdr : NetlinkMessageHeader := {}
  m_errorMessage : NetlinkMessageError := {}
  m_genmsg : GeneralMessage := {}
  m_interfaceTemplate : InterfaceInfoMessage := {}
  m_addressTemplate : InterfaceAddressMessage := {}
  m_routeTemplate : RouteMessage := {}
  deriving DecidableEq

def isMessageFlagsDump (flags : UInt16) : Bool := flags &&& msgFDump ≠ 0

def isMessageFlagsAck (flags : UInt16) : Bool := flags &&& msgFAck ≠ 0

def isMessageTypeGet (type : UInt16) : Bool := (type - rtmNewLink) &&& 3 = 2

/-- The part that follows a header. `Serialize` and `Deserialize` choose it by the same tests. -/
inductive Service
  | done
  | error
  | general
  | route
  | address
  | interface
  | unknown
  deriving DecidableEq

def NetlinkMessageHeader.service (h : NetlinkMessageHeader) : Service :=
  let type := h.m_nlmsgType
  if type = msgDone then .done
  else if type = msgError then .error
  else if isMessageFlagsDump h.m_nlmsgFlags ∧ (type = rtmGetRoute ∨ type = rtmGetAddr ∨ type = rtmGetLink)
    then .general
  else if type = rtmNewRoute ∨ type = rtmDelRoute ∨ type = rtmGetRoute then .route
  else if type = rtmNewAddr ∨ type = rtmDelAddr then .address
  else if type = rtmNewLink ∨ type = rtmSetLink then .interface
  else .unknown

namespace NetlinkMessage

def setHeader (m : NetlinkMessage) (hdr : NetlinkMessageHeader) : NetlinkMessage := { m with m_hdr := hdr }

/-- `m_hdr.SetMsgLen (m_hdr.GetSerializedSize () + size)` -/
def setMsgLen (m : NetlinkMessage) (size : Nat) : NetlinkMessage :=
  { m with m_hdr := { m.m_hdr with m_nlmsgLen := .ofNat (16 + size) } }

def setErrorMessage (m : NetlinkMessage) (v : NetlinkMessageError) : NetlinkMessage :=
  { m.setMsgLen v.getSerializedSize with m_errorMessage := v }

def setGeneralMessage (m : NetlinkMessage) (v : GeneralMessage) : NetlinkMessage :=
  { m.setMsgLen v.getSerializedSize with m_genmsg := v }

def setInterfaceInfoMessage (m : NetlinkMessage) (v : InterfaceInfoMessage) : NetlinkMessage :=
  { m.setMsgLen v.getSerializedSize with m_interfaceTemplate := v }

def setInterfaceAddressMessage (m : NetlinkMessage) (v : InterfaceAddressMessage) : NetlinkMessage :=
  { m.setMsgLen v.getSerializedSize with m_addressTemplate := v }

def setRouteMessage (m : NetlinkMessage) (v : RouteMessage) : NetlinkMessage :=
  { m.setMsgLen v.getSerializedSize with m_routeTemplate := v }

def getSerializedSize (m : NetlinkMessage) : Nat := msgAlign m.m_hdr.m_nlmsgLen.toNat

def serialize (B : Buffer) (m : NetlinkMessage) : List UInt8 :=
  m.m_hdr.serialize B ++ match m.m_hdr.service with
    | .done => []
    | .error => m.m_errorMessage.serialize B
    | .general => m.m_genmsg.serialize
    | .route => m.m_routeTemplate.serialize B
    | .address => m.m_addressTemplate.serialize B
    | .interface => m.m_interfaceTemplate.serialize B
    | .unknown => []

/-- What `Deserialize` reads after the header, with `remaining` bytes left. -/
def deserializeService (B : Buffer) (m : NetlinkMessage) (remaining : UInt32) : Reader Fault NetlinkMessage :=
  match m.m_hdr.service with
  | .done => return m
  | .error => do return { m with m_errorMessage := ← NetlinkMessageError.deserialize B }
  | .general => do return { m with m_genmsg := ← m.m_genmsg.deserialize }
  | .route => do return { m with m_routeTemplate := ← m.m_routeTemplate.deserialize B remaining }
  | .address => do return { m with m_addressTemplate := ← m.m_addressTemplate.deserialize B remaining }
  | .interface => do return { m with m_interfaceTemplate := ← m.m_interfaceTemplate.deserialize B remaining }
  | .unknown => return m

def deserialize (B : Buffer) (m : NetlinkMessage) : Reader Fault NetlinkMessage := do
  let m_hdr ← NetlinkMessageHeader.deserialize B
  let remaining : UInt32 := .ofNat (msgAlign m_hdr.m_nlmsgLen.toNat) - 16
  if remaining ≠ 0 then deserializeService B { m with m_hdr } remaining
  else return { m with m_hdr }

end NetlinkMessage

namespace MultipartNetlinkMessage

def getSerializedSize (messages : List NetlinkMessage) : Nat :=
  (messages.map NetlinkMessage.getSerializedSize).sum % 2 ^ 32

def serialize (B : Buffer) (messages : List NetlinkMessage) : List UInt8 :=
  messages.flatMap (NetlinkMessage.serialize B)

/-- `Deserialize` goes on after this message. -/
def continues (nlmsg : NetlinkMessage) : Bool :=
  nlmsg.m_hdr.m_nlmsgFlags &&& msgFMulti ≠ 0 ∧ nlmsg.m_hdr.m_nlmsgType ≠ msgDone

/-- A round of `while (1)`: the messages so far, and whether there is another round. -/
def round (B : Buffer) (s : List NetlinkMessage × Bool) : Reader Fault (List NetlinkMessage × Bool) := do
  let nlmsg ← NetlinkMessage.deserialize B {}
  return (s.1 ++ [nlmsg], continues nlmsg)

/-- `Deserialize`, into a container that holds `messages` -/
def deserialize (B : Buffer) (messages : List NetlinkMessage) : Reader Fault (List NetlinkMessage × Nat) := do
  let (messages, _) ← Reader.loop .endless (fun s => s.2) (round B) (messages, true)
  return (messages, getSerializedSize messages)

end MultipartNetlinkMessage

variable {B : Buffer}

theorem NetlinkMessageHeader.reads (h : NetlinkMessageHeader) :
    (NetlinkMessageHeader.deserialize B).Reads (h.serialize B) h :=
  (B.u32.reads _ h.m_nlmsgLen).bind ((B.u16.reads _ h.m_nlmsgType).bind ((B.u16.reads _ h.m_nlmsgFlags).bind
    ((B.u32.reads _ h.m_nlmsgSeq).bind ((B.u32.reads _ h.m_nlmsgPid).map
      (NetlinkMessageHeader.mk h.m_nlmsgLen h.m_nlmsgType h.m_nlmsgFlags h.m_nlmsgSeq)))))

theorem NetlinkMessageHeader.length_serialize (h : NetlinkMessageHeader) : (h.serialize B).length = 16 := by
  simp [serialize, B.u16.length_encode, B.u32.length_encode, B.width_u16, B.width_u32]

variable {len : UInt32}

theorem toNat_sub_service (size : Nat) {rest : Nat} (length : len.toNat = size + rest) (small : size < 2 ^ 32) :
    (len - .ofNat size).toNat = rest := by
  have := len.toNat_lt
  rw [UInt32.toNat_sub, UInt32.toNat_ofNat']
  omega

theorem remaining_eq {n : Nat} (length : (len.toNat + 3) / 4 * 4 = 16 + n) :
    UInt32.ofNat (msgAlign len.toNat) - 16 = .ofNat n := by
  refine UInt32.toNat_inj.mp ?_
  rw [UInt32.toNat_sub, UInt32.toNat_ofNat', UInt32.toNat_ofNat', msgAlign]
  simp only [UInt32.reduceToNat]
  omega

theorem ofNat_ne_zero {xs : List UInt8} (length : (len.toNat + 3) / 4 * 4 = 16 + xs.length) :
    UInt32.ofNat xs.length ≠ 0 ↔ xs ≠ [] := by
  have bound := len.toNat_lt
  refine not_congr (UInt32.toNat_inj.symm.trans ?_)
  rw [UInt32.toNat_ofNat', UInt32.toNat_zero, ← List.length_eq_zero_iff]
  omega

section

variable {h : NetlinkMessageHeader} {xs rest : List UInt8} {m : NetlinkMessage}

variable (length : (h.m_nlmsgLen.toNat + 3) / 4 * 4 = 16 + xs.length)
include length

theorem reads_message
    (body : xs ≠ [] → (NetlinkMessage.deserializeService B { m_hdr := h } (.ofNat xs.length)).Reads xs m)
    (empty : xs = [] → m = { m_hdr := h }) : (NetlinkMessage.deserialize B {}).Reads (h.serialize B ++ xs) m := by
  refine h.reads.bind ?_
  rw [remaining_eq length]
  by_cases none : xs = []
  · rw [none, empty none]
    exact Reads.pure _
  · rw [if_pos ((ofNat_ne_zero length).mpr none)]
    exact body none

theorem message_cases (some' : xs ≠ [])
    (run : (NetlinkMessage.deserialize B {}).run (h.serialize B ++ xs) = .ok (m, rest)) :
    (NetlinkMessage.deserializeService B { m_hdr := h } (.ofNat xs.length)).run xs = .ok (m, rest) := by
  unfold NetlinkMessage.deserialize at run
  rw [bind_ok (h.reads xs)] at run
  rwa [remaining_eq length, if_pos ((ofNat_ne_zero length).mpr some')] at run

end

namespace MultipartNetlinkMessage

/-- `Deserialize` stops at the last message and not before. -/
def Framed (messages : List NetlinkMessage) : Prop :=
  ∃ before last, messages = before ++ [last] ∧ (∀ m ∈ before, continues m = true) ∧ continues last = false

variable {m : NetlinkMessage} {messages : List NetlinkMessage} {xss : List (List UInt8)}

theorem Framed.cons (framed : Framed (m :: messages)) :
    continues m = false ∧ messages = [] ∨ continues m = true ∧ Framed messages := by
  obtain ⟨before, last, split, goes, stops⟩ := framed
  cases before with
  | nil =>
    cases split
    exact .inl ⟨stops, rfl⟩
  | cons first before =>
    cases split
    exact .inr ⟨goes _ List.mem_cons_self, before, last, rfl, fun m mem =>
      goes m (List.mem_cons_of_mem _ mem), stops⟩

theorem progress_round (s : List NetlinkMessage × Bool) : (round B s).Progress :=
  ((((B.u32.progress _ (by rw [B.width_u32]; omega)).bind _).bind _).bind _ : (round B s).Progress)

theorem reads_round {xs : List UInt8} (reads : (NetlinkMessage.deserialize B {}).Reads xs m)
    (s : List NetlinkMessage × Bool) : (round B s).Reads xs (s.1 ++ [m], continues m) :=
  reads.map fun nlmsg => (s.1 ++ [nlmsg], continues nlmsg)

variable (each : List.Forall₂ (NetlinkMessage.deserialize B {}).Reads xss messages)
include each

theorem loop_reads (framed : Framed messages) (before : List NetlinkMessage) :
    (loop .endless (fun s => s.2) (round B) (before, true)).Reads xss.flatten (before ++ messages, false) := by
  induction each generalizing before with
  | nil =>
    obtain ⟨before, last, split, -⟩ := framed
    exact absurd split.symm (by simp)
  | @cons xs m xss messages here later ih =>
    have one := reads_round here (before, true)
    rcases framed.cons with ⟨stops, rfl⟩ | ⟨goes, framed⟩
    · cases later
      rw [stops] at one
      exact Reads.round progress_round rfl one (Reads.stop progress_round rfl)
    · rw [goes] at one
      have rest := ih framed (before ++ [m])
      rw [List.append_assoc] at rest
      exact Reads.round progress_round rfl one rest

theorem deserialize_reads (framed : Framed messages) :
    (deserialize B []).Reads xss.flatten (messages, getSerializedSize messages) :=
  (loop_reads each framed []).map fun s => (s.1, getSerializedSize s.1)

end MultipartNetlinkMessage

end Dce.Netlink
