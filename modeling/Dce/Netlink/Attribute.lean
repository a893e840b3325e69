import Dce.Lib.Reader
import Mathlib.Data.List.Forall2

/- Attributes of netlink messages, `netlink-attribute.cc`. -/

namespace Dce.Netlink

open List

/-- What stops a reader: the end of the packet, an index past the table of attribute types or past
one of the arrays that `DeserializeWithType` and `ReadFrom` keep on the stack. `endless` is the
fuel of the loops, which never runs out. -/
inductive Fault
  | pastEnd
  | table
  | stringBuffer
  | addressBuffer
  | endless
  deriving DecidableEq

/-- `Buffer::Iterator` writes numbers of two and four bytes in an order that its reader knows. `ReadFrom` of an
address has an array of `Address::MAX_SIZE` bytes. -/
structure Buffer where
  u16 : Codec UInt16
  u32 : Codec UInt32
  u64 : Codec UInt64
  width_u16 : u16.width = 2
  width_u32 : u32.width = 4
  readFrom : Nat → Reader Fault (List UInt8)
  readFrom_fits : ∀ len ≤ 20, readFrom len = Reader.bytes .pastEnd len
  readFrom_large : ∀ len, 20 < len → readFrom len = .fail .addressBuffer

def Buffer.littleEndian : Buffer where
  u16 := .littleEndian 2 UInt16.toNat UInt16.ofNat UInt16.toNat_lt fun _ => UInt16.ofNat_toNat
  u32 := .littleEndian 4 UInt32.toNat UInt32.ofNat UInt32.toNat_lt fun _ => UInt32.ofNat_toNat
  u64 := .littleEndian 8 UInt64.toNat UInt64.ofNat UInt64.toNat_lt fun _ => UInt64.ofNat_toNat
  width_u16 := rfl
  width_u32 := rfl
  readFrom len := if len ≤ 20 then Reader.bytes .pastEnd len else .fail .addressBuffer
  readFrom_fits _ fits := if_pos fits
  readFrom_large _ large := if_neg (Nat.not_le_of_lt large)

/-- `NETLINK_MSG_ALIGN` of a `uint32_t` -/
def msgAlign (x : Nat) : Nat := (x + 3) % 2 ^ 32 / 4 * 4

inductive NetlinkAttributeValueType
  | UNSPEC
  | U8
  | U16
  | U32
  | U64
  | STRING
  | ADDRESS
  deriving DecidableEq

/-- A payload with its type. An address is what `Address::CopyTo` copies of it. -/
inductive NetlinkAttributeValue
  | unspec
  | u8 (v : UInt8)
  | u16 (v : UInt16)
  | u32 (v : UInt32)
  | u64 (v : UInt64)
  | string (v : List UInt8)
  | address (v : List UInt8)
  deriving DecidableEq

namespace NetlinkAttributeValue

def getType : NetlinkAttributeValue → NetlinkAttributeValueType
  | unspec => .UNSPEC
  | u8 _ => .U8
  | u16 _ => .U16
  | u32 _ => .U32
  | u64 _ => .U64
  | string _ => .STRING
  | address _ => .ADDRESS

def getSize : NetlinkAttributeValue → Nat
  | u8 _ => 1
  | u16 _ => 2
  | u32 _ => 4
  | string v => v.length + 1
  | address v => v.length
  | _ => 0

def getSerializedSize (value : NetlinkAttributeValue) : Nat := msgAlign value.getSize

def serialize (B : Buffer) (value : NetlinkAttributeValue) : List UInt8 :=
  let (written, len) := match value with
    | u8 v => ([v], 1)
    | u16 v => (B.u16.encode v, 2)
    | u32 v => (B.u32.encode v, 4)
    | string v => (v ++ [0], v.length + 1)
    | address v => (v, v.length)
    | _ => ([], 0)
  written ++ List.replicate (msgAlign len - len) 0

/-- `do buf[i] = ReadU8 (); while (buf[i++])`, with `room` places left in `buf`. -/
def readString : Nat → Reader Fault (List UInt8)
  | 0 => .fail .stringBuffer
  | room + 1 => do
    let b ← Reader.byte .pastEnd
    if b = 0 then return [] else return b :: (← readString room)

/-- The first half of `DeserializeWithType`: the value and its length. -/
def deserializeValue (B : Buffer) (type : NetlinkAttributeValueType) (remaining : Nat) :
    Reader Fault (NetlinkAttributeValue × Nat) :=
  match type with
  | .U8 => do return (u8 (← Reader.byte .pastEnd), 1)
  | .U16 => do return (u16 (← B.u16.read .pastEnd), 2)
  | .U32 => do return (u32 (← B.u32.read .pastEnd), 4)
  | .U64 => do return (u64 (← B.u64.read .pastEnd), 0)
  | .STRING => do
    let v ← readString 512
    return (string v, v.length + 1)
  | .ADDRESS => do
    let v ← B.readFrom remaining
    return (address v, v.length)
  | .UNSPEC => return (unspec, 0)

def deserializeWithType (B : Buffer) (type : NetlinkAttributeValueType) (remaining : Nat) :
    Reader Fault NetlinkAttributeValue := do
  let (value, len) ← deserializeValue B type remaining
  let _ ← Reader.bytes .pastEnd (msgAlign len - len)
  return value

end NetlinkAttributeValue

structure NetlinkAttribute where
  m_len : UInt16
  m_type : UInt16
  m_payload : NetlinkAttributeValue
  deriving DecidableEq

namespace NetlinkAttribute

/-- The constructor with a type and a payload -/
def of (type : UInt16) (payload : NetlinkAttributeValue) : NetlinkAttribute where
  m_len := .ofNat (4 + payload.getSize)
  m_type := type
  m_payload := payload

def getSerializedSize (attr : NetlinkAttribute) : Nat := 4 + attr.m_payload.getSerializedSize

def serialize (B : Buffer) (attr : NetlinkAttribute) : List UInt8 :=
  B.u16.encode attr.m_len ++ B.u16.encode attr.m_type ++ attr.m_payload.serialize B

def deserialize (B : Buffer) (vtypes : List NetlinkAttributeValueType) : Reader Fault NetlinkAttribute := do
  let m_len ← B.u16.read .pastEnd
  let m_type ← B.u16.read .pastEnd
  match vtypes[m_type.toNat]? with
  | none => .fail .table
  | some type => do
    let m_payload ← NetlinkAttributeValue.deserializeWithType B type (m_len - 4).toNat
    return ⟨m_len, m_type, m_payload⟩

end NetlinkAttribute

def serializeAttribute (B : Buffer) (attributes : List NetlinkAttribute) : List UInt8 :=
  attributes.flatMap (NetlinkAttribute.serialize B)

def getAttributeSerializedSize (attributes : List NetlinkAttribute) : Nat :=
  (attributes.map NetlinkAttribute.getSerializedSize).sum

/-- One round of the loop over attributes: the length that is left and what has been read. -/
def attributeRound (B : Buffer) (vtypes : List NetlinkAttributeValueType) (s : UInt32 × List NetlinkAttribute) :
    Reader Fault (UInt32 × List NetlinkAttribute) := do
  let attr ← NetlinkAttribute.deserialize B vtypes
  return (s.1 - .ofNat attr.getSerializedSize, s.2 ++ [attr])

/-- `while (len)`, as the three service messages have it. -/
def deserializeAttribute (B : Buffer) (vtypes : List NetlinkAttributeValueType) (len : UInt32)
    (attributes : List NetlinkAttribute) : Reader Fault (List NetlinkAttribute) := do
  let (_, attributes) ← Reader.loop .endless (fun s => s.1 ≠ 0) (attributeRound B vtypes) (len, attributes)
  return attributes

variable {B : Buffer}

theorem msgAlign_of_le {x : Nat} (small : x < 2 ^ 32 - 3) : msgAlign x = (x + 3) / 4 * 4 := by
  unfold msgAlign
  omega

theorem le_msgAlign {x : Nat} (small : x < 2 ^ 32 - 3) : x ≤ msgAlign x := by
  rw [msgAlign_of_le small]
  omega

theorem four_dvd_msgAlign (x : Nat) : 4 ∣ msgAlign x := Nat.dvd_mul_left 4 _

section

variable (vtypes : List NetlinkAttributeValueType)

theorem progress_deserialize : (NetlinkAttribute.deserialize B vtypes).Progress :=
  Reader.Progress.bind (B.u16.progress _ (by rw [B.width_u16]; omega)) _

theorem progress_attributeRound (s : UInt32 × List NetlinkAttribute) : (attributeRound B vtypes s).Progress :=
  (progress_deserialize vtypes).bind _

end

namespace NetlinkAttributeValue

/-- What the readers of strings and addresses have room for. -/
def Fits : NetlinkAttributeValue → Prop
  | string v => 0 ∉ v ∧ v.length < 512
  | address v => v.length ≤ 20
  | _ => True

variable {value : NetlinkAttributeValue}

theorem Fits.getSize_lt (fits : value.Fits) : value.getSize ≤ 512 := by
  cases value with
  | string v => exact fits.2
  | address v => exact le_trans fits (by omega)
  | _ => simp [getSize]

theorem reads_readString {v : List UInt8} {room : Nat} (free : 0 ∉ v) (short : v.length < room) :
    (readString room).Reads (v ++ [0]) v := by
  induction v generalizing room with
  | nil =>
    obtain ⟨room, rfl⟩ := Nat.exists_eq_add_one_of_ne_zero (by omega : room ≠ 0)
    exact (Reader.reads_byte _ 0).bind (Reader.Reads.pure _)
  | cons b v ih =>
    obtain ⟨room, rfl⟩ := Nat.exists_eq_add_one_of_ne_zero (by omega : room ≠ 0)
    rw [length_cons] at short
    have some' : b ≠ 0 := fun zero => free (by rw [zero]; exact mem_cons_self)
    have later : (if b = 0 then pure [] else do return b :: (← readString room)).Reads (v ++ [0]) (b :: v) := by
      rw [if_neg some']
      exact (ih (fun mem => free (mem_cons_of_mem b mem)) (by omega)).map (b :: ·)
    exact (Reader.reads_byte _ b).bind later

/-- The bytes of a value before its padding. -/
def written (B : Buffer) : NetlinkAttributeValue → List UInt8
  | u8 v => [v]
  | u16 v => B.u16.encode v
  | u32 v => B.u32.encode v
  | string v => v ++ [0]
  | address v => v
  | _ => []

theorem serialize_eq (value : NetlinkAttributeValue) :
    value.serialize B = value.written B ++ List.replicate (msgAlign value.getSize - value.getSize) 0 := by
  cases value <;> rfl

theorem length_written (value : NetlinkAttributeValue) : (value.written B).length = value.getSize := by
  cases value with
  | u16 v => exact (B.u16.length_encode v).trans B.width_u16
  | u32 v => exact (B.u32.length_encode v).trans B.width_u32
  | _ => simp [written, getSize]

variable (fits : value.Fits)
include fits

theorem Fits.length_serialize : (value.serialize B).length = value.getSerializedSize := by
  have small := fits.getSize_lt
  have padded := le_msgAlign (x := value.getSize) (by omega)
  rw [serialize_eq, length_append, length_replicate, length_written, getSerializedSize]
  omega

theorem Fits.reads_value (known : value.getType ≠ .U64) :
    (deserializeValue B value.getType value.getSize).Reads (value.written B) (value, value.getSize) := by
  cases value with
  | unspec => exact Reader.Reads.pure _
  | u8 v => exact (Reader.reads_byte _ v).map (fun v => (u8 v, 1))
  | u16 v => exact (B.u16.reads _ v).map (fun v => (u16 v, 2))
  | u32 v => exact (B.u32.reads _ v).map (fun v => (u32 v, 4))
  | u64 v => exact absurd rfl known
  | string v => exact (reads_readString fits.1 fits.2).map (fun v => (string v, v.length + 1))
  | address v =>
    have run : (B.readFrom v.length).Reads v v := by
      rw [B.readFrom_fits _ fits]
      exact Reader.reads_bytes _ rfl
    exact run.map (fun v => (address v, v.length))

theorem Fits.reads (known : value.getType ≠ .U64) :
    (deserializeWithType B value.getType value.getSize).Reads (value.serialize B) value := by
  rw [serialize_eq]
  refine (fits.reads_value known).bind ?_
  exact (Reader.reads_bytes _ (by rw [length_replicate])).map fun _ => value

end NetlinkAttributeValue

namespace NetlinkAttribute

/-- An attribute that a table of types knows, as its constructor makes it. -/
structure WellFormed (vtypes : List NetlinkAttributeValueType) (attr : NetlinkAttribute) : Prop where
  known : vtypes[attr.m_type.toNat]? = some attr.m_payload.getType
  fits : attr.m_payload.Fits
  length : attr.m_len.toNat = 4 + attr.m_payload.getSize

variable {vtypes : List NetlinkAttributeValueType} {attr : NetlinkAttribute}

theorem WellFormed.length_serialize (wf : attr.WellFormed vtypes) :
    (attr.serialize B).length = attr.getSerializedSize := by
  rw [serialize, length_append, length_append, B.u16.length_encode, B.u16.length_encode, B.width_u16,
    wf.fits.length_serialize, getSerializedSize]

theorem WellFormed.reads (wf : attr.WellFormed vtypes) (narrow : .U64 ∉ vtypes) :
    (deserialize B vtypes).Reads (attr.serialize B) attr := by
  have remaining : (attr.m_len - 4).toNat = attr.m_payload.getSize := by
    have small := wf.fits.getSize_lt
    have length := wf.length
    rw [UInt16.toNat_sub]
    simp only [UInt16.reduceToNat]
    omega
  have known : attr.m_payload.getType ≠ .U64 := fun wide =>
    narrow (wide ▸ mem_of_getElem? wf.known)
  rw [serialize, append_assoc]
  refine (B.u16.reads _ attr.m_len).bind ((B.u16.reads _ attr.m_type).bind ?_)
  rw [wf.known]
  rw [remaining]
  exact (wf.fits.reads known).map (NetlinkAttribute.mk attr.m_len attr.m_type)

end NetlinkAttribute

/-- The loop over attributes reads a list of strings, where each is read whole as an attribute of
its size and the length is that of all of them. -/
theorem reads_deserializeAttribute {vtypes : List NetlinkAttributeValueType} {xss : List (List UInt8)}
    {attrs before : List NetlinkAttribute} {len : UInt32}
    (each : List.Forall₂ (fun xs attr => (NetlinkAttribute.deserialize B vtypes).Reads xs attr ∧
      xs.length = attr.getSerializedSize) xss attrs)
    (length : len.toNat = xss.flatten.length) :
    (deserializeAttribute B vtypes len before).Reads xss.flatten (before ++ attrs) := by
  suffices run : (Reader.loop .endless (fun s => s.1 ≠ 0) (attributeRound B vtypes) (len, before)).Reads
      xss.flatten (0, before ++ attrs) from run.map Prod.snd
  induction each generalizing len before with
  | nil =>
    have zero : len = 0 := UInt32.toNat_inj.mp length
    rw [zero, append_nil]
    exact Reader.Reads.stop (progress_attributeRound vtypes) rfl
  | @cons xs attr xss attrs here _ ih =>
    obtain ⟨reads, size⟩ := here
    rw [flatten_cons, length_append] at length
    have four : 4 ≤ xs.length := by
      rw [size, NetlinkAttribute.getSerializedSize]
      omega
    have bound := len.toNat_lt
    have more : len ≠ 0 := by
      rintro rfl
      rw [UInt32.toNat_zero] at length
      omega
    have left : (len - .ofNat attr.getSerializedSize).toNat = xss.flatten.length := by
      rw [UInt32.toNat_sub, UInt32.toNat_ofNat']
      omega
    have later : (Reader.loop .endless (fun s => s.1 ≠ 0) (attributeRound B vtypes)
        (len - .ofNat attr.getSerializedSize, before ++ [attr])).Reads xss.flatten
        (0, before ++ [attr] ++ attrs) := ih left
    rw [append_assoc] at later
    have one : (attributeRound B vtypes (len, before)).Reads xs (len - .ofNat attr.getSerializedSize,
      before ++ [attr]) :=
      reads.map fun attr => (len - .ofNat attr.getSerializedSize, before ++ [attr])
    exact Reader.Reads.round (progress_attributeRound vtypes) (decide_eq_true more) one later

end Dce.Netlink
