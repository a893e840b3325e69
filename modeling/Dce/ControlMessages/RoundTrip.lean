import Dce.Lib.CInt
import Dce.Lib.Memory
import Mathlib.Data.BitVec

/- The control messages of a `struct msghdr`, as `cmsg.cc` writes and reads them. -/

namespace Dce.ControlMessages

open CInt

structure Msghdr where
  msg_control : Nat
  msg_controllen : Nat
  msg_flags : Nat
  deriving DecidableEq, Repr

/-- The object with the message it points to, and the memory that both are for. -/
structure Cmsg where
  m_msg : Msghdr
  m_current : Nat
  m_len : Int
  memory : Memory

/-- The arguments of a call of `Add`. `beyond` is what can be read behind the data; an object is no longer than the
addresses of a process allow. -/
structure Entry where
  level : BitVec 32
  type : BitVec 32
  data : List UInt8
  beyond : List UInt8
  int : data.length < 2 ^ 31
  short : (data ++ beyond).length < 2 ^ 47

/-- What `GetNext` gives its caller. -/
structure Message where
  level : BitVec 32
  type : BitVec 32
  len : Int
  buffer : Nat
  deriving DecidableEq, Repr

def MSG_CTRUNC : Nat := 8

def CMSG_ALIGN (len : Nat) : Nat := (len + 7) % 2 ^ 64 / 8 * 8

/-- `sizeof (struct cmsghdr)`, which is aligned. -/
def headerSize : Nat := 16

def CMSG_SPACE (len : Nat) : Nat := (CMSG_ALIGN len + headerSize) % 2 ^ 64

def CMSG_LEN (len : Nat) : Nat := (headerSize + len) % 2 ^ 64

/-- The bytes of a `struct cmsghdr`. -/
def cmsghdr (cmsg_len : Nat) (level type : BitVec 32) : List UInt8 :=
  Memory.encode 8 cmsg_len ++ Memory.encode 4 level.toNat ++ Memory.encode 4 type.toNat

/-- `memcpy (to, from, n)`, where `source` is what can be read from there on. -/
def memcpy (dst : Nat) (source : List UInt8) (n : Nat) (memory : Memory) : Option Memory :=
  if n ≤ source.length then memory.store dst (source.take n) else none

/-- `Cmsg::Cmsg` -/
def new (msg : Msghdr) (memory : Memory) : Cmsg := ⟨msg, msg.msg_control, toInt msg.msg_controllen, memory⟩

/-- `none` is an access to memory that is not there. -/
def Add (e : Entry) (s : Cmsg) : Option (Bool × Cmsg) :=
  let cmsglen := toInt (CMSG_SPACE (toSize e.data.length))
  if s.m_len < cmsglen then
    some (false, { s with m_msg := { s.m_msg with msg_flags := s.m_msg.msg_flags ||| MSG_CTRUNC } })
  else do
    let memory ← s.memory.store s.m_current (cmsghdr (toSize cmsglen) e.level e.type)
    let memory ← memcpy (s.m_current + headerSize) (e.data ++ e.beyond) (toSize (toSize cmsglen - headerSize)) memory
    some (true, { s with
      m_current := (s.m_current + cmsglen).toNat
      m_len := s.m_len - cmsglen
      memory := memory })

def load32 (memory : Memory) (a : Nat) : Option (BitVec 32) :=
  (memory.load a 4).map fun bytes => BitVec.ofNat 32 (Memory.decode bytes)

/-- The message is none where the result is `-1`. -/
def GetNext (s : Cmsg) : Option (Option Message × Cmsg) :=
  if s.m_len < toInt (CMSG_LEN 0) then some (none, s)
  else do
    let cmsg_len ← s.memory.loadWord s.m_current
    if cmsg_len = 0 ∨ s.m_len < toInt cmsg_len then some (none, s)
    else
      let level ← load32 s.memory (s.m_current + 8)
      let type ← load32 s.memory (s.m_current + 12)
      some (some ⟨level, type, toInt (toSize (cmsg_len - CMSG_LEN 0)), s.m_current + headerSize⟩, { s with
          m_current := (s.m_current + CMSG_ALIGN cmsg_len) % 2 ^ 64
          m_len := toInt (toSize (s.m_len - CMSG_ALIGN cmsg_len)) })

def Finish (s : Cmsg) : Cmsg :=
  { s with m_msg := { s.m_msg with msg_controllen := toSize (s.m_msg.msg_controllen - s.m_len) } }

/-- The calls of `Add` for a list of entries, where all are accepted. -/
def AddAll : List Entry → Cmsg → Option Cmsg
  | [], s => some s
  | e :: es, s => do
    match ← Add e s with
    | (true, s) => AddAll es s
    | (false, _) => none

/-- The calls of `GetNext` up to the first that gives no message, and what they give. -/
inductive Walk : Cmsg → List Message → Prop
  | stop {s t : Cmsg} : GetNext s = some (none, t) → Walk s []
  | next {s t : Cmsg} {m : Message} {ms : List Message} : GetNext s = some (some m, t) → Walk t ms → Walk s (m :: ms)

end Dce.ControlMessages

namespace Dce.ControlMessages

open CInt

/-- The addresses of a process are below those of the kernel. -/
def Userspace (memory : Memory) : Prop := ∀ a, 2 ^ 47 ≤ a → memory a = none

/-- What an entry takes of the control area. -/
def space (e : Entry) : Nat := CMSG_ALIGN e.data.length + headerSize

variable {s t : Cmsg} {e : Entry} {es : List Entry} {a b : Nat} {memory memory' : Memory}

theorem CMSG_ALIGN_eq {len : Nat} (short : len < 2 ^ 63) : CMSG_ALIGN len = (len + 7) / 8 * 8 := by
  unfold CMSG_ALIGN
  omega

theorem le_align (e : Entry) : e.data.length ≤ CMSG_ALIGN e.data.length := by
  have bound := e.int
  rw [CMSG_ALIGN_eq (by omega)]
  omega

/-- There is no padding exactly if the length is a multiple of the alignment. -/
theorem align_eq_iff (e : Entry) : CMSG_ALIGN e.data.length = e.data.length ↔ 8 ∣ e.data.length := by
  have bound := e.int
  rw [CMSG_ALIGN_eq (by omega)]
  omega

theorem align_space (e : Entry) : CMSG_ALIGN (space e) = space e := by
  have bound := e.int
  have aligned : CMSG_ALIGN e.data.length = (e.data.length + 7) / 8 * 8 := CMSG_ALIGN_eq (by omega)
  unfold space headerSize
  rw [CMSG_ALIGN_eq (by omega)]
  omega

@[simp]
theorem cmsghdr_length (cmsg_len : Nat) (level type : BitVec 32) : (cmsghdr cmsg_len level type).length = 16 := by
  simp [cmsghdr]

theorem Userspace.mapped_le {n : Nat} (user : Userspace memory) (mapped : Memory.Mapped memory a n) (some_ : 0 < n) :
    a + n ≤ 2 ^ 47 := by
  by_contra far
  have last := mapped (a + (n - 1)) (by omega) (by omega)
  rw [user (a + (n - 1)) (by omega)] at last
  cases last

theorem Userspace.put {bs : List UInt8} (user : Userspace memory) (mapped : Memory.Mapped memory a bs.length) :
    Userspace (memory.put a bs) := by
  intro x far
  have same := Memory.put_isSome mapped x
  rw [user x far] at same
  exact Option.not_isSome_iff_eq_none.mp (by simp [same])

/-- The memory after an entry has been written at `a`. -/
def written (e : Entry) (a : Nat) (memory : Memory) : Memory :=
  (memory.put a (cmsghdr (space e) e.level e.type)).put (a + headerSize)
  ((e.data ++ e.beyond).take (CMSG_ALIGN e.data.length))

/-- What an accepted entry comes to. A length whose space is too large for an `int` would have been copied from and
to memory that is not there. -/
theorem Add_accepts (run : Add e s = some (true, t)) :
    CMSG_ALIGN e.data.length ≤ (e.data ++ e.beyond).length ∧ space e < 2 ^ 31 ∧ (space e : Int) ≤ s.m_len ∧
      Memory.Mapped s.memory s.m_current (space e) ∧
      t = { s with
        m_current := s.m_current + space e
        m_len := s.m_len - space e
        memory := written e s.m_current s.memory } := by
  have bound := e.int
  have reach := e.short
  have aligned : CMSG_ALIGN e.data.length = (e.data.length + 7) / 8 * 8 := CMSG_ALIGN_eq (by omega)
  have whole : CMSG_SPACE (toSize e.data.length) = space e := by
    rw [toSize_eq (by omega), CMSG_SPACE, space, headerSize]
    omega
  simp only [Add, whole] at run
  split at run
  · cases run
  · obtain ⟨headed, first, run⟩ := Option.bind_eq_some_iff.mp run
    obtain ⟨filled, second, run⟩ := Option.bind_eq_some_iff.mp run
    unfold memcpy at second
    split at second
    next copied =>
      have small : space e < 2 ^ 31 := by
        by_contra large
        have wrapped : toInt (space e) < 0 := by
          have bounds := toInt_bounds (space e)
          have same := toInt_emod (space e)
          unfold space headerSize at *
          omega
        have huge : 2 ^ 63 ≤ toSize (toInt (space e)) :=
          toSize_of_neg (by have := toInt_bounds (space e); omega) wrapped
        have length :=
          toSize_sub (n := toSize (toInt (space e))) (k := headerSize) (by unfold headerSize; omega) (toSize_lt _)
        rw [length, headerSize] at copied
        omega
      have exact_ : toInt (space e) = space e := toInt_eq (by omega) (by omega)
      have length : toSize (toSize (space e : Int) - headerSize) = CMSG_ALIGN e.data.length := by
        rw [toSize_eq (by omega), toSize_sub (by unfold space; omega) (by omega), space, Nat.add_sub_cancel]
      rw [exact_, toSize_eq (by omega)] at first
      rw [exact_, length] at second copied
      obtain ⟨mapped, rfl⟩ := Memory.store_eq_some first
      obtain ⟨mapped', rfl⟩ := Memory.store_eq_some second
      rw [exact_] at run
      cases run
      rw [List.length_take] at mapped'
      refine ⟨copied, small, by omega, fun x lower upper => ?_, ?_⟩
      · by_cases header : x < s.m_current + 16
        · exact mapped x lower header
        · have there := mapped' x (by unfold headerSize; omega) (by unfold space headerSize at *; omega)
          rwa [Memory.put_isSome (by simpa using mapped)] at there
      · have current : ((s.m_current : Int) + space e).toNat = s.m_current + space e := by omega
        rfl
    next => cases second

/-- An entry is in the memory at `a`. -/
structure Holds (memory : Memory) (a : Nat) (e : Entry) : Prop where
  header : memory.load a 16 = some (cmsghdr (space e) e.level e.type)
  data : memory.load (a + headerSize) (CMSG_ALIGN e.data.length) =
    some ((e.data ++ e.beyond).take (CMSG_ALIGN e.data.length))
  int : space e < 2 ^ 31

theorem Holds.congr (holds : Holds memory a e) (agree : Memory.Agree memory memory' a (space e)) :
    Holds memory' a e where
  header := by
    have first : Memory.Agree memory memory' a 16 := agree.sub le_rfl (by unfold space headerSize; omega)
    exact Memory.load_congr first ▸ holds.header
  data := by
    have last : Memory.Agree memory memory' (a + headerSize) (CMSG_ALIGN e.data.length) :=
      agree.sub (by omega) (by unfold space; omega)
    exact Memory.load_congr last ▸ holds.data
  int := holds.int

theorem holds_written (enough : CMSG_ALIGN e.data.length ≤ (e.data ++ e.beyond).length) (int : space e < 2 ^ 31) :
    Holds (written e a memory) a e where
  header := by
    have apart : Memory.Agree (written e a memory) (memory.put a (cmsghdr (space e) e.level e.type)) a 16 :=
      Memory.put_agree (.inr le_rfl)
    rw [Memory.load_congr apart]
    exact Memory.load_put
  data := by
    have length : ((e.data ++ e.beyond).take (CMSG_ALIGN e.data.length)).length = CMSG_ALIGN e.data.length := by
      rw [List.length_take, Nat.min_eq_left enough]
    have loaded : (written e a memory).load (a + headerSize)
      ((e.data ++ e.beyond).take (CMSG_ALIGN e.data.length)).length =
        some ((e.data ++ e.beyond).take (CMSG_ALIGN e.data.length)) := Memory.load_put
    rwa [length] at loaded
  int := int

/-- The entries are in the memory one behind the other, from `a` to `b`. -/
def Laid (memory : Memory) : Nat → List Entry → Nat → Prop
  | a, [], b => a = b
  | a, e :: es, b => Holds memory a e ∧ Laid memory (a + space e) es b

theorem Laid.le (laid : Laid memory a es b) : a ≤ b := by
  induction es generalizing a with
  | nil => exact le_of_eq laid
  | cons e es ih =>
    have rest := ih laid.2
    omega

theorem written_agree (below : b ≤ a) : Memory.Agree memory (written e a memory) 0 b := by
  intro x _ upper
  rw [written, Memory.put_outside (by unfold headerSize; omega), Memory.put_outside (by omega)]

theorem Add_userspace (user : Userspace s.memory) (run : Add e s = some (true, t)) : Userspace t.memory := by
  obtain ⟨enough, -, -, mapped, rfl⟩ := Add_accepts run
  have header : Memory.Mapped s.memory s.m_current (cmsghdr (space e) e.level e.type).length := by
    rw [cmsghdr_length]
    exact mapped.sub le_rfl (by unfold space headerSize; omega)
  refine (user.put header).put ?_
  rw [List.length_take]
  exact header.put (mapped.sub (by omega) (by unfold space headerSize; omega))

/-- What the accepted entries leave behind. -/
structure Wrote (s : Cmsg) (es : List Entry) (t : Cmsg) : Prop where
  below : Memory.Agree s.memory t.memory 0 s.m_current
  laid : Laid t.memory s.m_current es t.m_current
  msg : t.m_msg = s.m_msg
  len : t.m_len + t.m_current = s.m_len + s.m_current
  room : (t.m_current : Int) ≤ s.m_current + max s.m_len 0
  user : es ≠ [] → t.m_current ≤ 2 ^ 47

theorem AddAll_wrote (user : Userspace s.memory) (run : AddAll es s = some t) : Wrote s es t := by
  induction es generalizing s with
  | nil =>
    cases run
    exact ⟨fun _ _ _ => rfl, rfl, rfl, rfl, by omega, fun some_ => absurd rfl some_⟩
  | cons e es ih =>
    simp only [AddAll, Option.bind_eq_bind, Option.bind_eq_some_iff] at run
    obtain ⟨⟨accepted, u⟩, first, run⟩ := run
    cases accepted with
    | false => cases run
    | true =>
      have rest := ih (Add_userspace user first) run
      obtain ⟨enough, int, room, mapped, rfl⟩ := Add_accepts first
      have within := user.mapped_le mapped (by unfold space headerSize; omega)
      have here : Holds (written e s.m_current s.memory) s.m_current e := holds_written enough int
      obtain ⟨below, laid, msg, len, room', user'⟩ := rest
      refine ⟨?_, ⟨?_, laid⟩, msg, ?_, ?_, ?_⟩
      · intro x lower upper
        have kept : Memory.Agree s.memory (written e s.m_current s.memory) 0 s.m_current := written_agree le_rfl
        rw [kept x lower upper]
        exact below x lower (by simp only; omega)
      · exact here.congr (below.sub (Nat.zero_le _) (by simp only; omega))
      · push_cast at len
        omega
      · push_cast at room'
        omega
      · intro _
        cases es with
        | nil => exact laid ▸ within
        | cons e' es => exact user' (List.cons_ne_nil _ _)

/-- What the entries at `a` are read as. -/
def messages : Nat → List Entry → List Message
  | _, [] => []
  | a, e :: es => ⟨e.level, e.type, CMSG_ALIGN e.data.length, a + headerSize⟩ :: messages (a + space e) es

theorem load32_encode (w : BitVec 32) (loaded : memory.load a 4 = some (Memory.encode 4 w.toNat)) :
    load32 memory a = some w := by
  have short : w.toNat < 256 ^ 4 := w.isLt
  rw [load32, loaded, Option.map_some, Memory.decode_encode short, BitVec.ofNat_toNat, BitVec.setWidth_eq]

theorem load_part {bs : List UInt8} {n k i : Nat} (loaded : memory.load a n = some bs) (within : i + k ≤ n) :
    memory.load (a + i) k = some ((bs.drop i).take k) := by
  have length := Memory.load_length loaded
  refine Memory.load_eq (by rw [List.length_take, List.length_drop]; omega) fun j upper => ?_
  rw [List.getElem?_take, if_pos upper, List.getElem?_drop, Nat.add_assoc]
  exact Memory.load_get loaded (by omega)

section

variable (holds : Holds memory a e)
include holds

theorem Holds.cmsg_len : memory.loadWord a = some (space e) := by
  have loaded := load_part (i := 0) (k := 8) holds.header (by omega)
  have bytes : ((cmsghdr (space e) e.level e.type).drop 0).take 8 = Memory.encode 8 (space e) := by
    simp [cmsghdr]
  have short : space e < 256 ^ 8 := holds.int.trans (by decide)
  rw [bytes, Nat.add_zero] at loaded
  rw [Memory.loadWord, loaded, Option.map_some, Memory.decode_encode short]

theorem Holds.level : load32 memory (a + 8) = some e.level := by
  have loaded := load_part (i := 8) (k := 4) holds.header (by omega)
  refine load32_encode _ (loaded.trans ?_)
  simp [cmsghdr]

theorem Holds.type : load32 memory (a + 12) = some e.type := by
  have loaded := load_part (i := 12) (k := 4) holds.header (by omega)
  refine load32_encode _ (loaded.trans ?_)
  simp [cmsghdr, Memory.encode]

end

theorem GetNext_holds (holds : Holds s.memory s.m_current e) (room : (space e : Int) ≤ s.m_len)
    (int : s.m_len < 2 ^ 31)
    (near : s.m_current + space e < 2 ^ 64) :
    GetNext s = some (some ⟨e.level, e.type, CMSG_ALIGN e.data.length, s.m_current + headerSize⟩,
      { s with m_current := s.m_current + space e, m_len := s.m_len - space e }) := by
  have small := holds.int
  have least : CMSG_LEN 0 = headerSize := by decide
  have header : toInt headerSize = 16 := by decide
  have wide : headerSize ≤ space e := by unfold space; omega
  have length : toInt (toSize ((space e : Int) - headerSize)) = CMSG_ALIGN e.data.length := by
    rw [toSize_sub wide (by omega), space]
    exact toInt_eq (by omega) (by unfold space at small; omega)
  have left : toInt (toSize (s.m_len - space e)) = s.m_len - space e := by
    rw [toInt_toSize]
    exact toInt_eq (by omega) (by omega)
  have exact_ : toInt (space e) = space e := toInt_eq (by omega) (by omega)
  have nonzero : space e ≠ 0 := by unfold headerSize at wide; omega
  rw [GetNext, least, header, if_neg (by unfold headerSize at wide; omega), holds.cmsg_len, Option.bind_eq_bind,
    Option.bind_some, if_neg (by rw [exact_]; omega), holds.level, Option.bind_eq_bind, Option.bind_some, holds.type,
    Option.bind_some, align_space, length, left, Nat.mod_eq_of_lt near]

theorem walk_laid (laid : Laid s.memory s.m_current es b) (len : s.m_len = b - s.m_current) (int : s.m_len < 2 ^ 31)
    (near : es ≠ [] → b < 2 ^ 64) : Walk s (messages s.m_current es) := by
  induction es generalizing s with
  | nil =>
    have done : s.m_len = 0 := by
      have same : s.m_current = b := laid
      omega
    refine .stop (t := s) ?_
    rw [GetNext, done]
    rfl
  | cons e es ih =>
    obtain ⟨here, rest⟩ := laid
    have after := rest.le
    have near := near (List.cons_ne_nil _ _)
    refine .next (GetNext_holds here (by omega) int (by omega)) (ih rest ?_ ?_ fun _ => near)
    · simp only
      omega
    · simp only
      omega

theorem Walk.unique {ms ms' : List Message} (walk : Walk s ms) (walk' : Walk s ms') : ms = ms' := by
  induction walk generalizing ms' with
  | stop here =>
    cases walk' with
    | stop => rfl
    | next here' _ => cases here.symm.trans here'
  | next here _ ih =>
    cases walk' with
    | stop here' => cases here.symm.trans here'
    | next here' rest' =>
      cases here.symm.trans here'
      rw [ih rest']

/-- A message that says what the entry says: the length of its data and these. -/
structure Carries (memory : Memory) (e : Entry) (m : Message) : Prop where
  level : m.level = e.level
  type : m.type = e.type
  len : m.len = e.data.length
  data : memory.load m.buffer e.data.length = some e.data

/-- The length that is reported is not negative, and with the data it is about inside of the control area. -/
structure Inside (msg : Msghdr) (m : Message) : Prop where
  nonneg : 0 ≤ m.len
  lower : msg.msg_control ≤ m.buffer
  upper : m.buffer + m.len ≤ msg.msg_control + msg.msg_controllen

/-- The walk over the message that a writer has finished gives the entries and stops. -/
def ReadBack (msg : Msghdr) (es : List Entry) (writer : Cmsg) : Prop :=
  ∃ ms, Walk (new (Finish writer).m_msg writer.memory) ms ∧ List.Forall₂ (Carries writer.memory) es ms ∧
  ∀ m ∈ ms, Inside msg m

theorem carries_iff (laid : Laid memory a es b) :
    List.Forall₂ (Carries memory) es (messages a es) ↔ ∀ e ∈ es, 8 ∣ e.data.length := by
  induction es generalizing a with
  | nil => simp [messages]
  | cons e es ih =>
    obtain ⟨here, rest⟩ := laid
    have data : memory.load (a + headerSize) e.data.length = some e.data := by
      have first := Memory.load_take here.data (le_align e)
      rwa [List.take_take, Nat.min_eq_left (le_align e), List.take_left] at first
    have first : Carries memory e ⟨e.level, e.type, CMSG_ALIGN e.data.length, a + headerSize⟩ ↔
        8 ∣ e.data.length := by
      rw [← align_eq_iff]
      constructor
      · exact fun carries => Int.natCast_inj.mp carries.len
      · exact fun same => ⟨rfl, rfl, by simp only [same], data⟩
    rw [messages, List.forall₂_cons, first, ih rest, List.forall_mem_cons]

theorem messages_inside {msg : Msghdr} (laid : Laid memory a es b) (lower : msg.msg_control ≤ a)
    (upper : b ≤ msg.msg_control + msg.msg_controllen) : ∀ m ∈ messages a es, Inside msg m := by
  induction es generalizing a with
  | nil => simp [messages]
  | cons e es ih =>
    have after := laid.2.le
    rw [messages, List.forall_mem_cons]
    refine ⟨⟨Int.natCast_nonneg _, by simp only; omega, ?_⟩, ih laid.2 (by omega)⟩
    unfold space at after
    push_cast
    omega

theorem wrote_within {msg : Msghdr} (wrote : Wrote (new msg memory) es t) :
    Laid t.memory msg.msg_control es t.m_current ∧ t.m_current ≤ msg.msg_control + msg.msg_controllen ∧
      (t.m_current - msg.msg_control : Int) < 2 ^ 31 ∧ toInt (toSize (msg.msg_controllen - t.m_len)) = t.m_current -
      msg.msg_control := by
  have start : (new msg memory).m_current = msg.msg_control := rfl
  have limit : (new msg memory).m_len = toInt msg.msg_controllen := by rw [new]
  have laid := wrote.laid
  have len := wrote.len
  have room := wrote.room
  have used := laid.le
  have bounds := toInt_bounds msg.msg_controllen
  have low := toInt_emod msg.msg_controllen
  refine ⟨laid, by omega, by omega, ?_⟩
  have size : (msg.msg_controllen - t.m_len : Int) % 2 ^ 32 =
    (t.m_current - msg.msg_control : Int) % 2 ^ 32 := by omega
  rw [toInt_toSize, toInt_congr size]
  exact toInt_eq (by omega) (by omega)

theorem walk_written {msg : Msghdr} (user : Userspace memory) (accepted : AddAll es (new msg memory) = some t) :
    Walk (new (Finish t).m_msg t.memory) (messages msg.msg_control es) ∧
    Laid t.memory msg.msg_control es t.m_current ∧
      t.m_current ≤ msg.msg_control + msg.msg_controllen := by
  have wrote : Wrote (new msg memory) es t := AddAll_wrote (by exact user) accepted
  obtain ⟨laid, within, short, length⟩ := wrote_within wrote
  have kept : t.m_msg = msg := wrote.msg
  have reader : (Finish t).m_msg = { msg with msg_controllen := toSize (msg.msg_controllen - t.m_len) } := by
    rw [Finish, kept]
  refine ⟨?_, laid, within⟩
  rw [reader]
  refine walk_laid laid (by simp only [new, length]) (by simp only [new, length, short]) fun some_ => ?_
  have low := wrote.user some_
  omega

/-- For every control area and all entries that are accepted: the walk gives them back, with lengths that are inside
of the control area, exactly if the length of the data of each is a multiple of the alignment. -/
theorem readBack_iff_aligned (msg : Msghdr) (memory : Memory) (es : List Entry) (writer : Cmsg)
    (user : Userspace memory)
    (accepted : AddAll es (new msg memory) = some writer) : ReadBack msg es writer ↔
    ∀ e ∈ es, 8 ∣ e.data.length := by
  obtain ⟨walk, laid, within⟩ := walk_written user accepted
  rw [← carries_iff laid]
  constructor
  · rintro ⟨ms, walk', carries, -⟩
    rwa [walk.unique walk']
  · exact fun carries => ⟨_, walk, carries, messages_inside laid le_rfl within⟩

/-- A process with a control area of 48 bytes at 4096. -/
def area : Memory := fun a => if 4096 ≤ a ∧ a < 4144 then some 0 else none

theorem area_userspace : Userspace area := fun a far => if_neg (by omega)

def message : Msghdr := ⟨4096, 48, 0⟩

/-- A time to live, which is an `int`. -/
def ttl : Entry := ⟨0, 2, [64, 0, 0, 0], [0, 0, 0, 0], by decide, by decide⟩

/-- Eight bytes of data. -/
def stamp : Entry := ⟨1, 29, [1, 2, 3, 4, 5, 6, 7, 8], [], by decide, by decide⟩

/-- Another eight. -/
def rights : Entry := ⟨1, 1, [3, 0, 0, 0, 4, 0, 0, 0], [], by decide, by decide⟩

theorem readBack_stamp : ∃ writer, AddAll [stamp, rights] (new message area) = some writer ∧
    ReadBack message [stamp, rights] writer := by
  have accepted : (AddAll [stamp, rights] (new message area)).isSome := by decide
  obtain ⟨writer, run⟩ := Option.isSome_iff_exists.mp accepted
  exact ⟨writer, run, (readBack_iff_aligned message area [stamp, rights] writer area_userspace run).mpr (by decide)⟩

/-- The time to live is read back as eight bytes. -/
theorem not_readBack : ∃ writer, AddAll [ttl] (new message area) = some writer ∧ ¬ ReadBack message
    [ttl] writer := by
  have accepted : (AddAll [ttl] (new message area)).isSome := by decide
  obtain ⟨writer, run⟩ := Option.isSome_iff_exists.mp accepted
  obtain ⟨walk, laid, -⟩ := walk_written area_userspace run
  refine ⟨writer, run, fun ⟨ms, walk', carries, _⟩ => ?_⟩
  rw [← walk.unique walk'] at carries
  exact absurd ((carries_iff laid).mp carries) (by decide)

end Dce.ControlMessages
