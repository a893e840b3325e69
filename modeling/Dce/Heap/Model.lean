import Dce.Lib.Memory

/- The memory allocator that each simulated process has: `kingsley-alloc.cc`. -/

namespace Dce.Heap

open Function

def m_defaultMmapSize : Nat := 2 ^ 15

/-- What is fixed of a mapped piece of memory. The heaps that share it know it by `id`. -/
structure Mmap where
  id : Nat
  size : Nat
  buffer : Nat
  deriving DecidableEq, Repr

/-- A piece of memory in one heap, `brk` bytes of it in use; `copy` is where this heap's bytes are
kept while another heap has the memory. -/
structure MmapChunk where
  mmap : Mmap
  copy : Option Nat
  brk : Nat
  fits : brk ≤ mmap.size
  deriving DecidableEq, Repr

structure KingsleyAlloc where
  m_buckets : Nat → Nat
  m_chunks : List MmapChunk

/-- Where the bytes are saved that a piece of memory holds: nowhere, in place, or in a copy. -/
inductive Current
  | null
  | buffer
  | copy (key : Nat)
  deriving DecidableEq, Repr

def Current.ofCopy : Option Nat → Current
  | none => .null
  | some key => .copy key

/-- What changes of a mapped piece of memory. -/
structure Shared where
  refcount : Nat
  current : Current
  deriving DecidableEq, Repr

/-- What the heaps of all processes work on. `fresh` is above every `id` and every key of a copy. -/
structure Store where
  memory : Memory
  mmaps : Nat → Option Shared
  copies : Nat → Option (List UInt8)
  fresh : Nat

def KingsleyAlloc.new : KingsleyAlloc := ⟨fun _ => 0, []⟩

def Store.new : Store := ⟨fun _ => none, fun _ => none, fun _ => none, 0⟩

theorem MmapChunk.new_fits (size : Nat) : 0 ≤ size := Nat.zero_le size

/-- The kernel has put the new memory at `answer`. -/
def MmapAlloc (size answer : Nat) (h : KingsleyAlloc) (s : Store) : KingsleyAlloc × Store :=
  ({ h with m_chunks := ⟨⟨s.fresh, size, answer⟩, none, 0, MmapChunk.new_fits size⟩ :: h.m_chunks }, { s with
      memory := s.memory.map answer size
      mmaps := update s.mmaps s.fresh (some ⟨1, .buffer⟩)
      fresh := s.fresh + 1 })

def MmapFree (buffer size : Nat) (s : Store) : Store := { s with memory := s.memory.unmap buffer size }

theorem MmapChunk.grown_fits {c : MmapChunk} {needed : Nat} (room : needed ≤ c.mmap.size - c.brk) :
    c.brk + needed ≤ c.mmap.size := by
  have := c.fits
  omega

/-- The first chunk with room for `needed` bytes gives them. -/
def carve (needed : Nat) : List MmapChunk → Option (Nat × List MmapChunk)
  | [] => none
  | c :: cs =>
    if room : needed ≤ c.mmap.size - c.brk then
      some (c.mmap.buffer + c.brk, { c with brk := c.brk + needed, fits := MmapChunk.grown_fits room } :: cs)
    else (carve needed cs).map fun found => (found.1, c :: found.2)

/-- `none` is a failed assertion. The chunk that `MmapAlloc` puts in front has room, so that the call
of itself that ends `Brk` maps nothing more. -/
def Brk (needed answer : Nat) (h : KingsleyAlloc) (s : Store) : Option (Nat × KingsleyAlloc × Store) :=
  match carve needed h.m_chunks with
  | some (a, cs) => some (a, { h with m_chunks := cs }, s)
  | none =>
    if needed ≤ m_defaultMmapSize then
      let (h, s) := MmapAlloc m_defaultMmapSize answer h s
      (carve needed h.m_chunks).map fun found => (found.1, { h with m_chunks := found.2 }, s)
    else none

/-- The turns of the loop of `SizeToBucket`; 32 are enough to shift any `uint32_t` out. -/
def shifts : Nat → Nat → Nat
  | 0, _ => 0
  | turns + 1, size => if 7 < size then shifts turns (size / 2) + 1 else 0

/-- The decrement of a zero wraps around. -/
def SizeToBucket (sz : Nat) : Nat := shifts 32 (if sz = 0 then 2 ^ 32 - 1 else sz - 1)

/-- A shift by 32 or more is not defined. -/
def BucketToSize (bucket : Nat) : Option Nat := if bucket + 3 < 32 then some (2 ^ (bucket + 3)) else none

/-- `none` is an access that faults, or something else that is not defined. -/
def Malloc (size answer : Nat) (h : KingsleyAlloc) (s : Store) : Option (Nat × KingsleyAlloc × Store) :=
  if size < m_defaultMmapSize then do
    let bucket := SizeToBucket size
    let (h, s) ← if h.m_buckets bucket = 0 then do
        let (avail, h, s) ← Brk (← BucketToSize bucket) answer h s
        let memory ← s.memory.storeWord avail 0
        pure ({ h with m_buckets := update h.m_buckets bucket avail }, { s with memory := memory })
      else pure (h, s)
    -- fast path
    let avail := h.m_buckets bucket
    let next ← s.memory.loadWord avail
    pure (avail, { h with m_buckets := update h.m_buckets bucket next }, s)
  else
    let (h, s) := MmapAlloc size answer h s
    Brk size answer h s

def Free (buffer size : Nat) (h : KingsleyAlloc) (s : Store) : Option (KingsleyAlloc × Store) :=
  if size < m_defaultMmapSize then do
    let bucket := SizeToBucket size
    let memory ← s.memory.storeWord buffer (h.m_buckets bucket)
    pure ({ h with m_buckets := update h.m_buckets bucket buffer }, { s with memory := memory })
  else if h.m_chunks.any fun c => c.mmap.buffer = buffer ∧ c.mmap.size = size then
    pure ({ h with m_chunks := h.m_chunks.eraseP fun c => c.mmap.buffer = buffer ∧ c.mmap.size = size },
      MmapFree buffer size s)
  else pure (h, s)

def Realloc (oldBuffer oldSize newSize answer : Nat) (h : KingsleyAlloc)
    (s : Store) : Option (Nat × KingsleyAlloc × Store) :=
  if newSize < oldSize then pure (oldBuffer, h, s)
  else do
    let (newBuffer, h, s) ← Malloc newSize answer h s
    let memory ← s.memory.store newBuffer (← s.memory.load oldBuffer oldSize)
    let (h, s) ← Free oldBuffer oldSize h { s with memory := memory }
    pure (newBuffer, h, s)

/-- A buffer of `malloc`, outside of every heap. -/
def newCopy (bytes : List UInt8) (s : Store) : Nat × Store :=
  (s.fresh, { s with copies := update s.copies s.fresh (some bytes), fresh := s.fresh + 1 })

/-- One turn of the loop of `Clone`: the chunk that stays and the chunk of the clone. `junk` is what is
in a new buffer. -/
def cloneChunk (junk : Nat → UInt8) (c : MmapChunk) (s : Store) : Option (MmapChunk × MmapChunk × Store) := do
  let shared ← s.mmaps c.mmap.id
  let refcount := shared.refcount + 1
  let (own, current, s) :=
    if refcount = 2 ∧ c.copy = none then
      -- the first clone of this heap
      let (key, s) := newCopy ((List.range c.mmap.size).map junk) s
      ({ c with copy := some key }, Current.copy key, s)
    else (c, shared.current, s)
  let s := { s with mmaps := update s.mmaps c.mmap.id (some ⟨refcount, current⟩) }
  let bytes ← s.memory.load c.mmap.buffer c.mmap.size
  let (key, s) := newCopy bytes s
  pure (own, { c with copy := some key }, s)

def cloneChunks (junk : Nat → UInt8) : List MmapChunk → Store → Option (List MmapChunk × List MmapChunk × Store)
  | [], s => some ([], [], s)
  | c :: cs, s => do
    let (own, clone, s) ← cloneChunk junk c s
    let (owns, clones, s) ← cloneChunks junk cs s
    pure (own :: owns, clone :: clones, s)

/-- The heap after a clone was made of it, and the clone. Of the array of buckets one is copied. -/
def Clone (junk : Nat → UInt8) (h : KingsleyAlloc) (s : Store) : Option (KingsleyAlloc × KingsleyAlloc × Store) := do
  let (owns, clones, s) ← cloneChunks junk h.m_chunks s
  pure ({ h with m_chunks := owns }, ⟨update (fun _ => 0) 0 (h.m_buckets 0), clones⟩, s)

def saveCurrent (m : Mmap) (s : Store) : Current → Option Store
  | .copy key => do
    let bytes ← s.memory.load m.buffer m.size
    let _ ← s.copies key
    pure { s with copies := update s.copies key (some bytes) }
  | _ => pure s

def loadCopy (m : Mmap) (s : Store) : Option Nat → Option Store
  | some key => do
    let bytes ← s.copies key
    let memory ← s.memory.store m.buffer bytes
    pure { s with memory := memory }
  | none => pure s

/-- One turn of the loop of `SwitchTo`. -/
def switchChunk (s : Store) (c : MmapChunk) : Option Store := do
  let shared ← s.mmaps c.mmap.id
  let s ← saveCurrent c.mmap s shared.current
  let s ← loadCopy c.mmap s c.copy
  pure { s with mmaps := update s.mmaps c.mmap.id (some { shared with current := .ofCopy c.copy }) }

def SwitchTo (h : KingsleyAlloc) (s : Store) : Option Store := h.m_chunks.foldlM switchChunk s

def disposeChunk (s : Store) (c : MmapChunk) : Option Store := do
  let shared ← s.mmaps c.mmap.id
  if .ofCopy c.copy = shared.current then
    pure { s with mmaps := update s.mmaps c.mmap.id (some { shared with current := .null }) }
  else pure s

def Dispose (h : KingsleyAlloc) (s : Store) : Option Store := h.m_chunks.foldlM disposeChunk s

/-- `free` of the copy of a chunk. -/
def freeCopy (s : Store) : Option Nat → Option Store
  | some key => do
    let _ ← s.copies key
    pure { s with copies := update s.copies key none }
  | none => pure s

/-- One turn of the loop of the destructor. -/
def releaseChunk (s : Store) (c : MmapChunk) : Option Store := do
  let shared ← s.mmaps c.mmap.id
  let s ← freeCopy s c.copy
  let current := if c.copy ≠ none ∧ .ofCopy c.copy = shared.current then .null else shared.current
  if shared.refcount - 1 = 0 then
    pure { MmapFree c.mmap.buffer c.mmap.size s with mmaps := update s.mmaps c.mmap.id none }
  else
    pure { s with mmaps := update s.mmaps c.mmap.id (some ⟨shared.refcount - 1, current⟩) }

/-- The destructor of `KingsleyAlloc`. -/
def release (h : KingsleyAlloc) (s : Store) : Option Store := h.m_chunks.foldlM releaseChunk s

/-- The bytes that `Malloc` asks the kernel for, if it does. -/
def maps (size : Nat) (h : KingsleyAlloc) : Option Nat :=
  if size < m_defaultMmapSize then
    if h.m_buckets (SizeToBucket size) = 0 ∧
        ((BucketToSize (SizeToBucket size)).bind fun needed => carve needed h.m_chunks) = none then
      some m_defaultMmapSize
    else none
  else some size

/-- The kernel maps memory that nothing uses, neither at null nor up to the end of the addresses. -/
def Answers (memory : Memory) (answer : Nat) (asked : Option Nat) : Prop :=
  ∀ size, asked = some size → 0 < answer ∧ answer + size < 2 ^ 64 ∧ memory.Free answer size

end Dce.Heap
