import Dce.Heap.Calls
import Dce.Lib.Machine

/- The calls of `dce-alloc.cc`, which keep the size of a block in the word before it. -/

namespace Dce.Heap

open Memory Function List Option

def dce_malloc (size answer : Nat) (h : KingsleyAlloc) (s : Store) : Option (Nat × KingsleyAlloc × Store) := do
  let size := (size + 8) % 2 ^ 64
  let (buffer, h, s) ← Malloc (size % 2 ^ 32) answer h s
  let memory ← s.memory.storeWord buffer size
  pure (buffer + 8, h, { s with memory := memory })

def dce_calloc (nmemb size answer : Nat) (h : KingsleyAlloc) (s : Store) : Option (Nat × KingsleyAlloc × Store) := do
  let (ptr, h, s) ← dce_malloc (nmemb * size % 2 ^ 64) answer h s
  let memory ← s.memory.store ptr (List.replicate (nmemb * size % 2 ^ 64) 0)
  pure (ptr, h, { s with memory := memory })

def dce_malloc_usable_size (ptr : Nat) (s : Store) : Option Nat :=
  (s.memory.loadWord (ptr - 8)).map fun size => (size + (2 ^ 64 - 8)) % 2 ^ 64

def dce_free (ptr : Nat) (h : KingsleyAlloc) (s : Store) : Option (KingsleyAlloc × Store) :=
  if ptr = 0 then pure (h, s)
  else do
    let size ← s.memory.loadWord (ptr - 8)
    Free (ptr - 8) (size % 2 ^ 32) h s

def dce_realloc (ptr size answer : Nat) (h : KingsleyAlloc) (s : Store) : Option (Nat × KingsleyAlloc × Store) :=
  if ptr = 0 ∧ size = 0 then pure (0, h, s)
  else if ptr = 0 then dce_malloc size answer h s
  else do
    let size := (size + 8) % 2 ^ 64
    let oldSize ← s.memory.loadWord (ptr - 8)
    if size ≤ oldSize then pure (ptr, h, s)
    else do
      let (buffer, h, s) ← Realloc (ptr - 8) (oldSize % 2 ^ 32) (size % 2 ^ 32) answer h s
      let memory ← s.memory.storeWord buffer size
      pure (buffer + 8, h, { s with memory := memory })

/-- What a program does with its heap; `write` is one of its own stores. -/
inductive Call
  | malloc (size : Nat)
  | calloc (nmemb size : Nat)
  | realloc (ptr size : Nat)
  | free (ptr : Nat)
  | write (x : Nat) (byte : UInt8)
  deriving DecidableEq, Repr

/-- `live` holds the bytes that were asked for with each block not given back. -/
structure State where
  heap : KingsleyAlloc
  store : Store
  live : Nat → Option Nat

def State.memory (st : State) : Memory := st.store.memory

/-- The bytes that a call has to give. -/
def Call.requested : Call → Option Nat
  | .malloc size => some size
  | .calloc nmemb size => some (nmemb * size)
  | .realloc _ size => some size
  | _ => none

/-- The block that a call gives back. -/
def Call.returned : Call → Option Nat
  | .realloc ptr _ => some ptr
  | .free ptr => some ptr
  | _ => none

/-- A call of the program, with where the kernel would put new memory: the pointer that comes back, and
the state after it. -/
def perform (answer : Nat) (st : State) : Call → Option (Nat × State)
  | .malloc size => do
    let (ptr, h, s) ← dce_malloc size answer st.heap st.store
    pure (ptr, ⟨h, s, update st.live ptr (some size)⟩)
  | .calloc nmemb size => do
    let (ptr, h, s) ← dce_calloc nmemb size answer st.heap st.store
    pure (ptr, ⟨h, s, update st.live ptr (some (nmemb * size))⟩)
  | .realloc ptr size => do
    let (ptr', h, s) ← dce_realloc ptr size answer st.heap st.store
    if ptr' = 0 then pure (ptr', ⟨h, s, st.live⟩)
    else pure (ptr', ⟨h, s, update (update st.live ptr none) ptr' (some size)⟩)
  | .free ptr => do
    let (h, s) ← dce_free ptr st.heap st.store
    pure (0, ⟨h, s, update st.live ptr none⟩)
  | .write x byte => do
    let memory ← st.memory.store x [byte]
    pure (0, { st with store := { st.store with memory := memory } })

/-- A heap from its start, under one call of its program after the other. -/
def machine : Machine State (Call × Nat) where
  init st := st = ⟨.new, .new, fun _ => none⟩
  step st call := (perform call.2 st call.1).map Prod.snd

/-- The bytes that a call asks the kernel for, if it does. -/
def asks (st : State) : Call → Option Nat
  | .malloc size => maps ((size + 8) % 2 ^ 64 % 2 ^ 32) st.heap
  | .calloc nmemb size => maps ((nmemb * size % 2 ^ 64 + 8) % 2 ^ 64 % 2 ^ 32) st.heap
  | .realloc ptr size =>
    if ptr = 0 then if size = 0 then none else maps ((size + 8) % 2 ^ 64 % 2 ^ 32) st.heap
    else if (size + 8) % 2 ^ 64 ≤ (st.memory.loadWord (ptr - 8)).getD 0 then none
    else maps ((size + 8) % 2 ^ 64 % 2 ^ 32) st.heap
  | _ => none

/-- The program gives back only what it has and writes only there, and the kernel answers as it does. -/
structure Proper (st : State) (call : Call × Nat) : Prop where
  returned : ∀ ptr, call.1.returned = some ptr → ptr = 0 ∨ ∃ n, st.live ptr = some n
  written : ∀ x byte, call.1 = .write x byte →
    ∃ ptr n usable, st.live ptr = some n ∧ dce_malloc_usable_size ptr st.store = some usable ∧ ptr ≤ x ∧
    x < ptr + usable
  answer : Answers st.memory call.2 (asks st call.1)

/-- The size of a request, with the word before the block, fits 32 bits. -/
def Fits (call : Call) : Prop := ∀ n, call.requested = some n → n + 8 < 2 ^ 32

/-- What should hold of one state. -/
structure Safe (st : State) : Prop where
  owned : ∀ ptr n, st.live ptr = some n →
    st.memory.Mapped ptr n ∧ ∃ c ∈ st.heap.mmaps, c.buffer ≤ ptr ∧ ptr + n ≤ c.buffer + c.size
  usable : ∀ ptr n, st.live ptr = some n → 8 ≤ ptr ∧ ∃ usable, dce_malloc_usable_size ptr st.store = some usable ∧
    n ≤ usable
  /-- Another block and the word before it lie outside all the bytes that may be used of a block. -/
  apart : ∀ p q n k u v, p ≠ q → st.live p = some n → st.live q = some k →
    dce_malloc_usable_size p st.store = some u → dce_malloc_usable_size q st.store = some v →
    p + u ≤ q - 8 ∨ q + v ≤ p - 8
  /-- So does the link in a cell that is free. -/
  links : ∀ bucket, ∃ list, st.memory.Linked (st.heap.m_buckets bucket) list ∧
    ∀ a ∈ list, ∀ p n u, st.live p = some n → dce_malloc_usable_size p st.store = some u → p + u ≤ a ∨ a + 8 ≤ p - 8

/-- What should hold of one call and what it gave. -/
structure Served (st : State) (call : Call) (ptr : Nat) (st' : State) : Prop where
  fresh : ∀ n, call.requested = some n → call.returned ≠ some ptr → st.live ptr = none
  zero : ∀ nmemb size, call = .calloc nmemb size → ∀ i, i < nmemb * size → st'.memory (ptr + i) = some 0
  moved : ∀ old size n, call = .realloc old size → st.live old = some n → ∀ i, i < n → i < size →
    st'.memory (ptr + i) = st.memory (old + i)
  written : ∀ x byte, call = .write x byte → st'.memory x = some byte
  kept : ∀ q n, st.live q = some n → call.returned ≠ some q → ∀ i, i < n → (∀ byte, call ≠ .write (q + i) byte) →
    st'.memory (q + i) = st.memory (q + i)

/-- Each block is the cell that begins with the word before it. -/
structure Good (h : KingsleyAlloc) (m : Memory) (live : Nat → Option Nat) (cells : Nat → Option Use) : Prop where
  laid : Laid h m cells
  block : ∀ ptr n, live ptr = some n →
    8 ≤ ptr ∧ ∃ size, cells (ptr - 8) = some (.live size) ∧ n + 8 ≤ size ∧ m.loadWord (ptr - 8) = some size

section

variable {h : KingsleyAlloc} {s : Store} {m : Memory} {live : Nat → Option Nat} {cells : Nat → Option Use}

variable {n ptr size answer : Nat} {m' : Memory} {h' : KingsleyAlloc}

theorem Good.usable (good : Good h s.memory live cells) (hptr : live ptr = some n) :
    ∃ size, cells (ptr - 8) = some (.live size) ∧ n + 8 ≤ size ∧ size ≤ cellSize size ∧
      s.memory.loadWord (ptr - 8) = some size ∧ dce_malloc_usable_size ptr s = some (size - 8) := by
  obtain ⟨-, size, hcell, hn, hword⟩ := good.block ptr n hptr
  obtain ⟨hpos, hsize⟩ := good.laid.live_bounds _ size hcell
  refine ⟨size, hcell, hn, le_cellSize hpos (by omega), hword, ?_⟩
  rw [dce_malloc_usable_size, hword, map_some, show (size + (2 ^ 64 - 8)) % 2 ^ 64 = size - 8 by omega]

theorem Good.safe {st : State} (good : Good st.heap st.memory st.live cells) : Safe st where
  owned ptr n hptr := by
    obtain ⟨size, hcell, hn, hle, -⟩ := good.usable hptr
    obtain ⟨c, hc, lower, upper⟩ := good.laid.in_piece hcell
    rw [Use.len] at upper
    exact ⟨(good.laid.mapped c hc).sub (by omega) (by omega), c, hc, by omega, by omega⟩
  usable ptr n hptr := by
    obtain ⟨hptr8, -⟩ := good.block ptr n hptr
    obtain ⟨size, -, hn, -, -, husable⟩ := good.usable hptr
    exact ⟨hptr8, _, husable, by omega⟩
  apart p q n k u v hne hp hq hu hv := by
    obtain ⟨hp8, -⟩ := good.block p n hp
    obtain ⟨hq8, -⟩ := good.block q k hq
    obtain ⟨size, hcell, hn, hle, -, husable⟩ := good.usable hp
    obtain ⟨size', hcell', hk, hle', -, husable'⟩ := good.usable hq
    cases husable.symm.trans hu
    cases husable'.symm.trans hv
    have hapart := good.laid.cells_apart (p - 8) (q - 8) _ _ (by omega) hcell hcell'
    simp only [Use.len] at hapart
    omega
  links bucket := by
    obtain ⟨list, hlist, -, hfree⟩ := good.laid.linked bucket
    refine ⟨list, hlist, fun a ha p n u hp hu => ?_⟩
    obtain ⟨size, hcell, hn, hle, -, husable⟩ := good.usable hp
    cases husable.symm.trans hu
    have hne : p - 8 ≠ a := by
      rintro rfl
      rw [hfree _ ha] at hcell
      cases hcell
    have hapart := good.laid.cells_apart (p - 8) a _ _ hne hcell (hfree a ha)
    have hlen := (Use.free bucket).eight_le_len
    rw [show (Use.live size).len = cellSize size from rfl] at hapart
    omega

theorem Good.block_keeps (good : Good h m live cells) {cells' : Nat → Option Use}
    (hptr : live ptr = some n) (hcell : ∀ size, cells (ptr - 8) = some (.live size) →
      cells' (ptr - 8) = some (.live size) ∧ m.Agree m' (ptr - 8) (cellSize size)) :
    8 ≤ ptr ∧ ∃ size, cells' (ptr - 8) = some (.live size) ∧ n + 8 ≤ size ∧ m'.loadWord (ptr - 8) = some size := by
  obtain ⟨hptr8, size, hcells, hn, hword⟩ := good.block ptr n hptr
  obtain ⟨hcell', hagree⟩ := hcell size hcells
  have hlen := (Use.live size).eight_le_len
  exact ⟨hptr8, size, hcell', hn, loadWord_congr (hagree.sub le_rfl (Nat.add_le_add_left hlen _)) ▸ hword⟩

theorem Good.bytes_keep (good : Good h m live cells) (hptr : live ptr = some n)
    (hagree : ∀ size, cells (ptr - 8) = some (.live size) → m.Agree m' (ptr - 8) (cellSize size)) {i : Nat}
    (hi : i < n) : m' (ptr + i) = m (ptr + i) := by
  obtain ⟨hptr8, size, hcell, hn, -⟩ := good.block ptr n hptr
  obtain ⟨hpos, hsize⟩ := good.laid.live_bounds _ size hcell
  have hle := le_cellSize hpos (by omega : size ≤ 2 ^ 32)
  exact (hagree size hcell (ptr + i) (by omega) (by omega)).symm

theorem request_eq (hn : n + 8 < 2 ^ 32) : (n + 8) % 2 ^ 64 = n + 8 ∧ (n + 8) % 2 ^ 32 = n + 8 :=
  ⟨Nat.mod_eq_of_lt (by omega), Nat.mod_eq_of_lt hn⟩

theorem Good.allocated (good : Good h m live cells) {a : Nat}
    (laid : Laid h' m' (update cells a (some (.live size)))) (unused : ∀ size', cells a ≠ some (.live size'))
    (kept : ∀ b size', cells b = some (.live size') → m.Agree m' b (cellSize size')) :
    live (a + 8) = none ∧ Good h' m' live (update cells a (some (.live size))) ∧
      ∀ q k, live q = some k → ∀ i, i < k → m' (q + i) = m (q + i) := by
  have hother : ∀ q k, live q = some k → 8 ≤ q ∧ q - 8 ≠ a := by
    intro q k hq
    obtain ⟨hq8, size₀, hcell₀, -⟩ := good.block q k hq
    refine ⟨hq8, fun heq => ?_⟩
    rw [heq] at hcell₀
    exact unused _ hcell₀
  refine ⟨?_, ⟨laid, fun q k hq => ?_⟩, fun q k hq i hi => good.bytes_keep hq (fun size' hcell => kept _ _ hcell) hi⟩
  · cases hlive : live (a + 8) with
    | none => rfl
    | some k => exact absurd (Nat.add_sub_cancel a 8) (hother _ k hlive).2
  · exact good.block_keeps hq fun size' hcell =>
      ⟨(update_of_ne (hother q k hq).2 ..).trans hcell, kept _ _ hcell⟩

section

variable (good : Good h s.memory live cells)
include good

theorem Good.header {a : Nat} (hcell : cells a = some (.live size)) (hn : n + 8 ≤ size)
    (hnone : live (a + 8) = none) :
    s.memory.storeWord a size = some (s.memory.putWord a size) ∧
      Good h (s.memory.putWord a size) (update live (a + 8) (some n)) cells ∧
      ∀ q k, live q = some k → ∀ i, i < k → s.memory.putWord a size (q + i) = s.memory (q + i) := by
  obtain ⟨hpos, hsize⟩ := good.laid.live_bounds a size hcell
  have hlen := (Use.live size).eight_le_len
  obtain ⟨hmapped, laid', hkept, -⟩ := good.laid.write hcell (encode 8 size) le_rfl
    (by rw [encode_length]; exact Nat.add_le_add_left hlen a)
  have hother : ∀ q k, live q = some k → ∀ size', cells (q - 8) = some (.live size') →
      cells (q - 8) = some (.live size') ∧ s.memory.Agree (s.memory.putWord a size) (q - 8) (cellSize size') := by
    intro q k hq size' hcell'
    obtain ⟨hq8, -⟩ := good.block q k hq
    have hne : q - 8 ≠ a := by
      intro heq
      rw [show a + 8 = q by omega, hq] at hnone
      cases hnone
    exact ⟨hcell', hkept _ _ hne hcell'⟩
  refine ⟨storeWord_of_mapped hmapped, ⟨laid', fun q k hq => ?_⟩,
    fun q k hq i hi => good.bytes_keep hq (fun size' hcell' => (hother q k hq size' hcell').2) hi⟩
  by_cases hnew : q = a + 8
  · rw [hnew, update_self] at hq
    cases hq
    rw [hnew]
    exact ⟨by omega, size, hcell, hn, loadWord_putWord (by omega)⟩
  · rw [update_of_ne hnew] at hq
    exact good.block_keeps hq (hother q k hq)

theorem Good.malloc (hn : n + 8 < 2 ^ 32) (hanswer : Answers s.memory answer (maps ((n + 8) % 2 ^ 64 % 2 ^ 32) h)) :
    ∃ buffer h' s' cells', dce_malloc n answer h s = some (buffer + 8, h', s') ∧ live (buffer + 8) = none ∧
      Good h' s'.memory (update live (buffer + 8) (some n)) cells' ∧
      ∀ q k, live q = some k → ∀ i, i < k → s'.memory (q + i) = s.memory (q + i) := by
  obtain ⟨h64, h32⟩ := request_eq hn
  rw [h64, h32] at hanswer
  obtain ⟨a, h', s₁, hmalloc, allocates⟩ := Malloc_spec good.laid (by omega) hn hanswer
  obtain ⟨hnone, good₁, hkept₁⟩ := good.allocated allocates.laid allocates.unused allocates.kept
  obtain ⟨hstore, good₂, hkept₂⟩ := good₁.header (update_self ..) le_rfl hnone
  refine ⟨a, h', { s₁ with memory := s₁.memory.putWord a (n + 8) }, _, ?_, hnone, good₂, fun q k hq i hi => ?_⟩
  · simp only [dce_malloc, h64, h32, hmalloc, bind_eq_bind, bind_some, hstore, pure]
  · exact (hkept₂ q k hq i hi).trans (hkept₁ q k hq i hi)

variable (hptr : live ptr = some n)
include hptr

theorem Good.write {x usable : Nat} (husable : dce_malloc_usable_size ptr s = some usable) (bytes : List UInt8)
    (lower : ptr ≤ x)
    (upper : x + bytes.length ≤ ptr + usable) :
    s.memory.store x bytes = some (s.memory.put x bytes) ∧ Good h (s.memory.put x bytes) live cells ∧
      ∀ q k, live q = some k → q ≠ ptr → ∀ i, i < k → s.memory.put x bytes (q + i) = s.memory (q + i) := by
  obtain ⟨hptr8, -⟩ := good.block ptr n hptr
  obtain ⟨size, hcell, hn, hle, hword, husable'⟩ := good.usable hptr
  cases husable'.symm.trans husable
  obtain ⟨hmapped, laid', hkept, -⟩ :=
    good.laid.write hcell bytes (by omega : ptr - 8 ≤ x) (by omega)
  have hother : ∀ q k, live q = some k → q ≠ ptr → ∀ size', cells (q - 8) = some (.live size') →
      cells (q - 8) = some (.live size') ∧ s.memory.Agree (s.memory.put x bytes) (q - 8) (cellSize size') := by
    intro q k hq hne size' hcell'
    obtain ⟨hq8, -⟩ := good.block q k hq
    exact ⟨hcell', hkept _ _ (by omega) hcell'⟩
  refine ⟨store_of_mapped hmapped, ⟨laid', fun q k hq => ?_⟩, fun q k hq hne i hi => ?_⟩
  · by_cases hself : q = ptr
    · subst hself
      cases hptr.symm.trans hq
      refine ⟨hptr8, size, hcell, hn, ?_⟩
      rw [← hword]
      exact loadWord_congr (put_agree (by omega))
    · exact good.block_keeps hq (hother q k hq hself)
  · exact good.bytes_keep hq (fun size' hcell' => (hother q k hq hne size' hcell').2) hi

omit hptr in
theorem Good.calloc {nmemb : Nat} (hn : nmemb * size + 8 < 2 ^ 32)
    (hanswer : Answers s.memory answer (maps ((nmemb * size % 2 ^ 64 + 8) % 2 ^ 64 % 2 ^ 32) h)) :
    ∃ ptr h' s' cells', dce_calloc nmemb size answer h s = some (ptr, h', s') ∧ live ptr = none ∧
      Good h' s'.memory (update live ptr (some (nmemb * size))) cells' ∧
      (∀ i, i < nmemb * size → s'.memory (ptr + i) = some 0) ∧
      ∀ q k, live q = some k → ∀ i, i < k → s'.memory (q + i) = s.memory (q + i) := by
  rw [Nat.mod_eq_of_lt (by omega : nmemb * size < 2 ^ 64)] at hanswer
  obtain ⟨buffer, h', s₁, cells', hmalloc, hnone, good₁, hkept₁⟩ := good.malloc hn hanswer
  have hself : update live (buffer + 8) (some (nmemb * size)) (buffer + 8) = some (nmemb * size) :=
    update_self ..
  obtain ⟨usize, -, husize, -, -, husable⟩ := good₁.usable hself
  obtain ⟨hstore, good₂, hkept₂⟩ := good₁.write hself husable (replicate (nmemb * size) 0) le_rfl
    (by rw [length_replicate]; omega)
  refine ⟨buffer + 8, h', { s₁ with memory := s₁.memory.put (buffer + 8) (replicate (nmemb * size) 0) }, cells',
    ?_, hnone, good₂, fun i hi => ?_, fun q k hq i hi => ?_⟩
  · simp only [dce_calloc, Nat.mod_eq_of_lt (by omega : nmemb * size < 2 ^ 64), hmalloc, bind_eq_bind,
      bind_some, hstore, pure]
  · dsimp only
    rw [put_inside (by omega) (by rw [length_replicate]; omega), Nat.add_sub_cancel_left,
      getElem?_replicate, if_pos hi]
  · have hne : q ≠ buffer + 8 := by
      rintro rfl
      rw [hnone] at hq
      cases hq
    exact (hkept₂ q k ((update_of_ne hne ..).trans hq) hne i hi).trans (hkept₁ q k hq i hi)

theorem Good.drop {s' : Store} (releases : Releases size h s cells (ptr - 8) h' s') :
    ∃ cells', (∀ b, b ≠ ptr - 8 → cells' b = cells b) ∧ Good h' s'.memory (update live ptr none) cells' ∧
      ∀ q k, live q = some k → q ≠ ptr → ∀ i, i < k → s'.memory (q + i) = s.memory (q + i) := by
  obtain ⟨hptr8, -⟩ := good.block ptr n hptr
  obtain ⟨use, -, laid'⟩ := releases.laid
  have hother : ∀ q k, live q = some k → q ≠ ptr → ∀ size', cells (q - 8) = some (.live size') →
      update cells (ptr - 8) use (q - 8) = some (.live size') ∧
      s.memory.Agree s'.memory (q - 8) (cellSize size') := by
    intro q k hq hne size' hcell'
    obtain ⟨hq8, -⟩ := good.block q k hq
    have hne' : q - 8 ≠ ptr - 8 := by omega
    exact ⟨(update_of_ne hne' ..).trans hcell', releases.kept _ _ hne' hcell'⟩
  refine ⟨update cells (ptr - 8) use, fun b hb => update_of_ne hb .., ⟨laid', fun q k hq => ?_⟩,
    fun q k hq hne i hi => ?_⟩
  · by_cases hself : q = ptr
    · rw [hself, update_self] at hq
      cases hq
    · rw [update_of_ne hself] at hq
      exact good.block_keeps hq (hother q k hq hself)
  · exact good.bytes_keep hq (fun size' hcell' => (hother q k hq hne size' hcell').2) hi

theorem Good.free : ∃ h' s' cells', dce_free ptr h s = some (h', s') ∧
    Good h' s'.memory (update live ptr none) cells' ∧
      ∀ q k, live q = some k → q ≠ ptr → ∀ i, i < k → s'.memory (q + i) = s.memory (q + i) := by
  obtain ⟨hptr8, -⟩ := good.block ptr n hptr
  obtain ⟨size, hcell, -, -, hword, -⟩ := good.usable hptr
  obtain ⟨-, hsize⟩ := good.laid.live_bounds _ size hcell
  obtain ⟨h', s', hfree, releases⟩ := Free_spec good.laid hcell
  obtain ⟨cells', -, good', hkept⟩ := good.drop hptr releases
  refine ⟨h', s', cells', ?_, good', hkept⟩
  rw [dce_free, if_neg (by omega), hword, bind_eq_bind, bind_some, Nat.mod_eq_of_lt hsize, hfree]

omit good hptr in
theorem Good.resize (good : Good h m live cells) {old : Nat} (hptr : live ptr = some n)
    (hword : m.loadWord (ptr - 8) = some old) (hsize : size + 8 ≤ old) :
    Good h m (update (update live ptr none) ptr (some size)) cells := by
  obtain ⟨hptr8, old', hcell, -, hword'⟩ := good.block ptr n hptr
  obtain rfl := some.inj (hword'.symm.trans hword)
  rw [update_idem]
  refine ⟨good.laid, fun q k hq => ?_⟩
  by_cases hself : q = ptr
  · rw [hself, update_self] at hq
    obtain rfl := some.inj hq
    rw [hself]
    exact ⟨hptr8, old', hcell, hsize, hword⟩
  · rw [update_of_ne hself] at hq
    exact good.block q k hq

theorem Good.move {old : Nat}
    (hword : s.memory.loadWord (ptr - 8) = some old) (hgrows : old < size + 8) (hsize : size + 8 < 2 ^ 32)
    (hanswer : Answers s.memory answer (maps (size + 8) h)) :
    ∃ ptr' h' s' cells', dce_realloc ptr size answer h s = some (ptr', h', s') ∧ ptr' ≠ 0 ∧ live ptr' = none ∧
      Good h' s'.memory (update (update live ptr none) ptr' (some size)) cells' ∧
      (∀ i, i < n → s'.memory (ptr' + i) = s.memory (ptr + i)) ∧
      ∀ q k, live q = some k → q ≠ ptr → ∀ i, i < k → s'.memory (q + i) = s.memory (q + i) := by
  obtain ⟨hptr8, -⟩ := good.block ptr n hptr
  obtain ⟨old', hcell, hn, -, hword', -⟩ := good.usable hptr
  cases hword'.symm.trans hword
  obtain ⟨hpos, hold⟩ := good.laid.live_bounds _ _ hcell
  obtain ⟨b, h₁, s₁, bytes, h', s', hrealloc, allocates, hload, hne, -, releases⟩ :=
    Realloc_spec good.laid hcell hgrows.le hsize hanswer
  have hlength := load_length hload
  have hle := le_cellSize (by omega : 0 < size + 8) (by omega)
  have hself : update cells b (some (.live (size + 8))) b = some (.live (size + 8)) := update_self ..
  obtain ⟨-, laid₁, hput, -⟩ := allocates.laid.write hself bytes le_rfl (by omega)
  have hkept : ∀ c size', cells c = some (.live size') →
      s.memory.Agree (s₁.memory.put b bytes) c (cellSize size') := by
    intro c size' hc x lower upper
    have hcb : c ≠ b := by
      rintro rfl
      exact allocates.unused _ hc
    exact (allocates.kept _ _ hc x lower upper).trans (hput c _ hcb ((update_of_ne hcb ..).trans hc) x lower upper)
  obtain ⟨hnone, good₁, hkept₁⟩ := good.allocated laid₁ allocates.unused hkept
  obtain ⟨cells', hcells', good₂, hkept₂⟩ :=
    Good.drop (s := { s₁ with memory := s₁.memory.put b bytes }) good₁ hptr releases
  have hcellb : cells' b = some (.live (size + 8)) := (hcells' b hne.symm).trans (update_self ..)
  have hptrb : b + 8 ≠ ptr := by omega
  obtain ⟨hstore, good₃, hkept₃⟩ := good₂.header hcellb le_rfl ((update_of_ne hptrb ..).trans hnone)
  obtain ⟨h64, h32⟩ := request_eq hsize
  refine ⟨b + 8, h', { s' with memory := s'.memory.putWord b (size + 8) }, cells', ?_, by omega, hnone, good₃,
    fun i hi => ?_, fun q k hq hne' i hi => ?_⟩
  · simp only [dce_realloc, show ¬ ptr = 0 by omega, false_and, if_false, h64, h32, hword, bind_eq_bind,
      bind_some, not_le.mpr hgrows, Nat.mod_eq_of_lt hold, hrealloc, hstore, pure]
  · -- the bytes go with the word before them into the new cell, where giving back the old one leaves them
    dsimp only
    have hagree := releases.kept b _ hne.symm hself
    have h₁ : s'.memory.putWord b (size + 8) (b + 8 + i) = s'.memory (b + 8 + i) :=
      put_outside (by rw [encode_length]; omega)
    have h₂ : s₁.memory.put b bytes (b + 8 + i) = s'.memory (b + 8 + i) :=
      hagree _ (by omega) (by rw [Use.len]; omega)
    have h₃ : s.memory (ptr - 8 + (8 + i)) = bytes[8 + i]? := load_get hload (by omega)
    rw [h₁, ← h₂, put_inside (by omega) (by omega), show b + 8 + i - b = 8 + i by omega, ← h₃,
      show ptr - 8 + (8 + i) = ptr + i by omega]
  · have h₁ := hkept₃ q k ((update_of_ne hne' ..).trans hq) i hi
    have h₂ := hkept₂ q k hq hne' i hi
    exact h₁.trans (h₂.trans (hkept₁ q k hq i hi))

end

theorem Good.null (good : Good h m live cells) : live 0 = none := by
  cases hnull : live 0 with
  | none => rfl
  | some n =>
    obtain ⟨hptr8, -⟩ := good.block 0 n hnull
    omega

end

section

variable {st : State} {cells : Nat → Option Use} {answer : Nat}

/-- What one call keeps and gives. -/
def Answered (answer : Nat) (st : State) (call : Call) : Prop :=
  ∃ ptr st' cells', perform answer st call = some (ptr, st') ∧ Good st'.heap st'.memory st'.live cells' ∧
  Served st call ptr st'

variable {size : Nat} (good : Good st.heap st.memory st.live cells)
include good

theorem answered_malloc (fits : Fits (.malloc size))
    (hanswer : Answers st.memory answer (asks st (.malloc size))) : Answered answer st (.malloc size) := by
  obtain ⟨buffer, h', s', cells', hmalloc, hnone, good', hkept⟩ :=
    Good.malloc (s := st.store) good (fits size rfl) hanswer
  refine ⟨buffer + 8, ⟨h', s', update st.live (buffer + 8) (some size)⟩, cells', ?_, good', ?_⟩
  · rw [perform, hmalloc]
    rfl
  · exact {
      fresh := fun _ _ _ => hnone
      zero := fun _ _ heq => nomatch heq
      moved := fun _ _ _ heq => nomatch heq
      written := fun _ _ heq => nomatch heq
      kept := fun q n hq _ i hi _ => hkept q n hq i hi }

theorem answered_calloc {nmemb : Nat}
    (fits : Fits (.calloc nmemb size)) (hanswer : Answers st.memory answer (asks st (.calloc nmemb size))) :
    Answered answer st (.calloc nmemb size) := by
  obtain ⟨ptr, h', s', cells', hcalloc, hnone, good', hzero, hkept⟩ :=
    Good.calloc (s := st.store) good (fits _ rfl) hanswer
  refine ⟨ptr, ⟨h', s', update st.live ptr (some (nmemb * size))⟩, cells', ?_, good', ?_⟩
  · rw [perform, hcalloc]
    rfl
  · exact {
      fresh := fun _ _ _ => hnone
      zero := by
        rintro _ _ heq
        obtain ⟨rfl, rfl⟩ := Call.calloc.inj heq
        exact hzero
      moved := fun _ _ _ heq => nomatch heq
      written := fun _ _ heq => nomatch heq
      kept := fun q n hq _ i hi _ => hkept q n hq i hi }

theorem answered_free {ptr : Nat} (hptr : ptr = 0 ∨ ∃ n, st.live ptr = some n) : Answered answer st (.free ptr) := by
  have served : ∀ st', (∀ q k, st.live q = some k → q ≠ ptr → ∀ i, i < k → st'.memory (q + i) = st.memory (q + i)) →
      Served st (.free ptr) 0 st' := fun st' hkept => {
    fresh := fun _ heq => absurd heq (by simp [Call.requested])
    zero := fun _ _ heq => nomatch heq
    moved := fun _ _ _ heq => nomatch heq
    written := fun _ _ heq => nomatch heq
    kept := fun q n hq hne i hi _ => hkept q n hq (fun heq => hne (congrArg some heq.symm)) i hi }
  rcases hptr with rfl | ⟨n, hptr⟩
  · refine ⟨0, ⟨st.heap, st.store, update st.live 0 none⟩, cells, rfl, ?_, served _ fun _ _ _ _ _ _ => rfl⟩
    rw [update_eq_self_iff.mpr good.null.symm]
    exact good
  · obtain ⟨h', s', cells', hfree, good', hkept⟩ := Good.free (s := st.store) good hptr
    refine ⟨0, ⟨h', s', update st.live ptr none⟩, cells', ?_, good', served _ hkept⟩
    rw [perform, hfree]
    rfl

theorem answered_write {x : Nat} {byte : UInt8}
    (hwritten : ∃ ptr n usable, st.live ptr = some n ∧ dce_malloc_usable_size ptr st.store = some usable ∧
      ptr ≤ x ∧ x < ptr + usable) : Answered answer st (.write x byte) := by
  obtain ⟨ptr, n, usable, hptr, husable, lower, upper⟩ := hwritten
  obtain ⟨hstore, good', -⟩ := Good.write (s := st.store) good hptr husable [byte] lower upper
  refine ⟨0, { st with store := { st.store with memory := st.memory.put x [byte] } }, cells, ?_, good', ?_⟩
  · have hstore' : st.memory.store x [byte] = some (st.memory.put x [byte]) := hstore
    rw [perform, hstore']
    rfl
  · exact {
      fresh := fun _ heq => absurd heq (by simp [Call.requested])
      zero := fun _ _ heq => nomatch heq
      moved := fun _ _ _ heq => nomatch heq
      written := by
        rintro _ _ heq
        obtain ⟨rfl, rfl⟩ := Call.write.inj heq
        exact (put_inside le_rfl (Nat.lt_succ_self x)).trans (by simp)
      kept := by
        intro q n _ _ i _ hne
        have hx : q + i ≠ x := by
          rintro rfl
          exact hne byte rfl
        exact put_outside (by rw [length_singleton]; omega) }

theorem answered_realloc {ptr : Nat} (hptr : ptr = 0 ∨ ∃ n, st.live ptr = some n) (fits : Fits (.realloc ptr size))
    (hanswer : Answers st.memory answer (asks st (.realloc ptr size))) : Answered answer st (.realloc ptr size) := by
  have hsize : size + 8 < 2 ^ 32 := fits size rfl
  obtain ⟨h64, h32⟩ := request_eq hsize
  have served : ∀ ptr' st', (ptr' ≠ ptr → st.live ptr' = none) →
      (∀ n, st.live ptr = some n → ∀ i, i < n → i < size → st'.memory (ptr' + i) = st.memory (ptr + i)) →
      (∀ q k, st.live q = some k → q ≠ ptr → ∀ i, i < k → st'.memory (q + i) = st.memory (q + i)) →
      Served st (.realloc ptr size) ptr' st' := fun ptr' st' hfresh hmoved hkept => {
    fresh := fun _ _ hne => hfresh fun heq => hne (congrArg some heq.symm)
    zero := fun _ _ heq => nomatch heq
    moved := by
      rintro old size' n heq hold
      obtain ⟨rfl, rfl⟩ := Call.realloc.inj heq
      exact hmoved n hold
    written := fun _ _ heq => nomatch heq
    kept := fun q n hq hne i hi _ => hkept q n hq (fun heq => hne (congrArg some heq.symm)) i hi }
  rcases hptr with rfl | ⟨n, hptr⟩
  · by_cases hzero : size = 0
    · subst hzero
      refine ⟨0, st, cells, rfl, good, served _ _ (fun hne => absurd rfl hne) (fun _ _ _ _ _ => rfl) ?_⟩
      exact fun _ _ _ _ _ _ => rfl
    · rw [asks, if_neg hzero] at hanswer
      obtain ⟨buffer, h', s', cells', hmalloc, hnone, good', hkept⟩ := Good.malloc (s := st.store) good hsize hanswer
      refine ⟨buffer + 8, ⟨h', s', update (update st.live 0 none) (buffer + 8) (some size)⟩, cells',
        ?_, ?_, served _ _ (fun _ => hnone) (fun n hn => ?_) fun q k hq _ => hkept q k hq⟩
      · simp only [perform, dce_realloc, hzero, and_false, if_false, if_true, hmalloc, bind_eq_bind,
          bind_some, Nat.add_eq_zero_iff, OfNat.ofNat_ne_zero, pure]
      · have hdrop : update st.live 0 none = st.live := update_eq_self_iff.mpr good.null.symm
        rw [hdrop]
        exact good'
      · rw [good.null] at hn
        cases hn
  · obtain ⟨hptr8, -⟩ := good.block ptr n hptr
    obtain ⟨old, hcell, hn, -, hword, -⟩ := Good.usable (s := st.store) good hptr
    have hword' : st.memory.loadWord (ptr - 8) = some old := hword
    have hne : ¬ ptr = 0 := by omega
    rcases Nat.lt_or_ge old (size + 8) with hgrows | hstays
    · rw [asks, if_neg hne, hword', getD_some, h64, h32, if_neg (not_le.mpr hgrows)] at hanswer
      obtain ⟨ptr', h', s', cells', hrealloc, hne', hnone, good', hmoved, hkept⟩ :=
        Good.move (s := st.store) good hptr hword hgrows hsize hanswer
      refine ⟨ptr', ⟨h', s', update (update st.live ptr none) ptr' (some size)⟩, cells', ?_, good',
        served _ _ (fun _ => hnone) (fun k hk i hi _ => ?_) hkept⟩
      · simp [perform, hrealloc, hne']
      · cases hptr.symm.trans hk
        exact hmoved i hi
    · refine ⟨ptr, ⟨st.heap, st.store, update (update st.live ptr none) ptr (some size)⟩, cells, ?_,
        good.resize hptr hword' hstays, served _ _ (fun hne => absurd rfl hne) (fun _ _ _ _ _ => rfl)
        fun _ _ _ _ _ _ => rfl⟩
      simp only [perform, dce_realloc, hne, false_and, if_false, hword, h64, hstays, bind_eq_bind, bind_some,
        if_true, pure]

theorem Good.answered {call : Call} (proper : Proper st (call, answer))
    (fits : Fits call) : Answered answer st call := by
  cases call with
  | malloc size => exact answered_malloc good fits proper.answer
  | calloc nmemb size => exact answered_calloc good fits proper.answer
  | realloc ptr size => exact answered_realloc good (proper.returned ptr rfl) fits proper.answer
  | free ptr => exact answered_free good (proper.returned ptr rfl)
  | write x byte => exact answered_write good (proper.written x byte rfl)

end

theorem reach_good {st : State} (reach : machine.ReachBy (fun st call => Proper st call ∧ Fits call.1) st) :
    ∃ cells, Good st.heap st.memory st.live cells := by
  refine reach.invariant (I := fun st => ∃ cells, Good st.heap st.memory st.live cells) ?_ ?_
  · rintro st rfl
    exact ⟨_, Laid.new _, fun ptr n hptr => nomatch hptr⟩
  · rintro st ⟨call, answer⟩ st' ⟨cells, good⟩ ⟨proper, fits⟩ step
    obtain ⟨ptr, st₁, cells', hperform, good', -⟩ := good.answered proper fits
    have hst : st₁ = st' := by
      have step' : (perform answer st call).map Prod.snd = some st' := step
      rw [hperform] at step'
      exact some.inj step'
    exact ⟨cells', hst ▸ good'⟩

theorem proper_first {size : Nat} (hmaps : maps ((size + 8) % 2 ^ 64 % 2 ^ 32) .new = some m_defaultMmapSize) :
    Proper ⟨.new, .new, fun _ => none⟩ (.malloc size, 65536) where
  returned _ heq := absurd heq (by simp [Call.returned])
  written _ _ heq := nomatch heq
  answer := by
    intro asked hasked
    obtain rfl : asked = m_defaultMmapSize := some.inj (hasked.symm.trans hmaps)
    exact ⟨show 0 < 65536 by decide, show 65536 + m_defaultMmapSize < 2 ^ 64 by decide, fun _ _ _ => rfl⟩

/-- In a run whose requests all fit 32 bits the blocks are safe, and each call gives what it should. -/
theorem heap_safe {st : State} (reach : machine.ReachBy (fun st call => Proper st call ∧ Fits call.1) st) :
    Safe st ∧ ∀ call answer, Proper st (call, answer) → Fits call →
      ∃ ptr st', perform answer st call = some (ptr, st') ∧ Served st call ptr st' := by
  obtain ⟨cells, good⟩ := reach_good reach
  refine ⟨good.safe, fun call answer proper fits => ?_⟩
  obtain ⟨ptr, st', -, hperform, -, served⟩ := good.answered proper fits
  exact ⟨ptr, st', hperform, served⟩

theorem fits_malloc {size : Nat} (small : size + 8 < 2 ^ 32) : Fits (.malloc size) := by
  rintro n ⟨⟩
  exact small

/-- A second block in the same piece, and all that holds of both. -/
theorem heap_safe_second : ∃ st : State, st.live 65544 = some 100 ∧ st.live 65672 = some 24 ∧ Safe st ∧
    ∀ call answer, Proper st (call, answer) → Fits call →
      ∃ ptr st', perform answer st call = some (ptr, st') ∧ Served st call ptr st' := by
  obtain ⟨st, hfirst, hmaps, st', hsecond, hlive, hlive'⟩ :
      ∃ st, machine.step ⟨.new, .new, fun _ => none⟩ (.malloc 100, 65536) = some st ∧
      maps ((24 + 8) % 2 ^ 64 % 2 ^ 32) st.heap = none ∧
        ∃ st', machine.step st (.malloc 24, 0) = some st' ∧ st'.live 65544 = some 100 ∧ st'.live 65672 = some 24 :=
    ⟨_, rfl, rfl, _, rfl, rfl, rfl⟩
  have proper : Proper st (.malloc 24, 0) := {
    returned := fun _ heq => absurd heq (by simp [Call.returned])
    written := fun _ _ heq => nomatch heq
    answer := fun asked hasked => nomatch (hmaps.symm.trans hasked) }
  have first : machine.ReachBy (fun st call => Proper st call ∧ Fits call.1) st :=
    .next (.start rfl) ⟨proper_first (by decide), fits_malloc (by decide)⟩ hfirst
  exact ⟨st', hlive, hlive', heap_safe (first.next ⟨proper, fits_malloc (by decide)⟩ hsecond)⟩

/-- Of a request of 4 GiB only the word before the block is left. -/
theorem malloc_truncates : ¬ ∀ st, machine.ReachBy Proper st → Safe st := by
  intro h
  obtain ⟨st, hstep, hlive, hpieces⟩ : ∃ st, machine.step ⟨.new, .new, fun _ => none⟩ (.malloc (2 ^ 32), 65536) =
      some st ∧ st.live 65544 = some (2 ^ 32) ∧ st.heap.mmaps = [⟨0, m_defaultMmapSize, 65536⟩] :=
    ⟨_, rfl, rfl, rfl⟩
  obtain ⟨-, c, hc, -, upper⟩ := (h st (.next (.start rfl) (proper_first (by decide)) hstep)).owned _ _ hlive
  rw [hpieces, mem_singleton] at hc
  subst hc
  exact absurd upper (by decide)

end Dce.Heap
