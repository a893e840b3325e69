import Dce.Heap.Forking
import Dce.Heap.Releasing
import Dce.Lib.Machine
import Mathlib.Data.List.Nodup

/- The heaps of processes that fork, end and take turns, as `DceManager` runs them. -/

namespace Dce.Heap

open KingsleyAlloc Function List Option

/-- A process: its heap, the sizes of its blocks, and the bytes that it or, before the fork, its
ancestor wrote last to each address of them. -/
structure Owner where
  heap : KingsleyAlloc
  live : Nat → Option Nat
  wrote : Nat → Option UInt8

structure System where
  store : Store
  owners : Nat → Option Owner
  current : Option Nat

/-- What may happen; all but `start`, `switchTo` and `delete` are done by the current process. `dispose`
is its exit, `delete` the end of a process from outside. -/
inductive Label
  | start (p : Nat)
  | switchTo (p : Nat)
  | clone (q : Nat)
  | malloc (size answer : Nat)
  | free (a : Nat)
  | realloc (a newSize answer : Nat)
  | write (x : Nat) (byte : UInt8)
  | dispose
  | delete (p : Nat)
  deriving DecidableEq, Repr

def forget (wrote : Nat → Option UInt8) (a size : Nat) : Nat → Option UInt8 :=
  fun x => if a ≤ x ∧ x < a + size then none else wrote x

/-- What was written to the block at `a` was written to the block at `b`. -/
def moved (wrote : Nat → Option UInt8) (a size b : Nat) : Nat → Option UInt8 :=
  fun x => if b ≤ x ∧ x < b + size then wrote (a + (x - b)) else forget wrote a size x

def System.running (st : System) : Option (Nat × Owner) := do
  let p ← st.current
  let o ← st.owners p
  pure (p, o)

def System.set (st : System) (p : Nat) (o : Option Owner) (s : Store) : System :=
  { st with store := s, owners := update st.owners p o }

def System.step (junk : Nat → UInt8) (st : System) : Label → Option System
  | .start p => some (st.set p (some ⟨.new, fun _ => none, fun _ => none⟩) st.store)
  | .switchTo p => do
    let o ← st.owners p
    let s ← SwitchTo o.heap st.store
    pure { st with store := s, current := some p }
  | .clone q => do
    let (p, o) ← st.running
    let (mine, clone, s) ← Clone junk o.heap st.store
    pure ((st.set p (some { o with heap := mine }) s).set q (some { o with heap := clone }) s)
  | .malloc size answer => do
    let (p, o) ← st.running
    let (a, h, s) ← Malloc size answer o.heap st.store
    pure (st.set p (some { o with heap := h, live := update o.live a (some size) }) s)
  | .free a => do
    let (p, o) ← st.running
    let size ← o.live a
    let (h, s) ← Free a size o.heap st.store
    pure (st.set p (some ⟨h, update o.live a none, forget o.wrote a size⟩) s)
  | .realloc a newSize answer => do
    let (p, o) ← st.running
    let size ← o.live a
    let (b, h, s) ← Realloc a size newSize answer o.heap st.store
    if newSize < size then pure (st.set p (some { o with heap := h }) s)
    else
      pure (st.set p (some ⟨h, update (update o.live a none) b (some newSize), moved o.wrote a size b⟩) s)
  | .write x byte => do
    let (p, o) ← st.running
    let memory ← st.store.memory.store x [byte]
    pure (st.set p (some { o with wrote := update o.wrote x (some byte) }) { st.store with memory := memory })
  | .dispose => do
    let (p, o) ← st.running
    let s ← Dispose o.heap st.store
    let s ← release o.heap s
    pure { st.set p none s with current := none }
  | .delete p => do
    let o ← st.owners p
    let s ← release o.heap st.store
    pure { st.set p none s with current := if st.current = some p then none else st.current }

def System.machine (junk : Nat → UInt8) : Machine System Label where
  init st := st = ⟨.new, fun _ => none, none⟩
  step := System.step junk

/-- What the callers keep to, and how the kernel answers. -/
def Allowed (st : System) : Label → Prop
  | .start p => st.owners p = none
  | .switchTo p => ∃ o, st.owners p = some o
  | .clone q => st.owners q = none ∧ ∃ p o, st.running = some (p, o)
  | .malloc size answer => ∃ p o, st.running = some (p, o) ∧ 0 < size ∧ size < 2 ^ 32 ∧
      Answers st.store.memory answer (maps size o.heap)
  | .free a => ∃ p o size, st.running = some (p, o) ∧ o.live a = some size
  | .realloc a newSize answer => ∃ p o size, st.running = some (p, o) ∧ o.live a = some size ∧ newSize < 2 ^ 32 ∧
      (size ≤ newSize → Answers st.store.memory answer (maps newSize o.heap))
  | .write x _ => ∃ p o a size, st.running = some (p, o) ∧ o.live a = some size ∧ a ≤ x ∧ x < a + size
  | .dispose => ∃ p o, st.running = some (p, o)
  | .delete p => ∃ o, st.owners p = some o

/-- The block at `a` has no mapping of its own that another heap shares. -/
def Unshared (st : System) (o : Owner) (a : Nat) : Prop :=
  ∀ size, o.live a = some size → m_defaultMmapSize ≤ size → ∀ c ∈ o.heap.mmaps, c.buffer = a → c.size = size →
    ∀ shared, st.store.mmaps c.id = some shared → shared.refcount = 1

/-- What is given back is not shared. -/
def Exclusive (st : System) : Label → Prop
  | .free a => ∀ p o, st.running = some (p, o) → Unshared st o a
  | .realloc a newSize _ => ∀ p o, st.running = some (p, o) →
      (∀ size, o.live a = some size → size ≤ newSize) → Unshared st o a
  | _ => True

/-- The byte that `q` has at `x` of its heap, whether it is in place or not. -/
def System.bytes (st : System) (q : Nat) : Memory := fun x => do
  let o ← st.owners q
  let c ← o.heap.m_chunks.find? fun c => c.mmap.buffer ≤ x ∧ x < c.mmap.buffer + c.mmap.size
  st.store.holds (c.mmap, c.copy) x

/-- The process whose bytes a label may change. -/
def Label.actor (st : System) : Label → Option Nat
  | .start p => some p
  | .switchTo _ => none
  | .clone q => some q
  | .delete p => some p
  | _ => st.current

/-- What should hold of one state. -/
structure Isolated (st : System) : Prop where
  /-- The current process reads what it wrote last. -/
  reads : ∀ p o, st.running = some (p, o) → ∀ x byte, o.wrote x = some byte → st.store.memory x = some byte
  /-- So would each other process when it is switched to. -/
  keeps : ∀ q o, st.owners q = some o → ∀ x byte, o.wrote x = some byte → st.bytes q x = some byte
  /-- All the memory that a process can reach is there. -/
  reach : ∀ q o, st.owners q = some o → ∀ c ∈ o.heap.mmaps, (st.bytes q).Mapped c.buffer c.size

variable {cells : Nat → Option Use} {h : KingsleyAlloc} {m m' : Memory} {n : Nat}

theorem Laid.transfer (laid : Laid h m cells) (agree : ∀ c ∈ h.mmaps, m.Agree m' c.buffer c.size) :
    Laid h m' cells := by
  refine laid.congr (fun c hc => (agree c hc).mapped (laid.mapped c hc)) fun a bucket ha => ?_
  obtain ⟨c, hc, lower, upper⟩ := laid.in_piece ha
  have hlen := (Use.free bucket).eight_le_len
  exact (agree c hc).sub lower (by omega)

theorem Laid.forked {h' : KingsleyAlloc} (laid : Laid h m cells)
    (hchunks : h'.m_chunks.map (fun c => (c.mmap, c.brk)) = h.m_chunks.map fun c => (c.mmap, c.brk))
    (hbuckets : ∀ bucket, h'.m_buckets bucket = h.m_buckets bucket ∨ h'.m_buckets bucket = 0) : Laid h' m cells := by
  have hmmaps : h'.mmaps = h.mmaps := by
    have heq := congrArg (map Prod.fst) hchunks
    rw [List.map_map, List.map_map] at heq
    exact heq
  exact {
    bounds := hmmaps ▸ laid.bounds
    apart := hmmaps ▸ laid.apart
    mapped := hmmaps ▸ laid.mapped
    inside := by
      intro a use ha
      obtain ⟨c, hc, hbounds⟩ := laid.inside a use ha
      have hin : (c.mmap, c.brk) ∈ h'.m_chunks.map fun c => (c.mmap, c.brk) :=
        hchunks ▸ mem_map.mpr ⟨c, hc, rfl⟩
      obtain ⟨d, hd, heq⟩ := mem_map.mp hin
      rw [Prod.mk.injEq] at heq
      exact ⟨d, hd, by rwa [heq.1, heq.2]⟩
    cells_apart := laid.cells_apart
    live_bounds := laid.live_bounds
    large := hmmaps ▸ laid.large
    free_bounds := laid.free_bounds
    linked := by
      intro bucket
      rcases hbuckets bucket with hsame | hzero
      · exact hsame ▸ laid.linked bucket
      · exact ⟨[], hzero, .nil, fun _ ha => nomatch ha⟩ }

/-- The bytes `m` are those of a process. -/
def Owned (o : Owner) (m : Memory) : Prop :=
  ∃ cells, Laid o.heap m cells ∧ (∀ a size, o.live a = some size → cells a = some (.live size)) ∧
    ∀ x byte, o.wrote x = some byte → m x = some byte ∧ ∃ a size, o.live a = some size ∧ a ≤ x ∧ x < a + size

theorem Laid.live_has (laid : Laid h m cells)
    {a size x : Nat} (hcell : cells a = some (.live size)) (lower : a ≤ x) (upper : x < a + size) :
    x < a + cellSize size ∧ ∃ c ∈ h.mmaps, c.Has x := by
  obtain ⟨hpos, hsize⟩ := laid.live_bounds a size hcell
  have hle := le_cellSize hpos (by omega)
  obtain ⟨c, hc, hlower, hupper⟩ := laid.in_piece hcell
  rw [show (Use.live size).len = cellSize size from rfl] at hupper
  exact ⟨by omega, c, hc, by rw [Mmap.Has]; omega⟩

theorem Owned.transfer {o : Owner} (owned : Owned o m) (agree : ∀ c ∈ o.heap.mmaps, m.Agree m' c.buffer c.size) :
    Owned o m' := by
  obtain ⟨cells, laid, hlive, hwrote⟩ := owned
  refine ⟨cells, laid.transfer agree, hlive, fun x byte hx => ?_⟩
  obtain ⟨hbyte, a, size, ha, lower, upper⟩ := hwrote x byte hx
  obtain ⟨-, c, hc, hhas⟩ := laid.live_has (hlive a size ha) lower upper
  exact ⟨(agree c hc x hhas.1 hhas.2).symm.trans hbyte, a, size, ha, lower, upper⟩

section

variable {st : System} {p q : Nat} {o : Owner}

/-- The pieces that each process has. -/
def System.own (st : System) (p : Nat) : Set Piece := {piece | ∃ o, st.owners p = some o ∧ piece ∈ o.heap.pieces}

structure Inv (st : System) : Prop where
  sharing : Sharing st.own st.store
  loaded : ∀ p, st.current = some p → ∀ piece ∈ st.own p, st.store.Loaded piece
  owned : ∀ q o, st.owners q = some o → Owned o (st.bytes q)

theorem running_eq (hrun : st.running = some (p, o)) : st.current = some p ∧ st.owners p = some o := by
  obtain ⟨p', hcurrent, hrest⟩ := bind_eq_some_iff.mp hrun
  obtain ⟨o', hown, heq⟩ := bind_eq_some_iff.mp hrest
  obtain ⟨rfl, rfl⟩ := Prod.mk.inj (some.inj heq)
  exact ⟨hcurrent, hown⟩

variable {piece : Piece} {s' : Store} {c : MmapChunk} {o' : Owner} {m' : Memory}

theorem mem_own (hown : st.owners p = some o) : piece ∈ st.own p ↔ piece ∈ o.heap.pieces := by
  constructor
  · rintro ⟨o', hown', hpiece⟩
    cases hown'.symm.trans hown
    exact hpiece
  · exact fun hpiece => ⟨o, hown, hpiece⟩

theorem mem_own_set {o' : Option Owner} {r : Nat} : piece ∈ (st.set p o' s').own r ↔
      (r = p ∧ ∃ o, o' = some o ∧ piece ∈ o.heap.pieces) ∨ (r ≠ p ∧ piece ∈ st.own r) := by
  by_cases hr : r = p
  · subst hr
    simp [System.own, System.set]
  · simp [System.own, System.set, hr]

theorem Sharing.bytes_eq (sharing : Sharing st.own st.store) (hown : st.owners q = some o)
    (hc : c ∈ o.heap.m_chunks) {x : Nat} (hx : c.mmap.Has x) : st.bytes q x = st.store.holds (c.mmap, c.copy) x := by
  have hpiece : ∀ d ∈ o.heap.m_chunks, (d.mmap, d.copy) ∈ st.own q := fun d hd =>
    (mem_own hown).mpr (mem_map.mpr ⟨d, hd, rfl⟩)
  cases hfind : o.heap.m_chunks.find? fun c => c.mmap.buffer ≤ x ∧ x < c.mmap.buffer + c.mmap.size with
  | none =>
    have hnone := find?_eq_none.mp hfind c hc
    exact absurd hx (by simpa [Mmap.Has] using hnone)
  | some d =>
    have hd := mem_of_find?_eq_some hfind
    have hhas : d.mmap.Has x := by simpa [Mmap.Has] using find?_some hfind
    have hid : d.mmap.id = c.mmap.id := by
      by_contra hne
      exact (sharing.apart q q _ _ (hpiece d hd) (hpiece c hc) hne).not_has hhas hx
    simp only [System.bytes, hown, hfind, bind_eq_bind, bind_some]
    rw [sharing.piece_eq (hpiece d hd) (hpiece c hc) hid]

theorem bytes_loaded (sharing : Sharing st.own st.store) (hown : st.owners q = some o)
    (loaded : ∀ piece ∈ o.heap.pieces, st.store.Loaded piece) :
    ∀ c ∈ o.heap.mmaps, (st.bytes q).Agree st.store.memory c.buffer c.size := by
  intro c hc x lower upper
  obtain ⟨chunk, hchunk, rfl⟩ := mem_map.mp hc
  rw [sharing.bytes_eq hown hchunk ⟨lower, upper⟩]
  exact holds_loaded (loaded _ (mem_map.mpr ⟨chunk, hchunk, rfl⟩)) x

theorem bytes_congr {st' : System} (hown : st'.owners q = st.owners q)
    (hholds : ∀ piece ∈ st.own q, ∀ x, piece.1.Has x → st'.store.holds piece x = st.store.holds piece x) :
    st'.bytes q = st.bytes q := by
  funext x
  rw [System.bytes, System.bytes, hown]
  cases ho : st.owners q with
  | none => rfl
  | some o =>
    simp only [bind_eq_bind, bind_some]
    cases hfind : o.heap.m_chunks.find? fun c => c.mmap.buffer ≤ x ∧ x < c.mmap.buffer + c.mmap.size with
    | none => rfl
    | some c =>
      have hc := mem_of_find?_eq_some hfind
      have hhas : c.mmap.Has x := by simpa [Mmap.Has] using find?_some hfind
      exact hholds _ ((mem_own ho).mpr (mem_map.mpr ⟨c, hc, rfl⟩)) x hhas

theorem Inv.running (inv : Inv st) (hrun : st.running = some (p, o)) :
    Owned o st.store.memory ∧ ∀ piece ∈ o.heap.pieces, st.store.Loaded piece := by
  obtain ⟨hcurrent, hown⟩ := running_eq hrun
  have loaded : ∀ piece ∈ o.heap.pieces, st.store.Loaded piece := fun piece hpiece =>
    inv.loaded p hcurrent piece ((mem_own hown).mpr hpiece)
  exact ⟨(inv.owned p o hown).transfer (bytes_loaded inv.sharing hown loaded), loaded⟩

theorem Inv.act (inv : Inv st) (hrun : st.running = some (p, o))
    (sharing' : Sharing (st.set p (some o') s').own s') (others : KeepsOthers st.own p st.store s')
    (loaded' : ∀ piece ∈ o'.heap.pieces, s'.Loaded piece) (owned' : Owned o' s'.memory) :
    Inv (st.set p (some o') s') ∧ ∀ q, q ≠ p → (st.set p (some o') s').bytes q = st.bytes q := by
  obtain ⟨hcurrent, hown⟩ := running_eq hrun
  have hself : (st.set p (some o') s').owners p = some o' := update_self ..
  have hbytes : ∀ q, q ≠ p → (st.set p (some o') s').bytes q = st.bytes q := fun q hq =>
    bytes_congr (update_of_ne hq ..) fun piece hpiece => (others q hq piece hpiece).1
  refine ⟨⟨sharing', fun r hr piece hpiece => ?_, fun q o₁ ho₁ => ?_⟩, hbytes⟩
  · cases hr.symm.trans hcurrent
    exact loaded' piece ((mem_own hself).mp hpiece)
  · by_cases hq : q = p
    · subst hq
      cases hself.symm.trans ho₁
      exact owned'.transfer fun c hc => (bytes_loaded sharing' hself loaded' c hc).symm
    · rw [hbytes q hq]
      exact inv.owned q o₁ ((update_of_ne hq ..).symm.trans ho₁)

theorem mem_pieces {h : KingsleyAlloc} {c : Mmap} : c ∈ h.mmaps ↔ ∃ k, (c, k) ∈ h.pieces := by
  rw [mmaps_eq, List.mem_map]
  constructor
  · rintro ⟨piece, hpiece, rfl⟩
    exact ⟨piece.2, hpiece⟩
  · rintro ⟨k, hk⟩
    exact ⟨_, hk, rfl⟩

theorem mapped_keeps (sharing : Sharing st.own st.store) {h' : KingsleyAlloc}
    (mapped' : ∀ c ∈ h'.mmaps, m'.Mapped c.buffer c.size)
    (outside : ∀ x, (∀ c ∈ h'.mmaps, ¬ c.Has x) → m' x = st.store.memory x) {r : Nat}
    (hpiece : piece ∈ st.own r) : m'.Mapped piece.1.buffer piece.1.size := by
  intro x lower upper
  by_cases hin : ∃ c ∈ h'.mmaps, c.Has x
  · obtain ⟨c, hc, hx⟩ := hin
    exact mapped' c hc x hx.1 hx.2
  · rw [outside x fun c hc hx => hin ⟨c, hc, hx⟩]
    exact (sharing.mapped r piece hpiece).2 x lower upper

theorem Inv.touches (inv : Inv st) (hrun : st.running = some (p, o))
    (hpieces : o'.heap.pieces = o.heap.pieces) (owned' : Owned o' m')
    (outside : ∀ x, (∀ c ∈ o.heap.mmaps, ¬ c.Has x) → m' x = st.store.memory x) :
    Inv (st.set p (some o') { st.store with memory := m' }) ∧
      ∀ q, q ≠ p → (st.set p (some o') { st.store with memory := m' }).bytes q = st.bytes q := by
  obtain ⟨hcurrent, hown⟩ := running_eq hrun
  obtain ⟨-, loaded⟩ := inv.running hrun
  have hmmaps : o'.heap.mmaps = o.heap.mmaps := by rw [mmaps_eq, mmaps_eq, hpieces]
  have hsame : (st.set p (some o') { st.store with memory := m' }).own = st.own := by
    funext r
    ext piece
    rw [mem_own_set]
    by_cases hr : r = p
    · subst hr
      rw [mem_own hown]
      simp [hpieces]
    · simp [hr]
  have ⟨cells, laid, _⟩ := owned'
  refine inv.act hrun (hsame ▸ inv.sharing.setMemory fun r piece hpiece => ?_) ?_ (fun piece hpiece => ?_) owned'
  · exact mapped_keeps inv.sharing laid.mapped (hmmaps ▸ outside) hpiece
  · refine inv.sharing.keepsOthers (fun piece hpiece => loaded piece ((mem_own hown).mp hpiece)) (fun x hx _ => ?_)
      (fun _ _ _ => rfl) rfl
    refine outside x fun c hc => ?_
    obtain ⟨k, hk⟩ := mem_pieces.mp hc
    exact hx (c, k) ((mem_own hown).mpr hk)
  · exact loaded piece (hpieces ▸ hpiece)

theorem Inv.grows (inv : Inv st) (hrun : st.running = some (p, o)) {answer : Nat}
    (grows : Grows answer o.heap st.store o'.heap s') (owned' : Owned o' s'.memory) :
    Inv (st.set p (some o') s') ∧ ∀ q, q ≠ p → (st.set p (some o') s').bytes q = st.bytes q := by
  obtain ⟨hcurrent, hown⟩ := running_eq hrun
  obtain ⟨-, loaded⟩ := inv.running hrun
  obtain ⟨outside, hcopies, hpieces⟩ := grows
  obtain ⟨m', mmaps', copies', fresh'⟩ := s'
  subst hcopies
  rcases hpieces with ⟨hpieces, rfl, rfl⟩ | ⟨size, hpos, hanswer, hpieces, rfl, rfl⟩
  · have hmmaps : o'.heap.mmaps = o.heap.mmaps := by rw [mmaps_eq, mmaps_eq, hpieces]
    exact inv.touches hrun hpieces owned' (hmmaps ▸ outside)
  obtain ⟨hnull, hend, hfree⟩ := hanswer size rfl
  have ⟨cells, laid, _⟩ := owned'
  have hnew : (⟨st.store.fresh, size, answer⟩ : Mmap) ∈ o'.heap.mmaps := mem_pieces.mpr ⟨none, by rw [hpieces]; simp⟩
  refine inv.act hrun ?_ ?_ (fun piece hpiece => ?_) owned'
  · refine inv.sharing.newPiece (p := p) hpos hfree (laid.mapped _ hnew)
      (fun r piece hpiece => mapped_keeps inv.sharing laid.mapped outside hpiece) fun r piece => ?_
    rw [mem_own_set]
    by_cases hr : r = p
    · subst hr
      rw [mem_own hown]
      simp [hpieces]
    · simp [hr]
  · refine inv.sharing.keepsOthers (fun piece hpiece => loaded piece ((mem_own hown).mp hpiece))
      (fun x hx hsome => ?_)
      (fun q piece hpiece => update_of_ne (ne_of_lt (inv.sharing.fresh_id q piece hpiece)) ..) rfl
    refine outside x fun c hc hhas => ?_
    obtain ⟨k, hk⟩ := mem_pieces.mp hc
    rw [hpieces] at hk
    rcases mem_cons.mp hk with hk | hk
    · obtain rfl : c = ⟨st.store.fresh, size, answer⟩ := congrArg Prod.fst hk
      rw [hfree x hhas.1 hhas.2] at hsome
      cases hsome
    · exact hx (c, k) ((mem_own hown).mpr hk) hhas
  · rw [hpieces] at hpiece
    rcases mem_cons.mp hpiece with rfl | hpiece
    · exact fun key hkey => nomatch hkey
    · have hid := ne_of_lt (inv.sharing.fresh_id p piece ((mem_own hown).mpr hpiece))
      exact loaded_congr (fun key _ => by dsimp only; rw [update_of_ne hid]) (loaded piece hpiece)

theorem Mmap.not_apart {c : Mmap} (hpos : 0 < c.size) : ¬ c.Apart c := by
  rw [Mmap.Apart]
  omega

theorem Sharing.nodup (sharing : Sharing st.own st.store) (hown : st.owners p = some o) {m : Memory}
    {cells : Nat → Option Use} (laid : Laid o.heap m cells) : (o.heap.m_chunks.map fun c => c.mmap.id).Nodup := by
  have hpiece : ∀ d ∈ o.heap.m_chunks, (d.mmap, d.copy) ∈ st.own p := fun d hd =>
    (mem_own hown).mpr (mem_map.mpr ⟨d, hd, rfl⟩)
  refine pairwise_map.mpr ((pairwise_map.mp laid.apart).imp_of_mem fun {c d} hc hd hapart hid => ?_)
  have hsame : c.mmap = d.mmap := sharing.same p p _ _ (hpiece c hc) (hpiece d hd) hid
  rw [hsame] at hapart
  exact Mmap.not_apart (sharing.mapped p _ (hpiece d hd)).1 hapart

theorem Inv.erases (inv : Inv st) (hrun : st.running = some (p, o)) {before after : List MmapChunk}
    (hchunks : o.heap.m_chunks = before ++ c :: after) (hchunks' : o'.heap.m_chunks = before ++ after)
    (hone : ∀ shared, st.store.mmaps c.mmap.id = some shared → shared.refcount = 1)
    (owned' : Owned o' (st.store.memory.unmap c.mmap.buffer c.mmap.size)) :
    Inv (st.set p (some o') (MmapFree c.mmap.buffer c.mmap.size st.store)) ∧
      ∀ q, q ≠ p → (st.set p (some o') (MmapFree c.mmap.buffer c.mmap.size st.store)).bytes q = st.bytes q := by
  obtain ⟨hcurrent, hown⟩ := running_eq hrun
  obtain ⟨⟨cells, laid, -⟩, loaded⟩ := inv.running hrun
  have hc : (c.mmap, c.copy) ∈ st.own p :=
    (mem_own hown).mpr (mem_map.mpr ⟨c, by rw [hchunks]; simp, rfl⟩)
  obtain ⟨shared, -, hshared, -⟩ := inv.sharing.counted p _ hc
  have hsole : ∀ r other, other ∈ st.own r → other.1.id = c.mmap.id → r = p := fun r other ho hid =>
    inv.sharing.alone hc ho hid hshared (hone shared hshared)
  have hids := inv.sharing.nodup hown laid
  rw [hchunks, map_append, map_cons, nodup_middle, nodup_cons, ← map_append] at hids
  have hkeep : ∀ piece, piece ∈ o'.heap.pieces ↔ piece ∈ o.heap.pieces ∧ piece.1.id ≠ c.mmap.id := by
    intro piece
    rw [pieces, pieces, hchunks, hchunks', List.mem_map, List.mem_map]
    constructor
    · rintro ⟨d, hd, rfl⟩
      refine ⟨⟨d, ?_, rfl⟩, fun hid => hids.1 (mem_map.mpr ⟨d, hd, hid⟩)⟩
      rcases mem_append.mp hd with hd | hd
      · exact mem_append_left _ hd
      · exact mem_append_right _ (mem_cons_of_mem c hd)
    · rintro ⟨⟨d, hd, rfl⟩, hid⟩
      refine ⟨d, ?_, rfl⟩
      rcases mem_append.mp hd with hd | hd
      · exact mem_append_left _ hd
      · rcases mem_cons.mp hd with rfl | hd
        · exact absurd rfl hid
        · exact mem_append_right _ hd
  have hown' : ∀ r other, other ∈ (st.set p (some o') (MmapFree c.mmap.buffer c.mmap.size st.store)).own r ↔
      other ∈ st.own r ∧ ¬ (r = p ∧ other.1.id = c.mmap.id) := by
    intro r other
    rw [mem_own_set]
    by_cases hr : r = p
    · subst hr
      rw [mem_own hown]
      simp [hkeep]
    · simp [hr]
  have hout : ∀ r other, other ∈ st.own r → other.1.id ≠ c.mmap.id → ∀ x, other.1.Has x →
      st.store.memory.unmap c.mmap.buffer c.mmap.size x = st.store.memory x := fun r other ho hid x hx =>
    if_neg ((inv.sharing.apart r p other _ ho hc hid).not_has hx)
  refine inv.act hrun ?_ ?_ (fun piece hpiece => ?_) owned'
  · refine inv.sharing.giveUp hsole hown' (fun r other ho x lower upper => ?_) (fun _ _ _ =>
      rfl) (fun _ _ _ _ => rfl) rfl
    obtain ⟨hold, hnot⟩ := (hown' r other).mp ho
    have hid : other.1.id ≠ c.mmap.id := fun hid => hnot ⟨hsole r other hold hid, hid⟩
    have hsome := (inv.sharing.mapped r other hold).2 x lower upper
    rw [← hout r other hold hid x ⟨lower, upper⟩] at hsome
    exact hsome
  · refine inv.sharing.keepsOthers (fun piece hpiece => loaded piece ((mem_own hown).mp hpiece)) (fun x hx _ => ?_)
      (fun _ _ _ => rfl) rfl
    exact if_neg (hx _ hc)
  · exact loaded piece ((hkeep piece).mp hpiece).1

/-- A new block, where the other cells stay. -/
theorem live_update {live : Nat → Option Nat} {cells : Nat → Option Use} {x : Option Nat} {y : Option Use} {a : Nat}
    (hlive : ∀ b size, live b = some size → cells b = some (.live size))
    (hnew : ∀ size, x = some size → y = some (.live size))
    (b size : Nat) (hb : update live a x b = some size) : update cells a y b = some (.live size) := by
  by_cases hba : b = a
  · rw [hba, update_self] at hb
    rw [hba, update_self, hnew size hb]
  · rw [update_of_ne hba] at hb
    rw [update_of_ne hba]
    exact hlive b size hb

theorem running_set (hrun : st.running = some (p, o)) (o' : Owner) (s' : Store) :
    (st.set p (some o') s').running = some (p, o') := by
  obtain ⟨hcurrent, -⟩ := running_eq hrun
  simp [System.running, System.set, hcurrent]

@[simp]
theorem set_set (o' o'' : Option Owner) (s' s'' : Store) : (st.set p o' s').set p o'' s'' = st.set p o'' s'' := by
  rw [System.set, System.set, System.set, update_idem]

/-- The other processes have the bytes they had. -/
def Spares (p : Nat) (st st' : System) : Prop := ∀ q, q ≠ p → st'.bytes q = st.bytes q

theorem Spares.trans {st₁ st₂ : System} (first : Spares p st st₁) (second : Spares p st₁ st₂) : Spares p st st₂ :=
  fun q hq => (second q hq).trans (first q hq)

section

variable {cells : Nat → Option Use} {size answer : Nat}

/-- What was written to a block, once it is copied to another. -/
def copied (wrote : Nat → Option UInt8) (a size b : Nat) : Nat → Option UInt8 :=
  fun x => if b ≤ x ∧ x < b + size then wrote (a + (x - b)) else wrote x

variable {a : Nat} {h' : KingsleyAlloc} {s' : Store} (inv : Inv st) (hrun : st.running = some (p, o))
include inv hrun

theorem Inv.malloc (laid : Laid o.heap st.store.memory cells)
    (hlive : ∀ a size, o.live a = some size → cells a = some (.live size))
    (hwrote : ∀ x byte, o.wrote x = some byte →
      st.store.memory x = some byte ∧ ∃ a size, o.live a = some size ∧ a ≤ x ∧ x < a + size)
    (allocates : Allocates size answer o.heap st.store cells a h' s') :
    Inv (st.set p (some { o with heap := h', live := update o.live a (some size) }) s') ∧
      Spares p st (st.set p (some { o with heap := h', live := update o.live a (some size) }) s') := by
  refine inv.grows hrun allocates.grows ⟨_, allocates.laid, live_update hlive fun _ hb => some.inj hb ▸ rfl,
    fun x byte hx => ?_⟩
  obtain ⟨hbyte, b, size', hb, lower, upper⟩ := hwrote x byte hx
  have hcell := hlive b size' hb
  have hne : b ≠ a := by
    rintro rfl
    exact allocates.unused _ hcell
  obtain ⟨hin, -⟩ := laid.live_has hcell lower upper
  exact ⟨(allocates.kept b size' hcell x lower hin).symm.trans hbyte, b, size',
    (update_of_ne hne ..).trans hb, lower, upper⟩

theorem Inv.write {x : Nat} {bytes : List UInt8}
    {wrote' : Nat → Option UInt8} (hsize : o.live a = some size) (lower : a ≤ x)
    (upper : x + bytes.length ≤ a + size)
    (hwrote' : ∀ y byte, wrote' y = some byte → (x ≤ y ∧ y < x + bytes.length ∧ bytes[y - x]? = some byte) ∨
        (¬ (x ≤ y ∧ y < x + bytes.length) ∧ o.wrote y = some byte)) :
    st.store.memory.store x bytes = some (st.store.memory.put x bytes) ∧
      Inv (st.set p (some { o with wrote := wrote' }) { st.store with memory := st.store.memory.put x bytes }) ∧
      Spares p st (st.set p (some { o with wrote := wrote' }) { st.store with
        memory := st.store.memory.put x bytes }) := by
  obtain ⟨⟨cells, laid, hlive, hwrote⟩, -⟩ := inv.running hrun
  have hcell := hlive a size hsize
  obtain ⟨hpos, hbound⟩ := laid.live_bounds a size hcell
  have hle := le_cellSize hpos (by omega)
  obtain ⟨hmapped, laid', -, houtside⟩ := laid.write hcell bytes lower (by omega)
  refine ⟨Memory.store_of_mapped hmapped, ?_⟩
  have owned' : Owned { o with wrote := wrote' } (st.store.memory.put x bytes) := by
    refine ⟨cells, laid', hlive, fun y byte hy => ?_⟩
    rcases hwrote' y byte hy with ⟨hlower, hupper, hbyte⟩ | ⟨hnot, hy⟩
    · exact ⟨(Memory.put_inside hlower hupper).trans hbyte, a, size, hsize, by omega, by omega⟩
    · obtain ⟨hbyte, hblock⟩ := hwrote y byte hy
      exact ⟨(Memory.put_outside (by omega)).trans hbyte, hblock⟩
  exact inv.touches hrun rfl owned' houtside

theorem Inv.free (hsize : o.live a = some size) (unshared : Unshared st o a)
    (laid : Laid o.heap st.store.memory cells)
    (hlive : ∀ a size, o.live a = some size → cells a = some (.live size))
    (hwrote : ∀ x byte, o.wrote x = some byte →
      st.store.memory x = some byte ∧ ∃ a size, o.live a = some size ∧ a ≤ x ∧ x < a + size)
    (releases : Releases size o.heap st.store cells a h' s') :
    Inv (st.set p (some ⟨h', update o.live a none, forget o.wrote a size⟩) s') ∧
      Spares p st (st.set p (some ⟨h', update o.live a none, forget o.wrote a size⟩) s') := by
  obtain ⟨use, -, laid'⟩ := releases.laid
  have owned' : Owned ⟨h', update o.live a none, forget o.wrote a size⟩ s'.memory := by
    refine ⟨_, laid', live_update hlive nofun, fun x byte hx => ?_⟩
    dsimp only [forget] at hx
    split at hx
    · cases hx
    next hout =>
      obtain ⟨hbyte, b, size', hb, lower, upper⟩ := hwrote x byte hx
      have hne : b ≠ a := by
        rintro rfl
        cases hb.symm.trans hsize
        exact hout ⟨lower, upper⟩
      have hcell := hlive b size' hb
      obtain ⟨hin, -⟩ := laid.live_has hcell lower upper
      exact ⟨(releases.kept b _ hne hcell x lower hin).symm.trans hbyte, b, size',
        (update_of_ne hne ..).trans hb, lower, upper⟩
  obtain ⟨hcopies, hmmaps, hfresh⟩ := releases.shared
  have hpieces := releases.pieces
  obtain ⟨m', mmaps', copies', fresh'⟩ := s'
  subst hcopies hmmaps hfresh
  rcases hpieces with ⟨hpieces, houtside⟩ | ⟨hlarge, before, c, after, hchunks, hchunks', hbuffer, hcsize, rfl⟩
  · exact inv.touches hrun hpieces owned' houtside
  · have hc : c.mmap ∈ o.heap.mmaps := mem_map.mpr ⟨c, by rw [hchunks]; simp, rfl⟩
    exact inv.erases hrun hchunks hchunks' (unshared size hsize hlarge c.mmap hc hbuffer hcsize) owned'

omit inv hrun in
theorem moved_eq {wrote : Nat → Option UInt8} {b : Nat} (hapart : a + size ≤ b ∨ b + size ≤ a) :
    forget (copied wrote a size b) a size = moved wrote a size b := by
  funext x
  simp only [forget, copied, moved]
  by_cases hb : b ≤ x ∧ x < b + size
  · rw [if_neg (by omega), if_pos hb, if_pos hb]
  · rw [if_neg hb, if_neg hb]

omit hrun in
theorem Unshared.grown (hown : st.owners p = some o)
    (unshared : Unshared st o a) (o' : Owner) (hlive : o'.live a = o.live a)
    (grows : Grows answer o.heap st.store o'.heap s')
    (r : Nat) : Unshared (st.set r (some o') s') o' a := by
  intro size hsize hlarge c hc hbuffer hcsize shared hshared
  rw [hlive] at hsize
  have hold : ∀ {c}, c ∈ o.heap.mmaps → c.id ≠ st.store.fresh := by
    intro c hc
    obtain ⟨k, hk⟩ := mem_pieces.mp hc
    exact ne_of_lt (inv.sharing.fresh_id p _ ((mem_own hown).mpr hk))
  have hshared' : s'.mmaps c.id = some shared := hshared
  rcases grows.pieces with ⟨hpieces, hmmaps, -⟩ | ⟨n, -, -, hpieces, hmmaps, -⟩
  · have hc' : c ∈ o.heap.mmaps := by rwa [mmaps_eq, hpieces, ← mmaps_eq] at hc
    exact unshared size hsize hlarge c hc' hbuffer hcsize shared (hmmaps ▸ hshared')
  · rw [hmmaps] at hshared'
    rw [mmaps_eq, hpieces, map_cons, ← mmaps_eq] at hc
    rcases mem_cons.mp hc with rfl | hc
    · rw [update_self] at hshared'
      cases hshared'
      rfl
    · exact unshared size hsize hlarge c hc hbuffer hcsize shared ((update_of_ne (hold hc) ..).symm.trans hshared')

theorem Inv.realloc {newSize : Nat} (hsize : o.live a = some size)
    (hgrows : size ≤ newSize) (hnew : newSize < 2 ^ 32)
    (hanswer : Answers st.store.memory answer (maps newSize o.heap))
    (unshared : Unshared st o a) :
    ∃ b h' s', Realloc a size newSize answer o.heap st.store = some (b, h', s') ∧
      Inv (st.set p (some ⟨h', update (update o.live a none) b (some newSize), moved o.wrote a size b⟩) s') ∧
      Spares p st (st.set p (some ⟨h', update (update o.live a none) b (some newSize),
        moved o.wrote a size b⟩) s') := by
  obtain ⟨-, hown⟩ := running_eq hrun
  obtain ⟨⟨cells, laid, hlive, hwrote⟩, -⟩ := inv.running hrun
  have hcell := hlive a size hsize
  obtain ⟨b, h₁, s₁, bytes, h', s', hrealloc, allocates, hload, hne, laid₂, releases⟩ :=
    Realloc_spec laid hcell hgrows hnew hanswer
  have hlength := Memory.load_length hload
  obtain ⟨inv₁, spares₁⟩ := inv.malloc hrun laid hlive hwrote allocates
  -- the copy
  have hrun₁ := running_set hrun { o with heap := h₁, live := update o.live b (some newSize) } s₁
  have hcopied : ∀ y byte, copied o.wrote a size b y = some byte →
    (b ≤ y ∧ y < b + bytes.length ∧ bytes[y - b]? = some byte) ∨
        (¬ (b ≤ y ∧ y < b + bytes.length) ∧ o.wrote y = some byte) := by
    intro y byte hy
    rw [hlength]
    dsimp only [copied] at hy
    split at hy
    next hin =>
      have hget := Memory.load_get hload (show y - b < size by omega)
      exact .inl ⟨hin.1, hin.2, hget.symm.trans (hwrote _ byte hy).1⟩
    next hout => exact .inr ⟨hout, hy⟩
  obtain ⟨-, inv₂, spares₂⟩ := inv₁.write hrun₁ (update_self ..) le_rfl (by omega) hcopied
  rw [set_set] at inv₂ spares₂
  -- the old block is given back
  have hrun₂ := running_set hrun ⟨h₁, update o.live b (some newSize), copied o.wrote a size b⟩
    { s₁ with memory := s₁.memory.put b bytes }
  obtain ⟨⟨-, -, -, hwrote₂⟩, -⟩ := inv₂.running hrun₂
  have hlive₂ : ∀ c size', update o.live b (some newSize) c = some size' →
      update cells b (some (.live newSize)) c = some (.live size') := live_update hlive fun _ hb => some.inj hb ▸ rfl
  have hsize₂ : update o.live b (some newSize) a = some size := (update_of_ne hne ..).trans hsize
  have hgrown : Grows answer o.heap st.store h₁ { s₁ with memory := s₁.memory.put b bytes } := by
    obtain ⟨-, -, -, houtside⟩ := allocates.laid.write (update_self ..) bytes le_rfl
      (by have := le_cellSize (show 0 < newSize by have := laid.live_bounds a size hcell; omega) (by omega); omega)
    exact ⟨fun x hx => (houtside x hx).trans (allocates.grows.outside x hx), allocates.grows.copies,
      allocates.grows.pieces⟩
  have unshared₂ := unshared.grown inv hown ⟨h₁, update o.live b (some newSize), copied o.wrote a size b⟩
    (update_of_ne hne ..) hgrown p
  obtain ⟨inv₃, spares₃⟩ := inv₂.free hrun₂ hsize₂ unshared₂ laid₂ hlive₂ hwrote₂ releases
  have hapart : a + size ≤ b ∨ b + size ≤ a := by
    have hcells := laid₂.cells_apart a b _ _ hne ((update_of_ne hne ..).trans hcell) (update_self ..)
    obtain ⟨hpos, hbound⟩ := laid.live_bounds a size hcell
    have hle := le_cellSize hpos (by omega)
    have hle' := le_cellSize (show 0 < newSize by omega) (by omega)
    simp only [Use.len] at hcells
    omega
  rw [set_set, moved_eq hapart, update_comm hne.symm] at inv₃ spares₃
  exact ⟨b, h', s', hrealloc, inv₃, (spares₁.trans spares₂).trans spares₃⟩

end

theorem bytes_outside (hown : st.owners q = some o) {x : Nat} (hx : ∀ c ∈ o.heap.mmaps, ¬ c.Has x) :
    st.bytes q x = none := by
  have hfind : o.heap.m_chunks.find? (fun c => c.mmap.buffer ≤ x ∧ x < c.mmap.buffer + c.mmap.size) = none := by
    refine find?_eq_none.mpr fun c hc => ?_
    simpa [Mmap.Has] using hx c.mmap (mem_map_of_mem hc)
  simp only [System.bytes, hown, hfind, bind_eq_bind, bind_some, bind_none]

variable (inv : Inv st)
include inv

theorem Inv.switchTo (hown : st.owners p = some o) :
    ∃ s', SwitchTo o.heap st.store = some s' ∧ Inv { st with store := s', current := some p } ∧
      ∀ q, System.bytes { st with store := s', current := some p } q = st.bytes q := by
  obtain ⟨s', hswitch, sharing', keeps, loaded⟩ := inv.sharing.switchTo fun piece hpiece => (mem_own hown).mpr hpiece
  have hbytes : ∀ q, System.bytes { st with store := s', current := some p } q = st.bytes q := fun q =>
    bytes_congr rfl fun piece hpiece => keeps q piece hpiece
  refine ⟨s', hswitch, ⟨sharing', fun r hr piece hpiece => ?_, fun q o₁ ho₁ => ?_⟩, hbytes⟩
  · cases hr
    exact loaded piece ((mem_own hown).mp hpiece)
  · rw [hbytes q]
    exact inv.owned q o₁ ho₁

theorem Inv.start (hown : st.owners p = none) : Inv (st.set p (some ⟨.new, fun _ => none, fun _ => none⟩) st.store) ∧
      Spares p st (st.set p (some ⟨.new, fun _ => none, fun _ => none⟩) st.store) := by
  have hsame : (st.set p (some ⟨.new, fun _ => none, fun _ => none⟩) st.store).own = st.own := by
    funext r
    ext piece
    rw [mem_own_set]
    by_cases hr : r = p
    · subst hr
      simp [System.own, hown, pieces, new]
    · simp [hr]
  have hbytes : Spares p st (st.set p (some ⟨.new, fun _ => none, fun _ => none⟩) st.store) := fun q hq =>
    bytes_congr (update_of_ne hq ..) fun _ _ _ _ => rfl
  refine ⟨⟨hsame ▸ inv.sharing, hsame ▸ inv.loaded, fun q o₁ ho₁ => ?_⟩, hbytes⟩
  by_cases hq : q = p
  · subst hq
    have hself : (st.set q (some ⟨.new, fun _ => none, fun _ => none⟩) st.store).owners q =
      some ⟨.new, fun _ => none, fun _ => none⟩ := update_self ..
    cases hself.symm.trans ho₁
    exact ⟨_, Laid.new _, fun _ _ hlive => absurd hlive (by rintro ⟨⟩), fun _ _ hwrote =>
      absurd hwrote (by rintro ⟨⟩)⟩
  · rw [hbytes q hq]
    exact inv.owned q o₁ ((update_of_ne hq ..).symm.trans ho₁)

theorem Inv.gone (hown : st.owners p = some o) {s₁ : Store} (sharing₁ : Sharing st.own s₁)
    (keeps₁ : KeepsOthers st.own p st.store s₁) {current : Option Nat} (hcurrent : ∀ r, current = some r →
      r ≠ p ∧ st.current = some r) :
    ∃ s', release o.heap s₁ = some s' ∧ Inv { st.set p none s' with current := current } ∧
      ∀ q, q ≠ p → System.bytes { st.set p none s' with current := current } q = st.bytes q := by
  obtain ⟨cells, laid, -⟩ := inv.owned p o hown
  obtain ⟨s', hrelease, keeps', hsharing⟩ := sharing₁.release (p := p) o.heap.m_chunks (inv.sharing.nodup hown laid)
    fun c hc => (mem_own hown).mpr (mem_map.mpr ⟨c, hc, rfl⟩)
  have keeps := keeps₁.trans keeps'
  have hbytes : ∀ q, q ≠ p → System.bytes { st.set p none s' with current := current } q = st.bytes q := fun q hq =>
    bytes_congr (update_of_ne hq ..) fun piece hpiece => (keeps q hq piece hpiece).1
  have hmem : ∀ r piece, piece ∈ System.own { st.set p none s' with current := current } r ↔
      r ≠ p ∧ piece ∈ st.own r := by
    intro r piece
    have hsame : System.own { st.set p none s' with current := current } = (st.set p none s').own := rfl
    rw [hsame, mem_own_set]
    simp
  refine ⟨s', hrelease, ⟨hsharing _ fun r piece => (hmem r piece).trans ?_, fun r hr piece hpiece => ?_,
    fun q o₁ ho₁ => ?_⟩,
    hbytes⟩
  · constructor
    · rintro ⟨hr, hpiece⟩
      exact ⟨hpiece, fun hboth => hr hboth.1⟩
    · rintro ⟨hpiece, hnot⟩
      refine ⟨fun hr => ?_, hpiece⟩
      subst hr
      obtain ⟨c, hc, heq⟩ := mem_map.mp ((mem_own hown).mp hpiece)
      exact hnot ⟨rfl, c, hc, by rw [← heq]⟩
  · obtain ⟨hne, hcur⟩ := hcurrent r hr
    have hpiece' := ((hmem r piece).mp hpiece).2
    exact (keeps r hne piece hpiece').2 (inv.loaded r hcur piece hpiece')
  · have hq : q ≠ p := by
      rintro rfl
      have hself : (st.set q none s').owners q = none := update_self ..
      cases hself.symm.trans ho₁
    rw [hbytes q hq]
    exact inv.owned q o₁ ((update_of_ne hq ..).symm.trans ho₁)

theorem Inv.clone (junk : Nat → UInt8) (hrun : st.running = some (p, o)) (hnone : st.owners q = none) :
    ∃ mine clone s', Clone junk o.heap st.store = some (mine, clone, s') ∧
      Inv ((st.set p (some { o with heap := mine }) s').set q (some { o with heap := clone }) s') ∧
      Spares q st ((st.set p (some { o with heap := mine }) s').set q (some { o with heap := clone }) s') := by
  obtain ⟨hcurrent, hown⟩ := running_eq hrun
  obtain ⟨owned, loaded⟩ := inv.running hrun
  have ⟨cells, laid, hlive, hwrote⟩ := owned
  have hqp : q ≠ p := by
    rintro rfl
    cases hown.symm.trans hnone
  have hempty : ∀ piece, piece ∉ st.own q := by
    rintro piece ⟨o₁, ho₁, -⟩
    cases hnone.symm.trans ho₁
  have hpiece : ∀ c ∈ o.heap.m_chunks, (c.mmap, c.copy) ∈ o.heap.pieces := fun c hc => mem_map.mpr ⟨c, hc, rfl⟩
  obtain ⟨mines, clones, s', hclone, all⟩ := inv.sharing.cloneChunks junk hqp o.heap.m_chunks
    (inv.sharing.nodup hown laid) (fun c hc => ⟨(mem_own hown).mpr (hpiece c hc), loaded _ (hpiece c hc)⟩)
    fun piece hpiece => absurd hpiece (hempty piece)
  obtain ⟨mine, hmine⟩ : ∃ mine : KingsleyAlloc, mine = { o.heap with m_chunks := mines } := ⟨_, rfl⟩
  obtain ⟨clone, hclone'⟩ : ∃ clone : KingsleyAlloc, clone = ⟨update (fun _ => 0) 0 (o.heap.m_buckets 0), clones⟩ :=
    ⟨_, rfl⟩
  obtain ⟨st', hst'⟩ : ∃ st', st' = (st.set p (some { o with heap := mine }) s').set q
    (some { o with heap := clone }) s' :=
    ⟨_, rfl⟩
  have hp' : st'.owners p = some { o with heap := mine } := by
    rw [hst']
    exact (update_of_ne hqp.symm ..).trans (update_self ..)
  have hq' : st'.owners q = some { o with heap := clone } := by
    rw [hst']
    exact update_self ..
  have hrest : ∀ r, r ≠ p → r ≠ q → st'.owners r = st.owners r := fun r hrp hrq => by
    rw [hst']
    exact (update_of_ne hrq ..).trans (update_of_ne hrp ..)
  have hstore : st'.store = s' := by rw [hst']; rfl
  have hmines : mine.pieces = piecesOf mines := by rw [hmine]; rfl
  have hclones : clone.pieces = piecesOf clones := by rw [hclone']; rfl
  have hmem : ∀ r piece, piece ∈ st'.own r ↔ (r = q ∧ piece ∈ piecesOf clones) ∨ (r = p ∧ piece ∈ piecesOf mines) ∨
      (piece ∈ st.own r ∧ ¬ (r = p ∧ ∃ c ∈ o.heap.m_chunks, piece.1.id = c.mmap.id)) := by
    intro r piece
    by_cases hrq : r = q
    · subst hrq
      simp [mem_own hq', hclones, hqp, hempty piece]
    · by_cases hrp : r = p
      · subst hrp
        rw [mem_own hp', hmines]
        constructor
        · exact fun hin => .inr (.inl ⟨rfl, hin⟩)
        · rintro (⟨heq, -⟩ | ⟨-, hin⟩ | ⟨hin, hnot⟩)
          · exact absurd heq hrq
          · exact hin
          · obtain ⟨c, hc, heq⟩ := mem_map.mp ((mem_own hown).mp hin)
            exact absurd ⟨rfl, c, hc, by rw [← heq]⟩ hnot
      · simp [System.own, hrest r hrp hrq, hrq, hrp]
  have sharing' : Sharing st'.own st'.store := hstore ▸ all.sharing st'.own hmem
  have hothers : ∀ r, r ≠ p → r ≠ q → st'.bytes r = st.bytes r := by
    intro r hrp hrq
    refine bytes_congr (hrest r hrp hrq) fun piece hin x _ => ?_
    rw [hstore]
    exact (all.others r piece hin fun hboth => hrp hboth.1).1 x
  have hloaded : ∀ piece ∈ mine.pieces, st'.store.Loaded piece := by
    rw [hmines, hstore]
    exact all.loaded
  have hmm : mine.mmaps = o.heap.mmaps := by
    have heq := congrArg (map Prod.fst) all.same_mine
    rw [List.map_map, List.map_map] at heq
    rw [hmine]
    exact heq
  have hbytesp : st'.bytes p = st.bytes p := by
    funext x
    by_cases hin : ∃ c ∈ o.heap.mmaps, c.Has x
    · obtain ⟨c, hc, hx⟩ := hin
      rw [bytes_loaded sharing' hp' hloaded c (hmm ▸ hc) x hx.1 hx.2, hstore, all.memory]
      exact (bytes_loaded inv.sharing hown loaded c hc x hx.1 hx.2).symm
    · rw [bytes_outside hown fun c hc hx => hin ⟨c, hc, hx⟩]
      exact bytes_outside hp' fun c hc hx => hin ⟨c, hmm ▸ hc, hx⟩
  have hownedp : Owned { o with heap := mine } (st'.bytes p) := by
    rw [hbytesp]
    obtain ⟨cells₀, laid₀, hlive₀, hwrote₀⟩ := inv.owned p o hown
    exact ⟨cells₀, laid₀.forked (by rw [hmine]; exact all.same_mine) fun _ => .inl (by rw [hmine]), hlive₀, hwrote₀⟩
  have hownedq : Owned { o with heap := clone } (st'.bytes q) := by
    have hforked : Laid clone st.store.memory cells :=
      laid.forked (by rw [hclone']; exact all.same_clone) fun bucket => by
      rw [hclone']
      dsimp only
      by_cases hbucket : bucket = 0
      · left
        rw [hbucket, update_self]
      · right
        rw [update_of_ne hbucket]
    have howned : Owned { o with heap := clone } st.store.memory := ⟨cells, hforked, hlive, hwrote⟩
    refine howned.transfer fun c hc x lower upper => ?_
    obtain ⟨chunk, hchunk, rfl⟩ := mem_map.mp hc
    rw [sharing'.bytes_eq hq' hchunk ⟨lower, upper⟩, hstore]
    exact (all.bytes _ (hclones ▸ mem_map.mpr ⟨chunk, hchunk, rfl⟩) x ⟨lower, upper⟩).symm
  refine ⟨mine, clone, s', ?_, hst' ▸ ⟨sharing', fun r hr piece hin => ?_, fun r o₁ ho₁ => ?_⟩, fun r hr => ?_⟩
  · simp [Clone, hclone, hmine, hclone']
  · have hr' : st'.current = some p := by rw [hst']; exact hcurrent
    cases hr.symm.trans hr'
    exact hloaded piece ((mem_own hp').mp hin)
  · by_cases hrq : r = q
    · subst hrq
      cases hq'.symm.trans ho₁
      exact hownedq
    · by_cases hrp : r = p
      · subst hrp
        cases hp'.symm.trans ho₁
        exact hownedp
      · rw [hothers r hrp hrq]
        exact inv.owned r o₁ ((hrest r hrp hrq).symm.trans ho₁)
  · rw [← hst']
    by_cases hrp : r = p
    · rw [hrp]
      exact hbytesp
    · exact hothers r hrp hr

theorem Inv.running_some (hrun : st.running = some (p, o)) :
    ∃ cells, Laid o.heap st.store.memory cells ∧ (∀ a size, o.live a = some size → cells a = some (.live size)) ∧
      ∀ x byte, o.wrote x = some byte → st.store.memory x = some byte ∧ ∃ a size, o.live a = some size ∧ a ≤ x ∧
      x < a + size :=
  (inv.running hrun).1

theorem Inv.step (junk : Nat → UInt8) {label : Label} (allowed : Allowed st label) (exclusive : Exclusive st label) :
    ∃ st', st.step junk label = some st' ∧ Inv st' ∧ ∀ q, label.actor st ≠ some q → st'.bytes q = st.bytes q := by
  have actor : ∀ {p o st'}, st.running = some (p, o) → Spares p st st' → ∀ q, st.current ≠ some q →
      st'.bytes q = st.bytes q := by
    intro p o st' hrun spares q hq
    refine spares q fun heq => hq ?_
    rw [heq]
    exact (running_eq hrun).1
  cases label with
  | start p =>
    obtain ⟨inv', spares⟩ := inv.start allowed
    exact ⟨_, rfl, inv', fun q hq => spares q fun heq => hq (congrArg some heq.symm)⟩
  | switchTo p =>
    obtain ⟨o, hown⟩ := allowed
    obtain ⟨s', hswitch, inv', hbytes⟩ := inv.switchTo hown
    refine ⟨_, ?_, inv', fun q _ => hbytes q⟩
    simp [System.step, hown, hswitch]
  | clone q =>
    obtain ⟨hnone, p, o, hrun⟩ := allowed
    obtain ⟨mine, clone, s', hclone, inv', spares⟩ := inv.clone junk hrun hnone
    refine ⟨_, ?_, inv', fun r hr => spares r fun heq => hr (congrArg some heq.symm)⟩
    simp [System.step, hrun, hclone]
  | malloc size answer =>
    obtain ⟨p, o, hrun, hpos, hsize, hanswer⟩ := allowed
    obtain ⟨cells, laid, hlive, hwrote⟩ := inv.running_some hrun
    obtain ⟨a, h', s', hmalloc, allocates⟩ := Malloc_spec laid hpos hsize hanswer
    obtain ⟨inv', spares⟩ := inv.malloc hrun laid hlive hwrote allocates
    refine ⟨_, ?_, inv', actor hrun spares⟩
    simp [System.step, hrun, hmalloc]
  | free a =>
    obtain ⟨p, o, size, hrun, hsize⟩ := allowed
    obtain ⟨cells, laid, hlive, hwrote⟩ := inv.running_some hrun
    obtain ⟨h', s', hfree, releases⟩ := Free_spec laid (hlive a size hsize)
    obtain ⟨inv', spares⟩ := inv.free hrun hsize (exclusive p o hrun) laid hlive hwrote releases
    refine ⟨_, ?_, inv', actor hrun spares⟩
    simp [System.step, hrun, hsize, hfree]
  | realloc a newSize answer =>
    obtain ⟨p, o, size, hrun, hsize, hnew, hanswer⟩ := allowed
    rcases Nat.lt_or_ge newSize size with hless | hgrows
    · have hsame : st.set p (some o) st.store = st := by
        rw [System.set, update_eq_self_iff.mpr (running_eq hrun).2.symm]
      refine ⟨st, ?_, inv, fun _ _ => rfl⟩
      simp [System.step, hrun, hsize, Realloc, hless, hsame]
    · have unshared := exclusive p o hrun fun size' hsize' =>
        (some.inj (hsize.symm.trans hsize')) ▸ hgrows
      obtain ⟨b, h', s', hrealloc, inv', spares⟩ := inv.realloc hrun hsize hgrows hnew (hanswer hgrows) unshared
      refine ⟨_, ?_, inv', actor hrun spares⟩
      simp only [System.step, hrun, hsize, hrealloc, not_lt.mpr hgrows, if_false, bind_eq_bind, bind_some, pure]
  | write x byte =>
    obtain ⟨p, o, a, size, hrun, hsize, lower, upper⟩ := allowed
    have hwrote : ∀ y b, update o.wrote x (some byte) y = some b →
      (x ≤ y ∧ y < x + [byte].length ∧ [byte][y - x]? = some b) ∨
          (¬ (x ≤ y ∧ y < x + [byte].length) ∧ o.wrote y = some b) := by
      intro y b hy
      by_cases hyx : y = x
      · exact .inl ⟨by omega, by simp [hyx], by simpa [hyx] using hy⟩
      · rw [update_of_ne hyx] at hy
        exact .inr ⟨by rw [length_singleton]; omega, hy⟩
    obtain ⟨hstore, inv', spares⟩ := inv.write hrun hsize lower (by rw [length_singleton]; omega) hwrote
    refine ⟨_, ?_, inv', actor hrun spares⟩
    simp [System.step, hrun, hstore]
  | dispose =>
    obtain ⟨p, o, hrun⟩ := allowed
    obtain ⟨hcurrent, hown⟩ := running_eq hrun
    obtain ⟨s₁, hdispose, sharing₁, keeps₁⟩ := inv.sharing.dispose (p := p) o.heap.m_chunks fun c hc =>
      (mem_own hown).mpr (mem_map.mpr ⟨c, hc, rfl⟩)
    have hnobody : ∀ r, (none : Option Nat) = some r → r ≠ p ∧ st.current = some r := by
      rintro r ⟨⟩
    obtain ⟨s', hrelease, inv', hbytes⟩ := inv.gone hown sharing₁ keeps₁ hnobody
    refine ⟨_, ?_, inv', actor hrun hbytes⟩
    simp [System.step, hrun, Dispose, hdispose, hrelease]
  | delete p =>
    obtain ⟨o, hown⟩ := allowed
    have hother : ∀ r, (if st.current = some p then none else st.current) = some r →
        r ≠ p ∧ st.current = some r := by
      intro r hr
      split at hr
      · cases hr
      next hne =>
        refine ⟨?_, hr⟩
        rintro rfl
        exact hne hr
    obtain ⟨s', hrelease, inv', hbytes⟩ := inv.gone hown inv.sharing (KeepsOthers.refl st.own p st.store) hother
    refine ⟨_, ?_, inv', fun q hq => hbytes q fun heq => hq (congrArg some heq.symm)⟩
    simp [System.step, hown, hrelease]

theorem Inv.isolated : Isolated st where
  reads _ _ hrun x byte hx := ((inv.running hrun).1.choose_spec.2.2 x byte hx).1
  keeps q o hown x byte hx := ((inv.owned q o hown).choose_spec.2.2 x byte hx).1
  reach q o hown c hc := (inv.owned q o hown).choose_spec.1.mapped c hc

end

theorem inv_start : Inv ⟨.new, fun _ => none, none⟩ := by
  have hempty : ∀ p piece, piece ∉ System.own ⟨.new, fun _ => none, none⟩ p := by
    rintro p piece ⟨o, ho, -⟩
    cases ho
  exact {
    sharing := {
      counted := fun p _ hp => absurd hp (hempty p _)
      once := fun p _ _ _ hp => absurd hp (hempty p _)
      same := fun p _ _ _ hp => absurd hp (hempty p _)
      apart := fun p _ _ _ hp => absurd hp (hempty p _)
      mapped := fun p _ hp => absurd hp (hempty p _)
      sole := fun p _ _ hp => absurd hp (hempty p _)
      copied := fun p _ _ hp => absurd hp (hempty p _)
      keys := fun p _ _ _ _ hp => absurd hp (hempty p _)
      held := fun p _ _ _ hp => absurd hp (hempty p _)
      fresh_id := fun p _ hp => absurd hp (hempty p _)
      fresh_key := fun p _ _ hp => absurd hp (hempty p _) }
    loaded := fun p _ piece hpiece => absurd hpiece (hempty p piece)
    owned := fun _ _ ho => nomatch ho }

theorem inv_of_reach {junk : Nat → UInt8} {st : System}
    (reach : (System.machine junk).ReachBy (fun st label => Allowed st label ∧ Exclusive st label) st) : Inv st := by
  refine reach.invariant (I := Inv) ?_ ?_
  · rintro st rfl
    exact inv_start
  · rintro st label st' inv ⟨allowed, exclusive⟩ step
    obtain ⟨st₁, hstep, inv₁, -⟩ := inv.step junk allowed exclusive
    have heq : some st₁ = some st' := hstep.symm.trans step
    exact some.inj heq ▸ inv₁

/-- In a run where no large block is given back while its mapping is shared, the heaps are isolated. -/
theorem heaps_isolated (junk : Nat → UInt8) {st : System}
    (reach : (System.machine junk).ReachBy (fun st label => Allowed st label ∧ Exclusive st label) st) :
    Isolated st ∧ ∀ label, Allowed st label → Exclusive st label →
      ∃ st', st.step junk label = some st' ∧ ∀ q, label.actor st ≠ some q → st'.bytes q = st.bytes q := by
  have inv := inv_of_reach reach
  refine ⟨inv.isolated, fun label allowed exclusive => ?_⟩
  obtain ⟨st', hstep, -, hbytes⟩ := inv.step junk allowed exclusive
  exact ⟨st', hstep, hbytes⟩

/-- One process runs, whose heap is empty. -/
def System.first : System :=
  ⟨.new, update (fun _ => none) 1 (some ⟨.new, fun _ => none, fun _ => none⟩), some 1⟩

theorem reach_first (junk : Nat → UInt8) :
    (System.machine junk).ReachBy (fun st label => Allowed st label ∧ Exclusive st label) .first := by
  have empty : (System.machine junk).ReachBy (fun st label => Allowed st label ∧ Exclusive st label)
      ⟨.new, fun _ => none, none⟩ := .start rfl
  have started : (System.machine junk).ReachBy (fun st label => Allowed st label ∧ Exclusive st label)
      { System.first with current := none } := .next (a := .start 1) empty ⟨rfl, trivial⟩ rfl
  exact .next (a := .switchTo 1) started ⟨⟨_, rfl⟩, trivial⟩ rfl

/-- A chunk that one block of `n` bytes fills. -/
def wholeChunk (n : Nat) (copy : Option Nat) : MmapChunk := ⟨⟨0, n, 65536⟩, copy, n, le_rfl⟩

theorem Malloc_whole (large : m_defaultMmapSize ≤ n) : Malloc n 65536 .new .new =
    some (65536, ⟨fun _ => 0, [wholeChunk n none]⟩, (MmapAlloc n 65536 .new .new).2) := by
  rw [Malloc, if_neg (by omega)]
  simp only [MmapAlloc, Brk, carve, Nat.sub_zero, le_refl, Nat.zero_add]
  rfl

theorem Clone_whole (junk : Nat → UInt8) {s : Store} {bytes : List UInt8}
    (hload : s.memory.load 65536 n = some bytes) (hshared : s.mmaps 0 = some ⟨1, .buffer⟩) :
    ∃ clone s', Clone junk ⟨fun _ => 0, [wholeChunk n none]⟩ s =
    some (⟨fun _ => 0, [wholeChunk n (some s.fresh)]⟩, clone, s') ∧
      clone.m_chunks = [wholeChunk n (some (s.fresh + 1))] ∧ s'.memory = s.memory ∧
      s'.mmaps 0 = some ⟨2, .copy s.fresh⟩ := by
  rw [Clone, cloneChunks, cloneChunk]
  simp only [wholeChunk, hshared, hload, newCopy, cloneChunks, bind_eq_bind, bind_some, pure,
    some.injEq, Prod.mk.injEq, and_true, true_and, if_true]
  exact ⟨_, _, ⟨rfl, rfl⟩, rfl, rfl, by simp⟩

theorem Free_whole (large : m_defaultMmapSize ≤ n) (buckets : Nat → Nat) (copy : Option Nat) (s : Store) :
    Free 65536 n ⟨buckets, [wholeChunk n copy]⟩ s = some (⟨buckets, []⟩, MmapFree 65536 n s) := by
  rw [Free, if_neg (by omega)]
  simp [wholeChunk]

theorem SwitchTo_whole {key : Nat} {copy : Option Nat} {s : Store} (hpos : 0 < n)
    (hchunks : h.m_chunks = [wholeChunk n copy]) (hfree : s.memory.Free 65536 n)
    (hshared : s.mmaps 0 = some ⟨2, .copy key⟩) : SwitchTo h s = none := by
  have hload : s.memory.load 65536 n = none := by
    cases hload : s.memory.load 65536 n with
    | none => rfl
    | some bytes =>
      have hmapped := Memory.mapped_of_load hload 65536 le_rfl (by omega)
      rw [hfree 65536 le_rfl (by omega)] at hmapped
      cases hmapped
  rw [SwitchTo, hchunks, foldlM_cons, switchChunk]
  simp [wholeChunk, hshared, saveCurrent, hload]

theorem fork_whole (large : m_defaultMmapSize ≤ n) (small : n < 2 ^ 32) :
    ∃ st o o', (System.machine fun _ => 0).ReachBy (fun st label => Allowed st label ∧ Exclusive st label) st ∧
      st.running = some (1, o) ∧ o.heap = ⟨fun _ => 0, [wholeChunk n (some 1)]⟩ ∧ o.live 65536 = some n ∧
      st.owners 2 = some o' ∧ o'.heap.m_chunks = [wholeChunk n (some 2)] ∧ o'.live 65536 = some n ∧
      st.store.mmaps 0 = some ⟨2, .copy 1⟩ := by
  have hpos : 0 < n := by
    rw [m_defaultMmapSize] at large
    omega
  have hanswer : Answers Store.new.memory 65536 (maps n .new) := by
    intro size hsize
    rw [maps, if_neg (by omega)] at hsize
    cases hsize
    exact ⟨by decide, by omega, fun _ _ _ => rfl⟩
  have filled : (System.machine fun _ => 0).ReachBy (fun st label => Allowed st label ∧
    Exclusive st label) (System.first.set 1
      (some ⟨⟨fun _ => 0, [wholeChunk n none]⟩, update (fun _ => none) 65536 (some n), fun _ => none⟩)
      (MmapAlloc n 65536 .new .new).2) := by
    refine .next (a := .malloc n 65536) (reach_first _) ⟨⟨1, _, rfl, hpos, small, hanswer⟩, trivial⟩ ?_
    change (Malloc n 65536 .new .new >>= fun _ => _) = _
    rw [Malloc_whole large]
    rfl
  obtain ⟨clone, s, hclone, hchunks, -, hshared⟩ := Clone_whole (fun _ => 0) (n := n)
    (s := (MmapAlloc n 65536 .new .new).2) Memory.load_map rfl
  obtain ⟨live, hlive⟩ : ∃ live : Nat → Option Nat, live = update (fun _ => none) 65536 (some n) := ⟨_, rfl⟩
  rw [← hlive] at filled
  let parent : Owner := ⟨⟨fun _ => 0, [wholeChunk n (some 1)]⟩, live, fun _ => none⟩
  let child : Owner := ⟨clone, live, fun _ => none⟩
  have forked : (System.machine fun _ => 0).ReachBy (fun st label => Allowed st label ∧ Exclusive st label)
      ⟨s, update (update System.first.owners 1 (some parent)) 2 (some child), some 1⟩ := by
    refine .next (a := .clone 2) filled ⟨⟨rfl, 1, _, rfl⟩, trivial⟩ ?_
    change (Clone (fun _ => 0) ⟨fun _ => 0, [wholeChunk n none]⟩ (MmapAlloc n 65536 .new .new).2 >>= fun _ => _) = _
    rw [hclone]
    simp [System.set, System.first, parent, child, MmapAlloc, Store.new]
  exact ⟨_, parent, child, forked, rfl, rfl, by simp [parent, hlive], rfl, hchunks, by simp [child, hlive], hshared⟩

theorem write_some {junk : Nat → UInt8} {st st' : System} {p x : Nat} {o : Owner} {byte : UInt8}
    (hrun : st.running = some (p, o))
    (hstep : st.step junk (.write x byte) = some st') :
    ∃ s o', st' = st.set p (some o') s ∧ o'.live = o.live ∧ o'.wrote x = some byte := by
  rw [System.step, hrun, bind_eq_bind, bind_some] at hstep
  obtain ⟨memory, -, heq⟩ := bind_eq_some_iff.mp hstep
  exact ⟨_, _, (some.inj heq).symm, rfl, update_self ..⟩

theorem switchTo_some {junk : Nat → UInt8} {st st' : System} {p : Nat} {o : Owner} (howner : st.owners p = some o)
    (hstep : st.step junk (.switchTo p) = some st') : ∃ s, st' = { st with store := s, current := some p } := by
  rw [System.step, howner, bind_eq_bind, bind_some] at hstep
  obtain ⟨s, -, heq⟩ := bind_eq_some_iff.mp hstep
  exact ⟨s, (some.inj heq).symm⟩

/-- A process with a block forks; it writes to the block, then its child does. -/
theorem reach_written : ∃ st o o', (System.machine fun _ => 0).ReachBy (fun st label => Allowed st label ∧
      Exclusive st label) st ∧
    st.owners 1 = some o ∧ o.live 65536 = some m_defaultMmapSize ∧ o.wrote 65536 = some 7 ∧
    st.running = some (2, o') ∧ o'.live 65536 = some m_defaultMmapSize ∧ o'.wrote 65536 = some 9 := by
  obtain ⟨st, o, o', reach, hrun, -, hlive, hchild, -, hlive', -⟩ := fork_whole le_rfl (by decide)
  have allowed : Allowed st (.write 65536 7) := ⟨1, o, 65536, _, hrun, hlive, le_rfl, by decide⟩
  obtain ⟨_, hstep, -⟩ := (inv_of_reach reach).step (fun _ => 0) allowed trivial
  obtain ⟨s, mine, rfl, live, wrote⟩ := write_some hrun hstep
  have reach := reach.next ⟨allowed, trivial⟩ hstep
  have hchild : (st.set 1 (some mine) s).owners 2 = some o' := by simpa [System.set] using hchild
  have allowed : Allowed (st.set 1 (some mine) s) (.switchTo 2) := ⟨o', hchild⟩
  obtain ⟨_, hstep, -⟩ := (inv_of_reach reach).step (fun _ => 0) allowed trivial
  obtain ⟨s', rfl⟩ := switchTo_some hchild hstep
  have reach := reach.next ⟨allowed, trivial⟩ hstep
  have hrun : (System.mk s' (st.set 1 (some mine) s).owners (some 2)).running = some (2, o') := by
    rw [System.running, bind_eq_bind, bind_some, hchild]
    rfl
  have allowed : Allowed ⟨s', (st.set 1 (some mine) s).owners, some 2⟩ (.write 65536 9) :=
    ⟨2, o', 65536, _, hrun, hlive', le_rfl, by decide⟩
  obtain ⟨_, hstep, -⟩ := (inv_of_reach reach).step (fun _ => 0) allowed trivial
  obtain ⟨s'', theirs, rfl, live', wrote'⟩ := write_some hrun hstep
  have reach := reach.next ⟨allowed, trivial⟩ hstep
  exact ⟨_, mine, theirs, reach, rfl, live ▸ hlive, wrote, rfl, live' ▸ hlive', wrote'⟩

theorem heaps_isolated_written : ∃ st o o', st.owners 1 = some o ∧ o.live 65536 = some m_defaultMmapSize ∧
    o.wrote 65536 = some 7 ∧ st.running = some (2, o') ∧ o'.live 65536 = some m_defaultMmapSize ∧
    o'.wrote 65536 = some 9 ∧
    Isolated st ∧ ∀ label, Allowed st label → Exclusive st label →
      ∃ st', st.step (fun _ => 0) label = some st' ∧ ∀ q, label.actor st ≠ some q → st'.bytes q = st.bytes q := by
  obtain ⟨st, o, o', reach, first⟩ := reach_written
  exact ⟨st, o, o', first.1, first.2.1, first.2.2.1, first.2.2.2.1, first.2.2.2.2.1, first.2.2.2.2.2,
    heaps_isolated _ reach⟩

/-- A process forks and gives a large block back: the child then cannot be switched to any more. -/
theorem fork_then_free : ¬ ∀ st, (System.machine fun _ => 0).ReachBy Allowed st →
    Isolated st ∧ ∀ label, Allowed st label →
      ∃ st', st.step (fun _ => 0) label = some st' ∧ ∀ q, label.actor st ≠ some q → st'.bytes q = st.bytes q := by
  intro h
  have large : m_defaultMmapSize ≤ m_defaultMmapSize := le_rfl
  have hpos : 0 < m_defaultMmapSize := by decide
  obtain ⟨st, o, o', reach, hrun, hheap, hlive, hchild, hchunks, -, hshared⟩ := fork_whole large (by decide)
  have reach := reach.mono fun _ _ => And.left
  obtain ⟨st', hstep, -⟩ := (h st reach).2 (.free 65536) ⟨1, o, _, hrun, hlive⟩
  have freed : (System.machine fun _ => 0).ReachBy Allowed st' :=
    .next (a := .free 65536) reach ⟨1, o, _, hrun, hlive⟩ hstep
  simp only [System.step, hrun, hlive, hheap, Free_whole large, bind_eq_bind, bind_some, pure, some.injEq] at hstep
  have hchild' : st'.owners 2 = some o' := by
    rw [← hstep]
    simpa [System.set] using hchild
  have hfree : st'.store.memory.Free 65536 m_defaultMmapSize := by
    rw [← hstep]
    exact fun x lower upper => if_pos ⟨lower, upper⟩
  have hshared' : st'.store.mmaps 0 = some ⟨2, .copy 1⟩ := by
    rw [← hstep]
    exact hshared
  obtain ⟨st'', hswitch, -⟩ := (h st' freed).2 (.switchTo 2) ⟨o', hchild'⟩
  simp [System.step, hchild', SwitchTo_whole hpos hchunks hfree hshared'] at hswitch

end Dce.Heap
