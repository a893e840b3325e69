import Dce.Heap.Layout

/- What `Malloc`, `Free` and `Realloc` do to the cells of a heap. -/

namespace Dce.Heap

open KingsleyAlloc Memory Function List Option

/-- The mapped memory of a heap and the keys of its copies. -/
def KingsleyAlloc.pieces (h : KingsleyAlloc) : List (Mmap × Option Nat) := h.m_chunks.map fun c => (c.mmap, c.copy)

theorem KingsleyAlloc.mmaps_eq (h : KingsleyAlloc) : h.mmaps = h.pieces.map Prod.fst := by
  rw [pieces, List.map_map]
  rfl

/-- A heap got at most one new piece of memory, and no other memory changed. -/
structure Grows (answer : Nat) (h : KingsleyAlloc) (s : Store) (h' : KingsleyAlloc) (s' : Store) : Prop where
  outside : ∀ x, (∀ c ∈ h'.mmaps, ¬ c.Has x) → s'.memory x = s.memory x
  copies : s'.copies = s.copies
  pieces : (h'.pieces = h.pieces ∧ s'.mmaps = s.mmaps ∧ s'.fresh = s.fresh) ∨
    ∃ size, 0 < size ∧ Answers s.memory answer (some size) ∧
    h'.pieces = (⟨s.fresh, size, answer⟩, none) :: h.pieces ∧
      s'.mmaps = update s.mmaps s.fresh (some ⟨1, .buffer⟩) ∧ s'.fresh = s.fresh + 1

variable {needed : Nat}

theorem carve_pieces {a : Nat} {cs cs' : List MmapChunk} (h : carve needed cs = some (a, cs')) :
    cs'.map (fun c => (c.mmap, c.copy)) = cs.map fun c => (c.mmap, c.copy) := by
  obtain ⟨before, c, after, room, rfl, -, rfl⟩ := carve_spec h
  simp

theorem carve_front {size : Nat} (hneeded : needed ≤ size) (id answer : Nat) (cs : List MmapChunk) :
    ∃ cs', carve needed (⟨⟨id, size, answer⟩, none, 0, MmapChunk.new_fits size⟩ :: cs) = some (answer, cs') := by
  rw [carve, dif_pos (show needed ≤ size - 0 from hneeded)]
  exact ⟨_, rfl⟩

section

variable {h : KingsleyAlloc} {s : Store} {cells : Nat → Option Use} {size answer : Nat}

variable {a : Nat} {h' : KingsleyAlloc} {s' : Store} {m : Memory}

theorem mmapAlloc_agree (laid : Laid h s.memory cells) (hpos : 0 < size)
    (hanswer : Answers s.memory answer (some size)) {use : Use} (hcell : cells a = some use) :
    s.memory.Agree (MmapAlloc size answer h s).2.memory a use.len := by
  have hlen := use.eight_le_len
  exact (map_agree ((hanswer size rfl).2.2.apart (laid.cell_mapped hcell) hpos (by omega))).symm

theorem mmapAlloc_grows (hpos : 0 < size) (hanswer : Answers s.memory answer (some size)) :
    Grows answer h s (MmapAlloc size answer h s).1 (MmapAlloc size answer h s).2 where
  outside x hx := by
    refine if_neg fun inside => ?_
    exact hx ⟨s.fresh, size, answer⟩ (by simp [MmapAlloc, mmaps]) inside
  copies := rfl
  pieces := .inr ⟨size, hpos, hanswer, rfl, rfl, rfl⟩

theorem Grows.carve (grows : Grows answer h s h' s') {needed : Nat}
    {cs : List MmapChunk} (hcarve : Heap.carve needed h'.m_chunks = some (a, cs)) :
    Grows answer h s { h' with m_chunks := cs } s' where
  outside x hx := by
    refine grows.outside x fun c hc => hx c ?_
    rw [KingsleyAlloc.mmaps, carve_mmaps hcarve]
    exact hc
  copies := grows.copies
  pieces := by
    have hpieces : KingsleyAlloc.pieces { h' with m_chunks := cs } = h'.pieces := carve_pieces hcarve
    rw [hpieces]
    exact grows.pieces

theorem Grows.refl (h : KingsleyAlloc) (s : Store) : Grows answer h s h s :=
  ⟨fun _ _ => rfl, rfl, Or.inl ⟨rfl, rfl, rfl⟩⟩

theorem Brk_spec (laid : Laid h s.memory cells) (hpos : 0 < size) (hsize : size < m_defaultMmapSize)
    (hanswer : carve (cellSize size) h.m_chunks = none → Answers s.memory answer (some m_defaultMmapSize)) :
    ∃ a h' s', Brk (cellSize size) answer h s = some (a, h', s') ∧ cells a = none ∧
      h'.m_buckets = h.m_buckets ∧ Laid h' s'.memory (update cells a (some (.live size))) ∧
      Grows answer h s h' s' ∧ ∀ b use, cells b = some use → s.memory.Agree s'.memory b use.len := by
  have hdefault : 0 < m_defaultMmapSize := by decide
  have hsize' : size < 2 ^ 15 := hsize
  have fits : ∀ h' a, (Use.live size).Fits h' a := fun h' a =>
    ⟨hpos, by omega, fun hlarge => absurd hsize (not_lt.mpr hlarge)⟩
  rw [Brk]
  cases hcarve : carve (cellSize size) h.m_chunks with
  | some found =>
    obtain ⟨a, cs⟩ := found
    obtain ⟨hnone, hlaid⟩ := laid.carve hcarve rfl (fits h a)
    exact ⟨a, _, s, rfl, hnone, rfl, hlaid, (Grows.refl h s).carve hcarve, fun b use _ x _ _ => rfl⟩
  | none =>
    have hcell : cellSize size ≤ m_defaultMmapSize := by
      rw [cellSize_small hsize]
      exact pow_le_mmap (bucket_le hpos hsize)
    obtain ⟨cs, hfront⟩ := carve_front hcell s.fresh answer h.m_chunks
    have hlaid := laid.mmapAlloc hdefault (hanswer hcarve)
    have hlen : (Use.live size).len = cellSize size := rfl
    obtain ⟨hnone, hlaid⟩ := hlaid.carve hfront hlen (fits _ _)
    refine ⟨answer, { h with m_chunks := cs }, (MmapAlloc m_defaultMmapSize answer h s).2, ?_, hnone, rfl, hlaid,
      (mmapAlloc_grows hdefault (hanswer hcarve)).carve hfront,
      fun b use hb => mmapAlloc_agree laid hdefault (hanswer hcarve) hb⟩
    rw [if_pos hcell]
    exact congrArg (Option.map _) hfront

theorem Laid.push (laid : Laid h m cells) (hcell : cells a = some (.live size)) (hsize : size < m_defaultMmapSize) :
    m.storeWord a (h.m_buckets (SizeToBucket size)) = some (m.putWord a (h.m_buckets (SizeToBucket size))) ∧
      Laid { h with m_buckets := update h.m_buckets (SizeToBucket size) a }
      (m.putWord a (h.m_buckets (SizeToBucket size)))
        (update cells a (some (.free (SizeToBucket size)))) := by
  obtain ⟨hpos, -⟩ := laid.live_bounds a size hcell
  have hlen : (Use.free (SizeToBucket size)).len = (Use.live size).len := (cellSize_small hsize).symm
  have hmapped : m.Mapped a 8 :=
    (laid.cell_mapped hcell).sub le_rfl (Nat.add_le_add_left (Use.eight_le_len _) a)
  have hother : ∀ b use, b ≠ a → cells b = some use →
      m.Agree (m.putWord a (h.m_buckets (SizeToBucket size))) b 8 := by
    intro b use hne hb
    have hapart := laid.cells_apart b a use _ hne hb hcell
    have hlen₁ := use.eight_le_len
    have hlen₂ := (Use.live size).eight_le_len
    exact (putWord_agree (by omega)).symm
  have hnot : ∀ bucket, ∀ b, cells b = some (.free bucket) → b ≠ a := by
    rintro bucket b hb rfl
    rw [hcell] at hb
    cases hb
  refine ⟨storeWord_of_mapped hmapped, laid.reuse hcell hlen (bucket_le hpos hsize) (fun bucket => ?_)
    fun c hc => Mapped.putWord hmapped (laid.mapped c hc)⟩
  obtain ⟨list, hlist, nodup, hfree⟩ := laid.linked bucket
  have hlist' := hlist.congr fun b hb => hother b _ (hnot bucket b (hfree b hb)) (hfree b hb)
  by_cases hbucket : bucket = SizeToBucket size
  · rw [hbucket] at hlist' hfree ⊢
    refine ⟨a :: list, ?_, nodup_cons.mpr ⟨fun ha => hnot _ a (hfree a ha) rfl, nodup⟩, fun b hb => ?_⟩
    · rw [update_self]
      have hword : h.m_buckets (SizeToBucket size) < 2 ^ 64 := by
        rw [hbucket] at hlist
        cases list with
        | nil =>
          rw [show h.m_buckets (SizeToBucket size) = 0 from hlist]
          decide
        | cons head rest =>
          rw [hlist.1]
          have := (laid.cell_pos (hfree head (by simp))).2
          omega
      exact ⟨rfl, ne_of_gt (laid.cell_pos hcell).1, _, loadWord_putWord hword, hlist'⟩
    · rcases mem_cons.mp hb with rfl | hb
      · exact update_self ..
      · rw [update_of_ne (hnot _ b (hfree b hb))]
        exact hfree b hb
  · rw [update_of_ne hbucket]
    refine ⟨list, hlist', nodup, fun b hb => ?_⟩
    rw [update_of_ne (hnot _ b (hfree b hb))]
    exact hfree b hb

theorem Laid.pop (laid : Laid h m cells) (hpos : 0 < size) (hsize : size < m_defaultMmapSize)
    (hhead : h.m_buckets (SizeToBucket size) = a) (hne : a ≠ 0) :
    cells a = some (.free (SizeToBucket size)) ∧ ∃ next, m.loadWord a = some next ∧
        Laid { h with m_buckets := update h.m_buckets (SizeToBucket size) next } m
        (update cells a (some (.live size))) := by
  obtain ⟨list, hlist, nodup, hfree⟩ := laid.linked (SizeToBucket size)
  rw [hhead] at hlist
  obtain ⟨next, rest, rfl, hnext, hrest⟩ := hlist.cons_of_ne hne
  have hcell := hfree _ mem_cons_self
  have hsize' : size < 2 ^ 15 := hsize
  have hlen : (Use.live size).len = (Use.free (SizeToBucket size)).len := cellSize_small hsize
  have fits : (Use.live size).Fits h a :=
    ⟨hpos, by omega, fun hlarge => absurd hsize (not_lt.mpr hlarge)⟩
  refine ⟨hcell, next, hnext, laid.reuse hcell hlen fits (fun bucket => ?_) laid.mapped⟩
  by_cases hbucket : bucket = SizeToBucket size
  · rw [hbucket, update_self]
    refine ⟨rest, hrest, (nodup_cons.mp nodup).2, fun b hb => ?_⟩
    rw [update_of_ne]
    · exact hfree b (mem_cons_of_mem _ hb)
    · rintro rfl
      exact (nodup_cons.mp nodup).1 hb
  · rw [update_of_ne hbucket]
    obtain ⟨list', hlist', nodup', hfree'⟩ := laid.linked bucket
    refine ⟨list', hlist', nodup', fun b hb => ?_⟩
    rw [update_of_ne]
    · exact hfree' b hb
    · rintro rfl
      have heq := (hfree' _ hb).symm.trans hcell
      exact hbucket (by simpa using heq)

/-- `Malloc` gave the block at `a`. -/
structure Allocates (size answer : Nat) (h : KingsleyAlloc) (s : Store) (cells : Nat → Option Use) (a : Nat)
    (h' : KingsleyAlloc) (s' : Store) : Prop where
  laid : Laid h' s'.memory (update cells a (some (.live size)))
  unused : ∀ size', cells a ≠ some (.live size')
  kept : ∀ b size', cells b = some (.live size') → s.memory.Agree s'.memory b (cellSize size')
  grows : Grows answer h s h' s'

theorem Grows.withMemory (grows : Grows answer h s h' s') {n : Nat}
    {memory : Memory} {buckets : Nat → Nat} (hsame : ∀ x, x < a ∨ a + n ≤ x → memory x = s'.memory x)
    {c : Mmap} (hc : c ∈ h'.mmaps) (lower : c.buffer ≤ a) (upper : a + n ≤ c.buffer + c.size) :
    Grows answer h s { h' with m_buckets := buckets } { s' with memory := memory } where
  outside x hx := by
    have hin := hx c hc
    rw [Mmap.Has] at hin
    exact (hsame x (by omega)).trans (grows.outside x hx)
  copies := grows.copies
  pieces := grows.pieces

theorem Laid.in_piece (laid : Laid h m cells) {use : Use} (hcell : cells a = some use) :
    ∃ c ∈ h.mmaps, c.buffer ≤ a ∧ a + use.len ≤ c.buffer + c.size := by
  obtain ⟨c, hc, lower, upper⟩ := laid.inside a use hcell
  have hfits := c.fits
  exact ⟨c.mmap, mem_map_of_mem hc, lower, by omega⟩

/-- `Free` gave the cell at `a` back. -/
structure Releases (size : Nat) (h : KingsleyAlloc) (s : Store) (cells : Nat → Option Use) (a : Nat)
    (h' : KingsleyAlloc) (s' : Store) : Prop where
  laid : ∃ use, (∀ size', use ≠ some (.live size')) ∧ Laid h' s'.memory (update cells a use)
  kept : ∀ b use, b ≠ a → cells b = some use → s.memory.Agree s'.memory b use.len
  shared : s'.copies = s.copies ∧ s'.mmaps = s.mmaps ∧ s'.fresh = s.fresh
  pieces : (h'.pieces = h.pieces ∧ ∀ x, (∀ c ∈ h.mmaps, ¬ c.Has x) → s'.memory x = s.memory x) ∨
    (m_defaultMmapSize ≤ size ∧ ∃ before c after, h.m_chunks = before ++ c :: after ∧
      h'.m_chunks = before ++ after ∧ c.mmap.buffer = a ∧ c.mmap.size = size ∧
      s'.memory = s.memory.unmap c.mmap.buffer c.mmap.size)

variable (laid : Laid h s.memory cells)
include laid

theorem Malloc_small (hpos : 0 < size) (hsize : size < m_defaultMmapSize)
    (hanswer : Answers s.memory answer (maps size h)) :
    ∃ a h' s', Malloc size answer h s = some (a, h', s') ∧ Allocates size answer h s cells a h' s' := by
  rw [Malloc, if_pos hsize]
  by_cases hempty : h.m_buckets (SizeToBucket size) = 0
  · have hmaps : carve (cellSize size) h.m_chunks = none → Answers s.memory answer (some m_defaultMmapSize) := by
      intro hcarve
      rw [cellSize_small hsize] at hcarve
      have hasked : maps size h = some m_defaultMmapSize := by
        rw [maps, if_pos hsize, BucketToSize_eq (bucket_le hpos hsize)]
        exact if_pos ⟨hempty, hcarve⟩
      exact hasked ▸ hanswer
    obtain ⟨a, h₁, s₁, hbrk, hnone, hbuckets, laid₁, grows, kept⟩ := Brk_spec laid hpos hsize hmaps
    obtain ⟨hstore, laid₂⟩ := laid₁.push (update_self ..) hsize
    rw [hbuckets, hempty] at hstore laid₂
    have hne : a ≠ 0 := ne_of_gt (laid₁.cell_pos (update_self ..)).1
    have hhead : update h.m_buckets (SizeToBucket size) a (SizeToBucket size) = a := update_self ..
    obtain ⟨-, next, hnext, laid₃⟩ := laid₂.pop hpos hsize hhead hne
    rw [update_idem, update_idem, update_idem] at laid₃
    obtain ⟨c, hc, lower, upper⟩ := laid₁.in_piece (update_self ..)
    have hlen := (Use.live size).eight_le_len
    refine ⟨a, _, { s₁ with memory := s₁.memory.putWord a 0 }, ?_, laid₃, ?_, ?_,
      grows.withMemory (n := 8) (fun x hx => put_outside (by simpa using hx)) hc lower (by omega)⟩
    · simp only [hempty, if_true, BucketToSize_eq (bucket_le hpos hsize), ← cellSize_small hsize, bind_eq_bind,
        bind_some, hbrk, hstore, hbuckets, hhead, hnext, pure, update_idem]
    · rw [hnone]
      simp
    · intro b size' hb x h1 h2
      have hne : b ≠ a := by
        rintro rfl
        rw [hnone] at hb
        cases hb
      have hapart := laid₁.cells_apart b a _ _ hne ((update_of_ne hne ..).trans hb) (update_self ..)
      rw [Use.len] at hapart
      rw [kept b _ hb x h1 h2]
      exact (put_outside (by rw [encode_length]; omega)).symm
  · obtain ⟨hcell, next, hnext, laid'⟩ := laid.pop hpos hsize rfl hempty
    refine ⟨h.m_buckets (SizeToBucket size), _, s, ?_, laid', ?_, fun b size' _ x _ _ => rfl, ?_⟩
    · simp [hempty, hnext]
    · rw [hcell]
      simp
    · exact ⟨fun _ _ => rfl, rfl, .inl ⟨rfl, rfl, rfl⟩⟩

theorem Malloc_large (hlarge : m_defaultMmapSize ≤ size) (hsize : size < 2 ^ 32)
    (hanswer : Answers s.memory answer (maps size h)) :
    ∃ a h' s', Malloc size answer h s = some (a, h', s') ∧ Allocates size answer h s cells a h' s' := by
  have hdefault : 0 < m_defaultMmapSize := by decide
  have hpos : 0 < size := by omega
  rw [maps, if_neg (not_lt.mpr hlarge)] at hanswer
  obtain ⟨cs, hfront⟩ := carve_front (le_refl size) s.fresh answer h.m_chunks
  have fits : (Use.live size).Fits (MmapAlloc size answer h s).1 answer :=
    ⟨hpos, hsize, fun _ => ⟨⟨s.fresh, size, answer⟩, by simp [MmapAlloc, mmaps], rfl, rfl⟩⟩
  have hlen : (Use.live size).len = size := cellSize_large hlarge
  obtain ⟨hnone, laid'⟩ := (laid.mmapAlloc hpos hanswer).carve hfront hlen fits
  refine ⟨answer, { h with m_chunks := cs }, (MmapAlloc size answer h s).2, ?_, laid', ?_,
    fun b size' hb => mmapAlloc_agree laid hpos hanswer hb, (mmapAlloc_grows hpos hanswer).carve hfront⟩
  · rw [Malloc, if_neg (not_lt.mpr hlarge)]
    dsimp only
    rw [Brk]
    have hfront' : carve size (MmapAlloc size answer h s).1.m_chunks = some (answer, cs) := hfront
    rw [hfront']
    rfl
  · rw [hnone]
    simp

theorem Malloc_spec (hpos : 0 < size) (hsize : size < 2 ^ 32) (hanswer : Answers s.memory answer (maps size h)) :
    ∃ a h' s', Malloc size answer h s = some (a, h', s') ∧ Allocates size answer h s cells a h' s' := by
  rcases Nat.lt_or_ge size m_defaultMmapSize with small | large
  · exact Malloc_small laid hpos small hanswer
  · exact Malloc_large laid large hsize hanswer

variable (hcell : cells a = some (.live size))
include hcell

theorem Free_small (hsize : size < m_defaultMmapSize) :
    ∃ h' s', Free a size h s = some (h', s') ∧ Releases size h s cells a h' s' := by
  obtain ⟨hstore, laid'⟩ := laid.push hcell hsize
  have hlen := (Use.live size).eight_le_len
  obtain ⟨c, hc, lower, upper⟩ := laid.in_piece hcell
  refine ⟨{ h with m_buckets := update h.m_buckets (SizeToBucket size) a },
    { s with memory := s.memory.putWord a (h.m_buckets (SizeToBucket size)) }, ?_,
    ⟨some (.free (SizeToBucket size)), fun size' => ?_, laid'⟩, ?_, ⟨rfl, rfl, rfl⟩, .inl ⟨rfl, ?_⟩⟩
  · simp [Free, hsize, hstore]
  · simp
  · intro b use hne hb
    have hapart := laid.cells_apart b a use _ hne hb hcell
    exact (putWord_agree (by omega)).symm
  · intro x hx
    have hin := hx c hc
    rw [Mmap.Has] at hin
    exact put_outside (by rw [encode_length]; omega)

theorem Laid.erase (hlarge : m_defaultMmapSize ≤ size) {before after : List MmapChunk} {c : MmapChunk}
    (hchunks : h.m_chunks = before ++ c :: after) (hbuffer : c.mmap.buffer = a) (hsize : c.mmap.size = size) :
    Laid { h with m_chunks := before ++ after } (s.memory.unmap a size) (update cells a none) ∧
      ∀ b use, b ≠ a → cells b = some use → s.memory.Agree (s.memory.unmap a size) b use.len := by
  have hcellSize : (Use.live size).len = size := cellSize_large hlarge
  have hold : ∀ b use, update cells a none b = some use → b ≠ a ∧ cells b = some use := by
    intro b use hb
    by_cases hne : b = a
    · rw [hne, update_self] at hb
      cases hb
    · rw [update_of_ne hne] at hb
      exact ⟨hne, hb⟩
  have hsub : ∀ d ∈ before ++ after, d ∈ h.m_chunks := by
    intro d hd
    rw [hchunks]
    rcases mem_append.mp hd with hd | hd
    · exact mem_append_left _ hd
    · exact mem_append_right _ (mem_cons_of_mem c hd)
  have hmmaps : h.mmaps = before.map MmapChunk.mmap ++ c.mmap :: after.map MmapChunk.mmap := by
    rw [mmaps, hchunks, map_append, map_cons]
  have hsubm : ∀ d ∈ mmaps { h with m_chunks := before ++ after }, d ∈ h.mmaps ∧ c.mmap.Apart d := by
    intro d hd
    rw [mmaps, map_append] at hd
    have apart := laid.apart
    rw [hmmaps, pairwise_append, pairwise_cons] at apart
    rcases mem_append.mp hd with hd | hd
    · exact ⟨by simp [hmmaps, hd], (apart.2.2 d hd c.mmap (by simp)).symm⟩
    · exact ⟨by simp [hmmaps, hd], apart.2.1.1 d hd⟩
  have hagree : ∀ b use, b ≠ a → cells b = some use → s.memory.Agree (s.memory.unmap a size) b use.len := by
    intro b use hne hb
    have hapart := laid.cells_apart b a use _ hne hb hcell
    exact (unmap_agree (by omega)).symm
  refine ⟨?_, hagree⟩
  exact {
    bounds := fun d hd => laid.bounds d (hsubm d hd).1
    apart := by
      have apart := laid.apart
      rw [hmmaps] at apart
      rw [mmaps, map_append]
      exact apart.sublist (Sublist.append_left (sublist_cons_self ..) _)
    mapped := by
      intro d hd
      obtain ⟨hin, hapart⟩ := hsubm d hd
      have hagree : (s.memory.unmap a size).Agree s.memory d.buffer d.size :=
        unmap_agree (by rw [Mmap.Apart] at hapart; omega)
      exact hagree.symm.mapped (laid.mapped d hin)
    inside := by
      intro b use hb
      obtain ⟨hne, hb⟩ := hold b use hb
      obtain ⟨d, hd, lower, upper⟩ := laid.inside b use hb
      have hapart := laid.cells_apart b a use _ hne hb hcell
      have hlen := use.eight_le_len
      have hfits := d.fits
      rw [hchunks] at hd
      rcases mem_append.mp hd with hd | hd
      · exact ⟨d, mem_append_left _ hd, lower, upper⟩
      · rcases mem_cons.mp hd with rfl | hd
        · omega
        · exact ⟨d, mem_append_right _ hd, lower, upper⟩
    cells_apart := fun b d use use' hne hb hd =>
      laid.cells_apart b d use use' hne (hold b use hb).2 (hold d use' hd).2
    live_bounds := fun b size' hb => laid.live_bounds b size' (hold b _ hb).2
    large := by
      intro b size' hb hlarge'
      obtain ⟨hne, hb⟩ := hold b _ hb
      obtain ⟨d, hd, hdb, hds⟩ := laid.large b size' hb hlarge'
      refine ⟨d, ?_, hdb, hds⟩
      rw [mmaps, map_append]
      rw [hmmaps] at hd
      rcases mem_append.mp hd with hd | hd
      · exact mem_append_left _ hd
      · rcases mem_cons.mp hd with rfl | hd
        · exact absurd (hdb.symm.trans hbuffer) hne
        · exact mem_append_right _ hd
    free_bounds := fun b bucket hb => laid.free_bounds b bucket (hold b _ hb).2
    linked := by
      intro bucket
      obtain ⟨list, hlist, nodup, hfree⟩ := laid.linked bucket
      have hne : ∀ b ∈ list, b ≠ a := by
        rintro b hb rfl
        rw [hfree b hb] at hcell
        cases hcell
      refine ⟨list, hlist.congr fun b hb => ?_, nodup, fun b hb => ?_⟩
      · exact (hagree b _ (hne b hb) (hfree b hb)).sub le_rfl (Nat.add_le_add_left (Use.eight_le_len _) b)
      · rw [update_of_ne (hne b hb)]
        exact hfree b hb }

theorem Free_large (hlarge : m_defaultMmapSize ≤ size) :
    ∃ h' s', Free a size h s = some (h', s') ∧ Releases size h s cells a h' s' := by
  obtain ⟨d, hd, hbuffer, hsize⟩ := laid.large a size hcell hlarge
  obtain ⟨c, hc, rfl⟩ := mem_map.mp hd
  have hfound : (decide (c.mmap.buffer = a ∧ c.mmap.size = size)) = true := decide_eq_true ⟨hbuffer, hsize⟩
  have hany : (h.m_chunks.any fun c => c.mmap.buffer = a ∧ c.mmap.size = size) = true :=
    any_eq_true.mpr ⟨c, hc, hfound⟩
  obtain ⟨c', before, after, -, hc', hchunks, herase⟩ := exists_of_eraseP
    (p := fun c : MmapChunk => decide (c.mmap.buffer = a ∧ c.mmap.size = size)) hc hfound
  obtain ⟨hbuffer', hsize'⟩ := of_decide_eq_true hc'
  obtain ⟨laid', hagree⟩ := laid.erase hcell hlarge hchunks hbuffer' hsize'
  refine ⟨{ h with m_chunks := before ++ after }, MmapFree a size s, ?_,
    ⟨none, fun size' => by simp, laid'⟩, hagree, ⟨rfl, rfl, rfl⟩,
    .inr ⟨hlarge, before, c', after, hchunks, rfl, hbuffer', hsize', ?_⟩⟩
  · rw [Free, if_neg (not_lt.mpr hlarge), if_pos hany, herase]
    rfl
  · rw [hbuffer', hsize']
    rfl

theorem Free_spec : ∃ h' s', Free a size h s = some (h', s') ∧ Releases size h s cells a h' s' := by
  rcases Nat.lt_or_ge size m_defaultMmapSize with small | large
  · exact Free_small laid hcell small
  · exact Free_large laid hcell large

omit laid hcell in
theorem Laid.write (laid : Laid h m cells) {b : Nat} (hcell : cells a = some (.live size))
    (bytes : List UInt8) (lower : a ≤ b) (upper : b + bytes.length ≤ a + cellSize size) :
    m.Mapped b bytes.length ∧ Laid h (m.put b bytes) cells ∧
      (∀ d use, d ≠ a → cells d = some use → m.Agree (m.put b bytes) d use.len) ∧
      ∀ x, (∀ c ∈ h.mmaps, ¬ c.Has x) → m.put b bytes x = m x := by
  have hmapped : m.Mapped b bytes.length := (laid.cell_mapped hcell).sub lower upper
  have hkept : ∀ d use, d ≠ a → cells d = some use → m.Agree (m.put b bytes) d use.len := by
    intro d use hne hd
    have hapart := laid.cells_apart d a use _ hne hd hcell
    rw [show (Use.live size).len = cellSize size from rfl] at hapart
    exact (put_agree (by omega)).symm
  refine ⟨hmapped, laid.congr (fun c hc => Mapped.put hmapped (laid.mapped c hc)) ?_, hkept, ?_⟩
  · intro d bucket hd
    have hne : d ≠ a := by
      rintro rfl
      rw [hcell] at hd
      cases hd
    exact (hkept d _ hne hd).sub le_rfl (Nat.add_le_add_left (Use.eight_le_len _) d)
  · intro x hx
    obtain ⟨c, hc, lower', upper'⟩ := laid.in_piece hcell
    have hin := hx c hc
    rw [Mmap.Has] at hin
    rw [show (Use.live size).len = cellSize size from rfl] at upper'
    exact put_outside (by omega)

theorem Realloc_spec {newSize : Nat}
    (hgrows : size ≤ newSize) (hsize : newSize < 2 ^ 32) (hanswer : Answers s.memory answer (maps newSize h)) :
    ∃ b h₁ s₁ bytes h' s', Realloc a size newSize answer h s = some (b, h', s') ∧
      Allocates newSize answer h s cells b h₁ s₁ ∧ s.memory.load a size = some bytes ∧ a ≠ b ∧
      Laid h₁ (s₁.memory.put b bytes) (update cells b (some (.live newSize))) ∧
      Releases size h₁ { s₁ with memory := s₁.memory.put b bytes }
      (update cells b (some (.live newSize))) a h' s' := by
  obtain ⟨hpos, hsize'⟩ := laid.live_bounds a size hcell
  obtain ⟨b, h₁, s₁, hmalloc, allocates⟩ := Malloc_spec laid (by omega) hsize hanswer
  have hle := le_cellSize hpos (by omega : size ≤ 2 ^ 32)
  have hle' := le_cellSize (by omega : 0 < newSize) (by omega : newSize ≤ 2 ^ 32)
  obtain ⟨bytes, hload⟩ := load_of_mapped ((laid.cell_mapped hcell).sub le_rfl (Nat.add_le_add_left hle a))
  have hne : a ≠ b := by
    rintro rfl
    exact allocates.unused size hcell
  have hload₁ : s₁.memory.load a size = some bytes := by
    rw [← hload]
    exact (load_congr ((allocates.kept a size hcell).sub le_rfl (by omega))).symm
  have hlength := load_length hload
  obtain ⟨hmapped, laid₁, -⟩ := allocates.laid.write (update_self ..) bytes le_rfl (by omega)
  have hcell₁ : update cells b (some (.live newSize)) a = some (.live size) :=
    (update_of_ne hne ..).trans hcell
  obtain ⟨h', s', hfree, releases⟩ := Free_spec (s := { s₁ with memory := s₁.memory.put b bytes }) laid₁ hcell₁
  refine ⟨b, h₁, s₁, bytes, h', s', ?_, allocates, hload, hne, laid₁, releases⟩
  simp only [Realloc, not_lt.mpr hgrows, if_false, hmalloc, bind_eq_bind, bind_some, hload₁,
    store_of_mapped hmapped, hfree, pure]

end

end Dce.Heap
