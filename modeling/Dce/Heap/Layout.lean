import Dce.Heap.Model
import Mathlib.Data.List.Pairwise

/- How the memory of one heap is divided into cells, and that its calls keep it so. -/

namespace Dce.Heap

open Function List

variable {turns size bucket needed : Nat} {cs cs' : List MmapChunk}

theorem shifts_spec {n : Nat} (h : n < 8 * 2 ^ turns) : n < 8 * 2 ^ shifts turns n := by
  induction turns generalizing n with
  | zero => exact h
  | succ turns ih =>
    rw [shifts]
    split
    · have half := ih (n := n / 2) (by rw [pow_succ] at h; omega)
      omega
    · omega

theorem shifts_le {n k : Nat} (h : n < 8 * 2 ^ k) : shifts turns n ≤ k := by
  induction turns generalizing n k with
  | zero => exact Nat.zero_le k
  | succ turns ih =>
    rw [shifts]
    split
    · cases k with
      | zero => omega
      | succ k =>
        have half := ih (n := n / 2) (k := k) (by rw [pow_succ] at h; omega)
        omega
    · omega

theorem SizeToBucket_eq (hpos : 0 < size) : SizeToBucket size = shifts 32 (size - 1) := by
  rw [SizeToBucket, if_neg (by omega)]

theorem le_bucket (hpos : 0 < size) (hsize : size ≤ 2 ^ 32) : size ≤ 2 ^ (SizeToBucket size + 3) := by
  have h : size - 1 < 8 * 2 ^ shifts 32 (size - 1) := shifts_spec (by omega)
  rw [SizeToBucket_eq hpos, pow_add]
  omega

theorem bucket_le (hpos : 0 < size) (hsize : size < m_defaultMmapSize) : SizeToBucket size ≤ 12 := by
  have hsize' : size < 2 ^ 15 := hsize
  rw [SizeToBucket_eq hpos]
  exact shifts_le (by omega)

theorem four_pow_shifts_le (turns n : Nat) : shifts turns n = 0 ∨ 4 * 2 ^ shifts turns n ≤ n := by
  induction turns generalizing n with
  | zero => exact .inl rfl
  | succ turns ih =>
    rw [shifts]
    split
    · rcases ih (n / 2) with none | half
      · rw [none]
        omega
      · rw [pow_succ]
        omega
    · exact .inl rfl

theorem BucketToSize_eq (h : bucket ≤ 12) : BucketToSize bucket = some (2 ^ (bucket + 3)) :=
  if_pos (by omega)

/-- The loop of `SizeToBucket`, from a `size` and a `bucket` on, ends with the bucket `last`. -/
inductive Turns : Nat → Nat → Nat → Prop
  | done {size bucket : Nat} : ¬ 7 < size → Turns size bucket bucket
  | turn {size bucket last : Nat} : 7 < size → Turns (size / 2) (bucket + 1) last → Turns size bucket last

theorem turns_shifts (h : size < 8 * 2 ^ turns) : Turns size bucket (bucket + shifts turns size) := by
  induction turns generalizing size bucket with
  | zero => exact .done (by omega)
  | succ turns ih =>
    rw [shifts]
    split
    next more =>
      have rest : Turns (size / 2) (bucket + 1) (bucket + 1 + shifts turns (size / 2)) :=
        ih (by rw [pow_succ] at h; omega)
      rw [Nat.add_right_comm] at rest
      exact .turn more rest
    next small =>
      exact .done small

/-- What should hold of the classes of sizes. -/
structure SizeClass (s : Nat) : Prop where
  ends : Turns (s - 1) 0 (SizeToBucket s)
  fits : ∃ size, BucketToSize (SizeToBucket s) = some size ∧ s ≤ size ∧ size < 2 * max s 8
  monotone : ∀ r, 1 ≤ r → r ≤ s → SizeToBucket r ≤ SizeToBucket s

theorem sizeClass (s : Nat) (hpos : 1 ≤ s) (hsize : s < 2 ^ 15) : SizeClass s := by
  have hshifts := SizeToBucket_eq hpos
  have hlt : s - 1 < 8 * 2 ^ 32 := by omega
  refine ⟨?_, ⟨_, BucketToSize_eq (bucket_le hpos hsize), le_bucket hpos (by omega), ?_⟩, fun r hr hle => ?_⟩
  · have ends : Turns (s - 1) 0 (0 + shifts 32 (s - 1)) := turns_shifts hlt
    rwa [Nat.zero_add, ← hshifts] at ends
  · rw [hshifts, pow_add]
    rcases four_pow_shifts_le 32 (s - 1) with none | below
    · rw [none]
      omega
    · omega
  · have above := shifts_spec hlt
    rw [hshifts, SizeToBucket_eq hr]
    exact shifts_le (lt_of_le_of_lt (Nat.sub_le_sub_right hle 1) above)

theorem sizeClass_nine : SizeClass 9 := sizeClass 9 (by decide) (by decide)

/-- The bytes that a block of `size` takes. -/
def cellSize (size : Nat) : Nat := if size < m_defaultMmapSize then 2 ^ (SizeToBucket size + 3) else size

theorem cellSize_small (h : size < m_defaultMmapSize) : cellSize size = 2 ^ (SizeToBucket size + 3) :=
  if_pos h

theorem cellSize_large (h : m_defaultMmapSize ≤ size) : cellSize size = size :=
  if_neg (Nat.not_lt.mpr h)

theorem le_cellSize (hpos : 0 < size) (hsize : size ≤ 2 ^ 32) : size ≤ cellSize size := by
  rw [cellSize]
  split
  · exact le_bucket hpos hsize
  · exact le_rfl

theorem eight_le_pow (bucket : Nat) : 8 ≤ 2 ^ (bucket + 3) :=
  Nat.pow_le_pow_right (show 0 < 2 by decide) (Nat.le_add_left 3 bucket)

theorem pow_le_mmap (h : bucket ≤ 12) : 2 ^ (bucket + 3) ≤ m_defaultMmapSize :=
  Nat.pow_le_pow_right (show 0 < 2 by decide) (Nat.add_le_add_right h 3)

inductive Use
  | live (size : Nat)
  | free (bucket : Nat)
  deriving DecidableEq, Repr

def Use.len : Use → Nat
  | .live size => cellSize size
  | .free bucket => 2 ^ (bucket + 3)

theorem Use.eight_le_len (use : Use) : 8 ≤ use.len := by
  cases use with
  | live size =>
    rw [Use.len, cellSize]
    split
    · exact eight_le_pow _
    next large =>
      rw [m_defaultMmapSize] at large
      omega
  | free bucket => exact eight_le_pow bucket

def Mmap.Apart (c d : Mmap) : Prop := c.buffer + c.size ≤ d.buffer ∨ d.buffer + d.size ≤ c.buffer

def Mmap.Has (c : Mmap) (x : Nat) : Prop := c.buffer ≤ x ∧ x < c.buffer + c.size

def KingsleyAlloc.mmaps (h : KingsleyAlloc) : List Mmap := h.m_chunks.map MmapChunk.mmap

/-- `cells` says where the cells of the heap begin and what each is used for. A free cell need not be
on the list of its bucket: it may be lost. -/
structure Laid (h : KingsleyAlloc) (m : Memory) (cells : Nat → Option Use) : Prop where
  bounds : ∀ c ∈ h.mmaps, 0 < c.buffer ∧ 0 < c.size ∧ c.buffer + c.size < 2 ^ 64
  apart : h.mmaps.Pairwise Mmap.Apart
  mapped : ∀ c ∈ h.mmaps, m.Mapped c.buffer c.size
  inside : ∀ a use, cells a = some use → ∃ c ∈ h.m_chunks, c.mmap.buffer ≤ a ∧ a + use.len ≤ c.mmap.buffer + c.brk
  cells_apart : ∀ a b use use', a ≠ b → cells a = some use → cells b = some use' → a + use.len ≤ b ∨ b + use'.len ≤ a
  live_bounds : ∀ a size, cells a = some (.live size) → 0 < size ∧ size < 2 ^ 32
  large : ∀ a size, cells a = some (.live size) → m_defaultMmapSize ≤ size →
    ∃ c ∈ h.mmaps, c.buffer = a ∧ c.size = size
  free_bounds : ∀ a bucket, cells a = some (.free bucket) → bucket ≤ 12
  linked : ∀ bucket, ∃ list, m.Linked (h.m_buckets bucket) list ∧ list.Nodup ∧
    ∀ a ∈ list, cells a = some (.free bucket)

theorem Laid.new (m : Memory) : Laid .new m fun _ => none where
  bounds _ hc := absurd hc (by simp [KingsleyAlloc.mmaps, KingsleyAlloc.new])
  apart := .nil
  mapped _ hc := absurd hc (by simp [KingsleyAlloc.mmaps, KingsleyAlloc.new])
  inside _ _ hcell := nomatch hcell
  cells_apart _ _ _ _ _ hcell := nomatch hcell
  live_bounds _ _ hcell := nomatch hcell
  large _ _ hcell := nomatch hcell
  free_bounds _ _ hcell := nomatch hcell
  linked _ := ⟨[], rfl, .nil, fun _ ha => nomatch ha⟩

theorem carve_spec {a : Nat} (h : carve needed cs = some (a, cs')) :
    ∃ (before : List MmapChunk) (c : MmapChunk) (after : List MmapChunk) (room : needed ≤ c.mmap.size - c.brk),
      cs = before ++ c :: after ∧
      a = c.mmap.buffer + c.brk ∧
      cs' = before ++ { c with brk := c.brk + needed, fits := MmapChunk.grown_fits room } :: after := by
  induction cs generalizing a cs' with
  | nil => exact absurd h (by simp [carve])
  | cons c cs ih =>
    rw [carve] at h
    split at h
    next room =>
      obtain ⟨rfl, rfl⟩ := Prod.mk.inj (Option.some.inj h)
      exact ⟨[], c, cs, room, rfl, rfl, rfl⟩
    · obtain ⟨found, hfound, heq⟩ := Option.map_eq_some_iff.mp h
      obtain ⟨rfl, rfl⟩ := Prod.mk.inj heq
      obtain ⟨before, d, after, room, rfl, ha, hcs⟩ := ih hfound
      exact ⟨c :: before, d, after, room, rfl, ha, by rw [hcs]; rfl⟩

theorem carve_mmaps {a : Nat} (h : carve needed cs = some (a, cs')) :
    cs'.map MmapChunk.mmap = cs.map MmapChunk.mmap := by
  obtain ⟨before, c, after, room, rfl, -, rfl⟩ := carve_spec h
  simp

section

variable {h : KingsleyAlloc} {m m' : Memory} {cells : Nat → Option Use}

variable {c : MmapChunk} {a needed : Nat} {use : Use}

/-- What a new cell at `a` has to meet. -/
def Use.Fits (h : KingsleyAlloc) (a : Nat) : Use → Prop
  | .live size => 0 < size ∧ size < 2 ^ 32 ∧
      (m_defaultMmapSize ≤ size → ∃ c ∈ h.mmaps, c.buffer = a ∧ c.size = size)
  | .free bucket => bucket ≤ 12

section

variable (laid : Laid h m cells)
include laid

theorem Laid.chunk_apart {d : MmapChunk} (hc : c ∈ h.m_chunks) (hd : d ∈ h.m_chunks) :
    c = d ∨ c.mmap.Apart d.mmap := by
  have apart : h.m_chunks.Pairwise fun c d => c = d ∨ c.mmap.Apart d.mmap :=
    (pairwise_map.mp laid.apart).imp Or.inr
  have symm : Std.Symm fun c d : MmapChunk => c = d ∨ c.mmap.Apart d.mmap :=
    ⟨fun c d hcd => hcd.imp Eq.symm Or.symm⟩
  exact Pairwise.forall_of_forall (R := fun c d : MmapChunk => c = d ∨ c.mmap.Apart d.mmap) (fun c _ =>
    .inl rfl) apart hc hd

theorem Laid.congr (mapped : ∀ c ∈ h.mmaps, m'.Mapped c.buffer c.size)
    (same : ∀ a bucket, cells a = some (.free bucket) → m.Agree m' a 8) : Laid h m' cells :=
  { laid with
    mapped := mapped
    linked := fun bucket => by
      obtain ⟨list, hlist, nodup, hfree⟩ := laid.linked bucket
      exact ⟨list, hlist.congr fun a ha => same a bucket (hfree a ha), nodup, hfree⟩ }

omit laid in
theorem update_cases {b : Nat} {use' : Use} (hb : update cells a (some use) b = some use') :
    (b = a ∧ use' = use) ∨ (b ≠ a ∧ cells b = some use') := by
  by_cases hba : b = a
  · rw [hba, update_self] at hb
    exact .inl ⟨hba, (Option.some.inj hb).symm⟩
  · rw [update_of_ne hba] at hb
    exact .inr ⟨hba, hb⟩

theorem Laid.cell_mapped (hcell : cells a = some use) : m.Mapped a use.len := by
  obtain ⟨c, hc, lower, upper⟩ := laid.inside a use hcell
  have hfits := c.fits
  exact (laid.mapped c.mmap (mem_map_of_mem hc)).sub lower (by omega)

theorem Laid.cell_pos (hcell : cells a = some use) : 0 < a ∧ a + use.len < 2 ^ 64 := by
  obtain ⟨c, hc, lower, upper⟩ := laid.inside a use hcell
  have hfits := c.fits
  have hbounds := laid.bounds c.mmap (mem_map_of_mem hc)
  omega

theorem Laid.reuse {old : Use} (hcell : cells a = some old) (hlen : use.len = old.len) (fits : use.Fits h a)
    {buckets : Nat → Nat}
    (hlists : ∀ bucket, ∃ list, m'.Linked (buckets bucket) list ∧ list.Nodup ∧
      ∀ b ∈ list, update cells a (some use) b = some (.free bucket))
    (mapped : ∀ c ∈ h.mmaps, m'.Mapped c.buffer c.size) :
    Laid { h with m_buckets := buckets } m' (update cells a (some use)) where
  bounds := laid.bounds
  apart := laid.apart
  mapped := mapped
  inside b use' hb := by
    rcases update_cases hb with ⟨rfl, rfl⟩ | ⟨-, hb⟩
    · rw [hlen]
      exact laid.inside b old hcell
    · exact laid.inside b use' hb
  cells_apart b d use₁ use₂ hne hb hd := by
    have holds : ∀ b use', update cells a (some use) b = some use' →
        ∃ before, cells b = some before ∧ before.len = use'.len := by
      intro b use' hb
      rcases update_cases hb with ⟨rfl, rfl⟩ | ⟨-, hb⟩
      · exact ⟨old, hcell, hlen.symm⟩
      · exact ⟨use', hb, rfl⟩
    obtain ⟨old₁, hold₁, hlen₁⟩ := holds b use₁ hb
    obtain ⟨old₂, hold₂, hlen₂⟩ := holds d use₂ hd
    rw [← hlen₁, ← hlen₂]
    exact laid.cells_apart b d old₁ old₂ hne hold₁ hold₂
  live_bounds b size hb := by
    rcases update_cases hb with ⟨rfl, rfl⟩ | ⟨-, hb⟩
    · exact ⟨fits.1, fits.2.1⟩
    · exact laid.live_bounds b size hb
  large b size hb hsize := by
    rcases update_cases hb with ⟨rfl, rfl⟩ | ⟨-, hb⟩
    · exact fits.2.2 hsize
    · exact laid.large b size hb hsize
  free_bounds b bucket hb := by
    rcases update_cases hb with ⟨rfl, rfl⟩ | ⟨-, hb⟩
    · exact fits
    · exact laid.free_bounds b bucket hb
  linked := hlists

theorem Laid.unused (hc : c ∈ h.m_chunks)
    (hpos : 0 < needed) (room : needed ≤ c.mmap.size - c.brk) {b : Nat} (hb : cells b = some use) :
    c.mmap.buffer + c.brk + needed ≤ b ∨ b + use.len ≤ c.mmap.buffer + c.brk := by
  obtain ⟨d, hd, lower, upper⟩ := laid.inside b use hb
  have hfits := d.fits
  rcases laid.chunk_apart hc hd with rfl | hapart
  · exact .inr upper
  · rw [Mmap.Apart] at hapart
    omega

theorem Laid.carve {cs : List MmapChunk}
    (hcarve : Heap.carve needed h.m_chunks = some (a, cs)) (hlen : use.len = needed) (fits : use.Fits h a) :
    cells a = none ∧ Laid { h with m_chunks := cs } m (update cells a (some use)) := by
  have hmmaps := carve_mmaps hcarve
  obtain ⟨before, c, after, room, hcs, rfl, hcs'⟩ := carve_spec hcarve
  have hc : c ∈ h.m_chunks := by simp [hcs]
  have hpos : 0 < needed := by
    have := use.eight_le_len
    omega
  have hnone : cells (c.mmap.buffer + c.brk) = none := by
    cases hcell : cells (c.mmap.buffer + c.brk) with
    | none => rfl
    | some use' =>
      have hunused := laid.unused hc hpos room hcell
      have := use'.eight_le_len
      omega
  have hsame : KingsleyAlloc.mmaps { h with m_chunks := cs } = h.mmaps := hmmaps
  refine ⟨hnone, ?_⟩
  exact {
    bounds := fun d hd => laid.bounds d (hsame ▸ hd)
    apart := hsame ▸ laid.apart
    mapped := fun d hd => laid.mapped d (hsame ▸ hd)
    inside := by
      intro b use' hb
      rcases update_cases hb with ⟨rfl, rfl⟩ | ⟨-, hb⟩
      · refine ⟨{ c with brk := c.brk + needed, fits := MmapChunk.grown_fits room }, by simp [hcs'], ?_⟩
        dsimp only
        omega
      · obtain ⟨d, hd, lower, upper⟩ := laid.inside b use' hb
        rw [hcs] at hd
        rcases mem_append.mp hd with hd | hd
        · exact ⟨d, by simp [hcs', hd], lower, upper⟩
        · rcases mem_cons.mp hd with rfl | hd
          · refine ⟨{ d with brk := d.brk + needed, fits := MmapChunk.grown_fits room }, by simp [hcs'], lower, ?_⟩
            dsimp only
            omega
          · exact ⟨d, by simp [hcs', hd], lower, upper⟩
    cells_apart := by
      intro b d use₁ use₂ hne hb hd
      rcases update_cases hb with ⟨rfl, rfl⟩ | ⟨-, hold⟩
      · rcases update_cases hd with ⟨rfl, -⟩ | ⟨-, hd⟩
        · exact absurd rfl hne
        · rw [hlen]
          exact laid.unused hc hpos room hd
      · rcases update_cases hd with ⟨rfl, rfl⟩ | ⟨-, hd⟩
        · rw [hlen]
          exact (laid.unused hc hpos room hold).symm
        · exact laid.cells_apart b d use₁ use₂ hne hold hd
    live_bounds := by
      intro b size hb
      rcases update_cases hb with ⟨rfl, rfl⟩ | ⟨-, hb⟩
      · exact ⟨fits.1, fits.2.1⟩
      · exact laid.live_bounds b size hb
    large := by
      intro b size hb hsize
      rcases update_cases hb with ⟨rfl, rfl⟩ | ⟨-, hb⟩
      · exact hsame ▸ fits.2.2 hsize
      · exact hsame ▸ laid.large b size hb hsize
    free_bounds := by
      intro b bucket hb
      rcases update_cases hb with ⟨rfl, rfl⟩ | ⟨-, hb⟩
      · exact fits
      · exact laid.free_bounds b bucket hb
    linked := by
      intro bucket
      obtain ⟨list, hlist, nodup, hfree⟩ := laid.linked bucket
      refine ⟨list, hlist, nodup, fun b hb => ?_⟩
      rw [update_of_ne]
      · exact hfree b hb
      · rintro rfl
        rw [hfree _ hb] at hnone
        exact nomatch hnone }

end

theorem Laid.mmapAlloc {s : Store} (laid : Laid h s.memory cells) {size answer : Nat} (hpos : 0 < size)
    (hanswer : Answers s.memory answer (some size)) :
    Laid (MmapAlloc size answer h s).1 (MmapAlloc size answer h s).2.memory cells := by
  obtain ⟨hnull, hend, hfree⟩ := hanswer size rfl
  have hapart : ∀ c ∈ h.mmaps, Mmap.Apart ⟨s.fresh, size, answer⟩ c := fun c hc =>
    hfree.apart (laid.mapped c hc) hpos (laid.bounds c hc).2.1
  have hmmaps : (MmapAlloc size answer h s).1.mmaps = ⟨s.fresh, size, answer⟩ :: h.mmaps := rfl
  have hkept : ∀ c ∈ h.mmaps, (s.memory.map answer size).Agree s.memory c.buffer c.size := fun c hc =>
    Memory.map_agree (hapart c hc)
  have hcell : ∀ a use, cells a = some use → s.memory.Agree (s.memory.map answer size) a use.len := by
    intro a use ha
    obtain ⟨c, hc, lower, upper⟩ := laid.inside a use ha
    have hfits := c.fits
    exact (hkept c.mmap (mem_map_of_mem hc)).symm.sub lower (by omega)
  exact {
    bounds := by
      intro c hc
      rcases mem_cons.mp hc with rfl | hc
      · exact ⟨hnull, hpos, hend⟩
      · exact laid.bounds c hc
    apart := by
      exact .cons hapart laid.apart
    mapped := by
      intro c hc
      rcases mem_cons.mp hc with rfl | hc
      · exact Memory.map_mapped
      · exact (hkept c hc).symm.mapped (laid.mapped c hc)
    inside := by
      intro a use ha
      obtain ⟨c, hc, bounds⟩ := laid.inside a use ha
      exact ⟨c, mem_cons_of_mem _ hc, bounds⟩
    cells_apart := laid.cells_apart
    live_bounds := laid.live_bounds
    large := by
      intro a size' ha hsize
      obtain ⟨c, hc, bounds⟩ := laid.large a size' ha hsize
      exact ⟨c, mem_cons_of_mem _ hc, bounds⟩
    free_bounds := laid.free_bounds
    linked := by
      intro bucket
      obtain ⟨list, hlist, nodup, hfree⟩ := laid.linked bucket
      refine ⟨list, hlist.congr fun a ha => ?_, nodup, hfree⟩
      exact (hcell a _ (hfree a ha)).sub le_rfl (Nat.add_le_add_left (Use.eight_le_len _) a) }

end

end Dce.Heap
