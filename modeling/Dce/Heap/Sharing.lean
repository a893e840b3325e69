import Dce.Heap.Calls

/- The pieces of memory that the heaps of several processes share, each with a copy of its own. -/

namespace Dce.Heap

open Function List Option

/-- A piece of memory in the heap of one process, and the key of its copy. -/
abbrev Piece := Mmap × Option Nat

/-- The bytes of `s` at `x` that are those of the owner of a piece: the mapped ones where they are this
owner's, else those in its copy. -/
def Store.holds (s : Store) (piece : Piece) (x : Nat) : Option UInt8 :=
  match piece.2 with
  | none => s.memory x
  | some key =>
    if (s.mmaps piece.1.id).map Shared.current = some (.copy key) then s.memory x
    else (s.copies key).bind fun bytes => bytes[x - piece.1.buffer]?

/-- The bytes that are mapped at a piece are those of its owner. -/
def Store.Loaded (s : Store) (piece : Piece) : Prop :=
  ∀ key, piece.2 = some key → (s.mmaps piece.1.id).map Shared.current = some (.copy key)

/-- `own` gives the pieces of each process. -/
structure Sharing (own : Nat → Set Piece) (s : Store) : Prop where
  counted : ∀ p piece, piece ∈ own p → ∃ shared holders, s.mmaps piece.1.id = some shared ∧
    List.Nodup holders ∧ holders.length = shared.refcount ∧
    ∀ q, q ∈ holders ↔ ∃ other ∈ own q, other.1.id = piece.1.id
  once : ∀ p c k l, (c, k) ∈ own p → (c, l) ∈ own p → k = l
  same : ∀ p q piece other, piece ∈ own p → other ∈ own q → piece.1.id = other.1.id → piece.1 = other.1
  apart : ∀ p q piece other, piece ∈ own p → other ∈ own q → piece.1.id ≠ other.1.id → piece.1.Apart other.1
  mapped : ∀ p piece, piece ∈ own p → 0 < piece.1.size ∧ s.memory.Mapped piece.1.buffer piece.1.size
  sole : ∀ p c shared, (c, none) ∈ own p → s.mmaps c.id = some shared →
    shared.refcount = 1 ∧ ∀ key, shared.current ≠ .copy key
  copied : ∀ p c key, (c, some key) ∈ own p → ∃ bytes, s.copies key = some bytes ∧ bytes.length = c.size
  keys : ∀ p q c d key, (c, some key) ∈ own p → (d, some key) ∈ own q → p = q ∧ c.id = d.id
  held : ∀ p piece shared key, piece ∈ own p → s.mmaps piece.1.id = some shared → shared.current = .copy key →
    ∃ q, (piece.1, some key) ∈ own q
  fresh_id : ∀ p piece, piece ∈ own p → piece.1.id < s.fresh
  fresh_key : ∀ p c key, (c, some key) ∈ own p → key < s.fresh

section

variable {own : Nat → Set Piece} {s : Store} {p q : Nat} {c d : Mmap} {k l : Option Nat}

variable {other piece : Piece} {shared : Shared} {s' : Store} {x : Nat}

theorem Sharing.piece_eq (sharing : Sharing own s) (hp : piece ∈ own p) (ho : other ∈ own p)
    (hid : piece.1.id = other.1.id) : piece = other := by
  obtain ⟨c, k⟩ := piece
  obtain ⟨d, l⟩ := other
  obtain rfl : c = d := sharing.same p p _ _ hp ho hid
  rw [sharing.once p c k l hp ho]

theorem Sharing.alone (sharing : Sharing own s) (hp : piece ∈ own p)
    (ho : other ∈ own q) (hid : other.1.id = piece.1.id) (hshared : s.mmaps piece.1.id = some shared)
    (hone : shared.refcount = 1) : q = p := by
  obtain ⟨shared', holders, hshared', -, hlength, hholders⟩ := sharing.counted p piece hp
  cases hshared'.symm.trans hshared
  obtain ⟨a, rfl⟩ := length_eq_one_iff.mp (hlength.trans hone)
  have hpa := mem_singleton.mp ((hholders p).mpr ⟨piece, hp, rfl⟩)
  have hqa := mem_singleton.mp ((hholders q).mpr ⟨other, ho, hid⟩)
  rw [hpa, hqa]

theorem holds_loaded (loaded : s.Loaded piece) (x : Nat) : s.holds piece x = s.memory x := by
  obtain ⟨c, k⟩ := piece
  cases k with
  | none => rfl
  | some key => exact if_pos (loaded key rfl)

theorem holds_congr_iff (hmemory : s'.memory x = s.memory x)
    (hcurrent : ∀ key, piece.2 = some key → ((s'.mmaps piece.1.id).map Shared.current = some (.copy key) ↔
      (s.mmaps piece.1.id).map Shared.current = some (.copy key)))
    (hcopies : ∀ key, piece.2 = some key → s'.copies key = s.copies key) : s'.holds piece x = s.holds piece x := by
  obtain ⟨c, k⟩ := piece
  cases k with
  | none => exact hmemory
  | some key =>
    dsimp only [Store.holds] at hcurrent ⊢
    simp only [hcurrent key rfl, hmemory, hcopies key rfl]

theorem holds_congr (hmemory : s'.memory x = s.memory x)
    (hcurrent : (s'.mmaps piece.1.id).map Shared.current = (s.mmaps piece.1.id).map Shared.current)
    (hcopies : ∀ key, piece.2 = some key → s'.copies key = s.copies key) : s'.holds piece x = s.holds piece x :=
  holds_congr_iff hmemory (fun key _ => by rw [hcurrent]) hcopies

theorem Mmap.Apart.not_has (apart : c.Apart d) (hx : c.Has x) : ¬ d.Has x := by
  rw [Mmap.Apart] at apart
  rw [Mmap.Has] at hx ⊢
  omega

/-- The bytes of every process stay. -/
def Keeps (own : Nat → Set Piece) (s s' : Store) : Prop :=
  ∀ q piece, piece ∈ own q → ∀ x, piece.1.Has x → s'.holds piece x = s.holds piece x

/-- Every copy of a piece has the bytes of its owner. -/
def Saved (own : Nat → Set Piece) (s : Store) (c : Mmap) : Prop :=
  ∀ q key, (c, some key) ∈ own q →
    ∃ bytes, s.copies key = some bytes ∧ ∀ x, c.Has x → s.holds (c, some key) x = bytes[x - c.buffer]?

variable (sharing : Sharing own s)
include sharing

/-- Where one process has its bytes mapped, another that shares the piece has not. -/
theorem Sharing.not_loaded (hp : piece ∈ own p) (ho : other ∈ own q)
    (hne : q ≠ p) (hid : other.1.id = piece.1.id) (loaded : s.Loaded piece) :
    ∃ key, other.2 = some key ∧ ¬ (s.mmaps other.1.id).map Shared.current = some (.copy key) := by
  obtain ⟨c, k⟩ := piece
  obtain ⟨d, l⟩ := other
  have hnone : ∀ {p q : Nat} {c d : Mmap} {k : Option Nat}, (c, none) ∈ own p → (d, k) ∈ own q →
      d.id = c.id → q = p := by
    intro p q c d k hc hd hid
    obtain ⟨shared, -, hshared, -⟩ := sharing.counted p _ hc
    exact sharing.alone hc hd hid hshared (sharing.sole p c shared hc hshared).1
  cases k with
  | none => exact absurd (hnone hp ho hid) hne
  | some key =>
    cases l with
    | none => exact absurd (hnone ho hp hid.symm).symm hne
    | some key' =>
      refine ⟨key', rfl, fun hcurrent => ?_⟩
      rw [hid, loaded key rfl] at hcurrent
      simp only [some.injEq, Current.copy.injEq] at hcurrent
      subst hcurrent
      exact hne (sharing.keys q p d c key ho hp).1

theorem Sharing.setMemory {memory : Memory} (mapped : ∀ p piece, piece ∈ own p →
      memory.Mapped piece.1.buffer piece.1.size) :
    Sharing own { s with memory := memory } :=
  { sharing with mapped := fun p piece hp => ⟨(sharing.mapped p piece hp).1, mapped p piece hp⟩ }

theorem Sharing.setCopy {key : Nat} {bytes : List UInt8} (hc : (c, some key) ∈ own p)
    (hlength : bytes.length = c.size) :
    Sharing own { s with copies := update s.copies key (some bytes) } :=
  { sharing with
    copied := by
      intro q d key' hd
      by_cases hkey : key' = key
      · subst hkey
        have hid := (sharing.keys p q c d key' hc hd).2
        have heq := sharing.same p q _ _ hc hd hid
        dsimp only at heq
        exact ⟨bytes, update_self .., heq ▸ hlength⟩
      · obtain ⟨old, hold⟩ := sharing.copied q d key' hd
        exact ⟨old, (update_of_ne hkey ..).trans hold.1, hold.2⟩ }

theorem Sharing.setCurrent (hp : piece ∈ own p) (hshared : s.mmaps piece.1.id = some shared) {current : Current}
    (hcurrent : ∀ key, current = .copy key → ∃ q, (piece.1, some key) ∈ own q) :
    Sharing own { s with mmaps := update s.mmaps piece.1.id (some { shared with current := current }) } :=
  { sharing with
    counted := by
      intro q other ho
      obtain ⟨shared', holders, hshared', hholders⟩ := sharing.counted q other ho
      by_cases hid : other.1.id = piece.1.id
      · rw [hid] at hshared' hholders ⊢
        cases hshared'.symm.trans hshared
        exact ⟨_, holders, update_self .., hholders⟩
      · exact ⟨shared', holders, (update_of_ne hid ..).trans hshared', hholders⟩
    sole := by
      intro q d shared' hd hshared'
      dsimp only at hshared'
      by_cases hid : d.id = piece.1.id
      · rw [hid, update_self] at hshared'
        cases hshared'
        have hone := (sharing.sole q d shared hd (hid ▸ hshared)).1
        refine ⟨hone, fun key hkey => ?_⟩
        obtain ⟨r, hr⟩ := hcurrent key hkey
        obtain rfl := sharing.alone hd hr hid.symm (hid ▸ hshared) hone
        have heq := sharing.piece_eq hd hr hid
        cases congrArg Prod.snd heq
      · exact sharing.sole q d shared' hd ((update_of_ne hid ..).symm.trans hshared')
    held := by
      intro q other shared' key ho hshared' hkey
      dsimp only at hshared'
      by_cases hid : other.1.id = piece.1.id
      · rw [hid, update_self] at hshared'
        cases hshared'
        rw [sharing.same q p other piece ho hp hid]
        exact hcurrent key hkey
      · exact sharing.held q other shared' key ho ((update_of_ne hid ..).symm.trans hshared') hkey }

omit sharing in
theorem Keeps.trans {s₁ s₂ : Store} (first : Keeps own s s₁) (second : Keeps own s₁ s₂) : Keeps own s s₂ :=
  fun q piece hq x hx => (second q piece hq x hx).trans (first q piece hq x hx)

theorem Sharing.saveCurrent (hp : (c, k) ∈ own p) (hshared : s.mmaps c.id = some shared) :
    ∃ s', Heap.saveCurrent c s shared.current = some s' ∧ s'.mmaps = s.mmaps ∧ s'.memory = s.memory ∧
      Sharing own s' ∧ Keeps own s s' ∧ Saved own s' c := by
  have hkeep : ∀ q l, (c, some l) ∈ own q → shared.current ≠ .copy l →
      ∃ bytes, s.copies l = some bytes ∧ ∀ x, c.Has x → s.holds (c, some l) x = bytes[x - c.buffer]? := by
    intro q l hq hne
    obtain ⟨bytes, hbytes, -⟩ := sharing.copied q c l hq
    refine ⟨bytes, hbytes, fun x _ => ?_⟩
    have hnot : ¬ (s.mmaps c.id).map Shared.current = some (.copy l) := by
      rw [hshared]
      simpa using hne
    simp [Store.holds, hnot, hbytes]
  have hstay : (∀ key, shared.current ≠ .copy key) → Heap.saveCurrent c s shared.current = some s →
      ∃ s', Heap.saveCurrent c s shared.current = some s' ∧ s'.mmaps = s.mmaps ∧ s'.memory = s.memory ∧
        Sharing own s' ∧ Keeps own s s' ∧ Saved own s' c := fun hnot hsave =>
    ⟨s, hsave, rfl, rfl, sharing, fun _ _ _ _ _ => rfl, fun q l hq => hkeep q l hq (hnot l)⟩
  cases hcurrent : shared.current with
  | null =>
    rw [hcurrent] at hstay
    exact hstay nofun rfl
  | buffer =>
    rw [hcurrent] at hstay
    exact hstay nofun rfl
  | copy key =>
    obtain ⟨bytes, hload⟩ := Memory.load_of_mapped (sharing.mapped p _ hp).2
    obtain ⟨r, hr⟩ := sharing.held p _ shared key hp hshared hcurrent
    obtain ⟨old, hold, -⟩ := sharing.copied r c key hr
    have hbytes : ∀ x, c.Has x → s.memory x = bytes[x - c.buffer]? := by
      intro x hx
      have hget := Memory.load_get hload (show x - c.buffer < c.size by rw [Mmap.Has] at hx; omega)
      rwa [Nat.add_sub_cancel' hx.1] at hget
    have hloaded : (s.mmaps c.id).map Shared.current = some (.copy key) := by
      rw [hshared, map_some, hcurrent]
    refine ⟨{ s with copies := update s.copies key (some bytes) }, ?_, rfl, rfl,
      sharing.setCopy hr (Memory.load_length hload), ?_, ?_⟩
    · simp [Heap.saveCurrent, hload, hold]
    · intro q piece hq x hx
      obtain ⟨d, l⟩ := piece
      cases l with
      | none => rfl
      | some l =>
        by_cases hl : l = key
        · subst hl
          obtain ⟨-, hid⟩ := sharing.keys q r d c l hq hr
          dsimp only [Store.holds]
          rw [hid, if_pos hloaded, if_pos hloaded]
        · simp only [Store.holds, update_of_ne hl]
    · intro q l hq
      by_cases hl : l = key
      · subst hl
        refine ⟨bytes, update_self .., fun x hx => ?_⟩
        dsimp only [Store.holds]
        rw [if_pos hloaded]
        exact hbytes x hx
      · obtain ⟨bytes', hbytes', hholds⟩ := hkeep q l hq (by rw [hcurrent]; simpa using Ne.symm hl)
        refine ⟨bytes', (update_of_ne hl ..).trans hbytes', fun x hx => ?_⟩
        rw [← hholds x hx]
        simp only [Store.holds, update_of_ne hl]

theorem Sharing.loadCopy (hp : (c, k) ∈ own p) (saved : Saved own s c) :
    ∃ s', Heap.loadCopy c s k = some s' ∧ s'.mmaps = s.mmaps ∧ s'.copies = s.copies ∧ Sharing own s' ∧
      (∀ x, ¬ c.Has x → s'.memory x = s.memory x) ∧ ∀ x, c.Has x → s'.memory x = s.holds (c, k) x := by
  cases k with
  | none => exact ⟨s, rfl, rfl, rfl, sharing, fun _ _ => rfl, fun _ _ => rfl⟩
  | some key =>
    obtain ⟨bytes, hbytes, hholds⟩ := saved p key hp
    obtain ⟨bytes', hbytes', hlength⟩ := sharing.copied p c key hp
    obtain rfl := some.inj (hbytes'.symm.trans hbytes)
    have hmapped : s.memory.Mapped c.buffer bytes'.length := by
      rw [hlength]
      exact (sharing.mapped p _ hp).2
    refine ⟨{ s with memory := s.memory.put c.buffer bytes' }, ?_, rfl, rfl,
      sharing.setMemory fun q piece hq => Memory.Mapped.put hmapped (sharing.mapped q piece hq).2, ?_, ?_⟩
    · simp [Heap.loadCopy, hbytes, Memory.store_of_mapped hmapped]
    · intro x hx
      rw [Mmap.Has] at hx
      exact Memory.put_outside (by omega)
    · intro x hx
      rw [hholds x hx]
      rw [Mmap.Has] at hx
      exact Memory.put_inside hx.1 (by omega)

theorem Sharing.switchChunk {c : MmapChunk} (hp : (c.mmap, c.copy) ∈ own p) :
    ∃ s', Heap.switchChunk s c = some s' ∧ Sharing own s' ∧ Keeps own s s' ∧ s'.Loaded (c.mmap, c.copy) ∧
      ∀ piece ∈ own p, piece.1.id ≠ c.mmap.id → s.Loaded piece → s'.Loaded piece := by
  obtain ⟨shared, -, hshared, -⟩ := sharing.counted p _ hp
  obtain ⟨s₁, hsave, hmmaps₁, -, sharing₁, keeps₁, saved⟩ := sharing.saveCurrent hp hshared
  obtain ⟨s₂, hload, hmmaps₂, hcopies₂, sharing₂, houtside, hinside⟩ := sharing₁.loadCopy hp saved
  have hshared₂ : s₂.mmaps c.mmap.id = some shared := by rw [hmmaps₂, hmmaps₁, hshared]
  have hcurrent : ∀ key, Current.ofCopy c.copy = .copy key → ∃ q, (c.mmap, some key) ∈ own q := by
    intro key hkey
    cases hcopy : c.copy with
    | none =>
      rw [hcopy] at hkey
      exact absurd hkey (by simp [Current.ofCopy])
    | some key' =>
      rw [hcopy] at hkey hp
      obtain rfl := Current.copy.inj hkey
      exact ⟨p, hp⟩
  have sharing₃ := sharing₂.setCurrent hp hshared₂ hcurrent
  have loaded : Store.Loaded { s₂ with
      mmaps := update s₂.mmaps c.mmap.id (some { shared with current := .ofCopy c.copy }) }
      (c.mmap, c.copy) := by
    intro key hkey
    dsimp only at hkey ⊢
    rw [update_self, hkey]
    rfl
  refine ⟨_, ?_, sharing₃, keeps₁.trans fun q piece hq x hx => ?_, loaded, fun piece hpiece hid hloaded => ?_⟩
  · simp [Heap.switchChunk, hshared, hsave, hload]
  · obtain ⟨d, l⟩ := piece
    by_cases hid : d.id = c.mmap.id
    · have hd : d = c.mmap := sharing.same q p _ _ hq hp hid
      subst hd
      by_cases hqp : q = p
      · subst hqp
        have heq := sharing.piece_eq hq hp rfl
        obtain ⟨-, rfl⟩ := heq
        rw [holds_loaded loaded]
        exact hinside x hx
      · obtain ⟨key, hl, hnot⟩ := sharing₃.not_loaded hp hq hqp rfl loaded
        subst hl
        obtain ⟨bytes, hbytes, hholds⟩ := saved q key hq
        rw [hholds x hx]
        dsimp only [Store.holds]
        rw [if_neg hnot, hcopies₂, hbytes, bind_some]
    · have hout : ¬ c.mmap.Has x := (sharing.apart q p _ _ hq hp hid).not_has hx
      refine holds_congr (houtside x hout) ?_ fun key _ => by rw [← hcopies₂]
      dsimp only
      rw [update_of_ne hid, hmmaps₂]
  · intro key hkey
    dsimp only
    rw [update_of_ne hid, hmmaps₂, hmmaps₁]
    exact hloaded key hkey

theorem Sharing.switchTo {h : KingsleyAlloc} (hp : ∀ piece ∈ h.pieces, piece ∈ own p) :
    ∃ s', SwitchTo h s = some s' ∧ Sharing own s' ∧ Keeps own s s' ∧ ∀ piece ∈ h.pieces, s'.Loaded piece := by
  -- the chunks behind stay loaded while the loop goes on
  suffices hloop : ∀ (cs : List MmapChunk) (s : Store), Sharing own s → (∀ c ∈ cs, (c.mmap, c.copy) ∈ own p) →
      ∃ s', cs.foldlM Heap.switchChunk s = some s' ∧ Sharing own s' ∧ Keeps own s s' ∧
        ∀ piece ∈ own p, (s.Loaded piece ∨ ∃ c ∈ cs, piece = (c.mmap, c.copy)) → s'.Loaded piece by
    have hchunk : ∀ c ∈ h.m_chunks, (c.mmap, c.copy) ∈ h.pieces := fun c hc => mem_map.mpr ⟨c, hc, rfl⟩
    obtain ⟨s', hswitch, sharing', keeps, loaded⟩ := hloop h.m_chunks s sharing fun c hc => hp _ (hchunk c hc)
    refine ⟨s', hswitch, sharing', keeps, fun piece hpiece => loaded piece (hp piece hpiece) (.inr ?_)⟩
    obtain ⟨c, hc, hpiece⟩ := mem_map.mp hpiece
    exact ⟨c, hc, hpiece.symm⟩
  intro cs
  induction cs with
  | nil =>
    intro s sharing _
    refine ⟨s, rfl, sharing, fun _ _ _ _ _ => rfl, fun piece _ hloaded => ?_⟩
    rcases hloaded with hloaded | ⟨c, hc, -⟩
    · exact hloaded
    · cases hc
  | cons c cs ih =>
    intro s sharing hcs
    obtain ⟨s₁, hswitch, sharing₁, keeps₁, hloaded, hothers⟩ := sharing.switchChunk (hcs c mem_cons_self)
    obtain ⟨s', hfold, sharing', keeps', loaded'⟩ := ih s₁ sharing₁ fun d hd => hcs d (mem_cons_of_mem c hd)
    refine ⟨s', ?_, sharing', keeps₁.trans keeps', fun piece hpiece hcase => loaded' piece hpiece ?_⟩
    · rw [foldlM_cons, hswitch]
      exact hfold
    · by_cases hid : piece.1.id = c.mmap.id
      · rw [sharing.piece_eq hpiece (hcs c mem_cons_self) hid]
        exact .inl hloaded
      · rcases hcase with hcase | ⟨d, hd, rfl⟩
        · exact .inl (hothers piece hpiece hid hcase)
        · rcases mem_cons.mp hd with rfl | hd
          · exact absurd rfl hid
          · exact .inr ⟨d, hd, rfl⟩

end

end Dce.Heap
