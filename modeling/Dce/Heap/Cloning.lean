import Dce.Heap.Isolation

/- When a clone of a heap is a copy of it. -/

namespace Dce.Heap

open Function List Option

/-- A call of `Malloc` or `Free`. -/
inductive Request
  | malloc (size answer : Nat)
  | free (a size : Nat)
  deriving DecidableEq, Repr

/-- The addresses that the requests return in turn. -/
def addresses : List Request → KingsleyAlloc → Store → Option (List Nat)
  | [], _, _ => some []
  | .malloc size answer :: requests, h, s => do
    let (a, h, s) ← Malloc size answer h s
    let rest ← addresses requests h s
    pure (a :: rest)
  | .free a size :: requests, h, s => do
    let (h, s) ← Free a size h s
    addresses requests h s

/-- The chunks of a heap but for the copies. -/
def shape (cs : List MmapChunk) : List (Mmap × Nat) := cs.map fun c => (c.mmap, c.brk)

/-- What should hold of a heap and its clone: the array of buckets has 32 heads. -/
structure Copies (h clone : KingsleyAlloc) (s : Store) : Prop where
  buckets : ∀ bucket, bucket < 32 → clone.m_buckets bucket = h.m_buckets bucket
  chunks : shape clone.m_chunks = shape h.m_chunks
  bytes : ∀ c ∈ clone.m_chunks, ∃ key bytes, c.copy = some key ∧ s.copies key = some bytes ∧
    s.memory.load c.mmap.buffer c.mmap.size = some bytes
  returns : ∀ s', SwitchTo clone s = some s' → ∀ requests, addresses requests clone s' = addresses requests h s

/-- Two heaps, each in a store of its own, that no call can tell apart. -/
structure Twin (h : KingsleyAlloc) (s : Store) (h' : KingsleyAlloc) (s' : Store) : Prop where
  buckets : ∀ bucket, bucket < 32 → h.m_buckets bucket = h'.m_buckets bucket
  chunks : shape h.m_chunks = shape h'.m_chunks
  memory : s.memory = s'.memory
  fresh : s.fresh = s'.fresh

section

variable {h h' : KingsleyAlloc} {s s' : Store}

theorem rel_bind {α β γ δ : Type} {R : α → β → Prop} {S : γ → δ → Prop} {x : Option α} {y : Option β}
    {f : α → Option γ} {g : β → Option δ} (first : Option.Rel R x y)
    (rest : ∀ a b, R a b → Option.Rel S (f a) (g b)) :
    Option.Rel S (x.bind f) (y.bind g) := by
  cases first with
  | none => exact .none
  | some hab => exact rest _ _ hab

theorem SizeToBucket_lt {size : Nat} (hsize : size < m_defaultMmapSize) : SizeToBucket size < 32 := by
  rw [m_defaultMmapSize] at hsize
  have hle : shifts 32 (if size = 0 then 2 ^ 32 - 1 else size - 1) ≤ 29 := shifts_le (by split <;> omega)
  rw [SizeToBucket]
  omega

theorem shape_cons {c : MmapChunk} {cs ds : List MmapChunk} (h : shape (c :: cs) = shape ds) :
    ∃ d ds', ds = d :: ds' ∧ c.mmap = d.mmap ∧ c.brk = d.brk ∧ shape cs = shape ds' := by
  cases ds with
  | nil => exact absurd h (by simp [shape])
  | cons d ds =>
    simp only [shape, map_cons, cons.injEq, Prod.mk.injEq] at h
    exact ⟨d, ds, rfl, h.1.1, h.1.2, h.2⟩

section

variable (twin : Twin h s h' s')
include twin

theorem Twin.setBucket (bucket a : Nat) : Twin { h with m_buckets := update h.m_buckets bucket a } s
      { h' with m_buckets := update h'.m_buckets bucket a } s' :=
  { twin with
    buckets := by
      intro other hlt
      dsimp only
      by_cases heq : other = bucket
      · rw [heq, update_self, update_self]
      · rw [update_of_ne heq, update_of_ne heq]
        exact twin.buckets other hlt }

omit twin in
theorem carve_twin (needed : Nat) {cs ds : List MmapChunk} (same : shape cs = shape ds) :
    Option.Rel (fun x y => x.1 = y.1 ∧ shape x.2 = shape y.2) (carve needed cs) (carve needed ds) := by
  induction cs generalizing ds with
  | nil =>
    obtain rfl : ds = [] := map_eq_nil_iff.mp same.symm
    exact .none
  | cons c cs ih =>
    obtain ⟨d, ds, rfl, hmmap, hbrk, hrest⟩ := shape_cons same
    have hroom : (needed ≤ c.mmap.size - c.brk) ↔ needed ≤ d.mmap.size - d.brk := by
      rw [show c.mmap.size - c.brk = d.mmap.size - d.brk from congrArg₂ (· - ·) (congrArg Mmap.size hmmap) hbrk]
    rw [carve, carve]
    by_cases room : needed ≤ c.mmap.size - c.brk
    · rw [dif_pos room, dif_pos (hroom.mp room)]
      have hmore : c.brk + needed = d.brk + needed := congrArg (· + needed) hbrk
      have ha : c.mmap.buffer + c.brk = d.mmap.buffer + d.brk := congrArg₂ (· + ·) (congrArg Mmap.buffer hmmap) hbrk
      exact .some ⟨ha, congrArg₂ cons (Prod.ext hmmap hmore) hrest⟩
    · rw [dif_neg room, dif_neg fun h => room (hroom.mpr h)]
      have hcarve := ih hrest
      revert hcarve
      generalize carve needed cs = x
      generalize carve needed ds = y
      rintro (⟨ha, hshape⟩ | -)
      · exact .some ⟨ha, congrArg₂ cons (Prod.ext hmmap hbrk) hshape⟩
      · exact .none

theorem Brk_twin (needed answer : Nat) :
    Option.Rel (fun x y => x.1 = y.1 ∧ Twin x.2.1 x.2.2 y.2.1 y.2.2) (Brk needed answer h s)
    (Brk needed answer h' s') := by
  have hfirst := carve_twin needed twin.chunks
  rw [Brk, Brk]
  revert hfirst
  generalize carve needed h.m_chunks = x
  generalize carve needed h'.m_chunks = y
  rintro (⟨ha, hshape⟩ | -)
  · exact .some ⟨ha, { twin with chunks := hshape }⟩
  · dsimp only
    split
    · have hsecond : shape (MmapAlloc m_defaultMmapSize answer h s).1.m_chunks =
          shape (MmapAlloc m_defaultMmapSize answer h' s').1.m_chunks := by
        have hrest := twin.chunks
        rw [shape, shape] at hrest ⊢
        simp [MmapAlloc, hrest, twin.fresh]
      have hfront := carve_twin needed hsecond
      revert hfront
      generalize carve needed (MmapAlloc m_defaultMmapSize answer h s).1.m_chunks = x
      generalize carve needed (MmapAlloc m_defaultMmapSize answer h' s').1.m_chunks = y
      rintro (⟨ha, hshape⟩ | -)
      · refine .some ⟨ha, twin.buckets, hshape, ?_, congrArg (· + 1) twin.fresh⟩
        exact congrArg (Memory.map · answer m_defaultMmapSize) twin.memory
      · exact .none
    · exact .none

theorem pop_twin {bucket : Nat} (hlt : bucket < 32) :
    Option.Rel (fun x y : Nat × KingsleyAlloc × Store => x.1 = y.1 ∧ Twin x.2.1 x.2.2 y.2.1 y.2.2)
      ((s.memory.loadWord (h.m_buckets bucket)).bind fun next =>
        some (h.m_buckets bucket, { h with m_buckets := update h.m_buckets bucket next }, s))
      ((s'.memory.loadWord (h'.m_buckets bucket)).bind fun next =>
        some (h'.m_buckets bucket, { h' with m_buckets := update h'.m_buckets bucket next }, s')) := by
  rw [twin.memory, twin.buckets bucket hlt]
  cases s'.memory.loadWord (h'.m_buckets bucket) with
  | none => exact .none
  | some next => exact .some ⟨rfl, twin.setBucket bucket next⟩

theorem Malloc_twin (size answer : Nat) :
    Option.Rel (fun x y => x.1 = y.1 ∧ Twin x.2.1 x.2.2 y.2.1 y.2.2) (Malloc size answer h s)
    (Malloc size answer h' s') := by
  rw [Malloc, Malloc]
  split
  next small =>
    have hlt := SizeToBucket_lt small
    simp only [twin.buckets _ hlt, bind_eq_bind, pure, bind_some]
    split
    · cases BucketToSize (SizeToBucket size) with
      | none => exact .none
      | some needed =>
        rw [bind_some, bind_some]
        refine rel_bind (Brk_twin twin needed answer) ?_
        rintro ⟨a, h₁, s₁⟩ ⟨b, h₂, s₂⟩ ⟨rfl, twin₁⟩
        rw [twin₁.memory]
        cases s₂.memory.storeWord a 0 with
        | none => exact .none
        | some memory =>
          have twin₂ : Twin { h₁ with m_buckets := update h₁.m_buckets (SizeToBucket size) a }
              { s₁ with memory := memory } { h₂ with m_buckets := update h₂.m_buckets (SizeToBucket size) a }
              { s₂ with memory := memory } := { twin₁.setBucket (SizeToBucket size) a with memory := rfl }
          exact pop_twin twin₂ hlt
    · simpa only [twin.buckets _ hlt] using pop_twin twin hlt
  · have twin₁ : Twin (MmapAlloc size answer h s).1 (MmapAlloc size answer h s).2 (MmapAlloc size answer h' s').1
        (MmapAlloc size answer h' s').2 := {
      buckets := twin.buckets
      chunks := congrArg₂ cons (by rw [twin.fresh]) twin.chunks
      memory := congrArg (Memory.map · answer size) twin.memory
      fresh := congrArg (· + 1) twin.fresh }
    exact Brk_twin twin₁ size answer

theorem Free_twin (a size : Nat) : Option.Rel (fun x y => Twin x.1 x.2 y.1 y.2) (Free a size h s)
    (Free a size h' s') := by
  have hany : ∀ h : KingsleyAlloc, (h.m_chunks.any fun c => c.mmap.buffer = a ∧ c.mmap.size = size) =
      (shape h.m_chunks).any fun piece => piece.1.buffer = a ∧ piece.1.size = size := fun h => by
    rw [shape, List.any_map]
    rfl
  have herase : ∀ h : KingsleyAlloc, shape (h.m_chunks.eraseP fun c => c.mmap.buffer = a ∧ c.mmap.size = size) =
      (shape h.m_chunks).eraseP fun piece => piece.1.buffer = a ∧ piece.1.size = size := fun h => by
    rw [shape, shape, eraseP_map]
    rfl
  rw [Free, Free]
  split
  next small =>
    dsimp only
    rw [twin.memory, twin.buckets _ (SizeToBucket_lt small)]
    cases s'.memory.storeWord a (h'.m_buckets (SizeToBucket size)) with
    | none => exact .none
    | some memory => exact .some { twin.setBucket (SizeToBucket size) a with memory := rfl }
  · rw [hany h, hany h', twin.chunks]
    split
    · have hchunks := herase h
      rw [twin.chunks, ← herase h'] at hchunks
      exact .some { twin with chunks := hchunks, memory := congrArg (Memory.unmap · a size) twin.memory }
    · exact .some twin

end

theorem addresses_twin (requests : List Request) (twin : Twin h s h' s') :
    addresses requests h s = addresses requests h' s' := by
  have heq : ∀ {α : Type} {x y : Option α}, Rel Eq x y → x = y := by
    rintro α x y (rfl | -) <;> rfl
  refine heq ?_
  induction requests generalizing h s h' s' with
  | nil => exact .some rfl
  | cons request requests ih =>
    cases request with
    | malloc size answer =>
      refine rel_bind (Malloc_twin twin size answer) ?_
      rintro ⟨a, h₁, s₁⟩ ⟨b, h₂, s₂⟩ ⟨rfl, twin₁⟩
      refine rel_bind (ih twin₁) ?_
      rintro rest - rfl
      exact .some rfl
    | free a size => exact rel_bind (Free_twin twin a size) fun x y hxy => ih hxy

end

/-- No mapping has its bytes in a buffer that is still to be made. -/
def Store.Bounded (s : Store) : Prop :=
  ∀ id shared key, s.mmaps id = some shared → shared.current = .copy key → key < s.fresh

section

variable {s s' : Store} {cs mines clones : List MmapChunk}

/-- What is known of the clones of some chunks once the loop of `Clone` has made them. -/
structure Copied (s : Store) (cs mines clones : List MmapChunk) (s' : Store) : Prop where
  same_mine : shape mines = shape cs
  same_clone : shape clones = shape cs
  memory : s'.memory = s.memory
  fresh : s.fresh ≤ s'.fresh
  older : ∀ key, key < s.fresh → s'.copies key = s.copies key
  bytes : ∀ c ∈ clones, ∃ key bytes, c.copy = some key ∧ s.fresh ≤ key ∧ key < s'.fresh ∧
    s'.copies key = some bytes ∧ s'.memory.load c.mmap.buffer c.mmap.size = some bytes
  distinct : (clones.map MmapChunk.copy).Nodup
  current : ∀ id shared key, s'.mmaps id = some shared → shared.current = .copy key →
    key < s'.fresh ∧ (s.fresh ≤ key ∨ ∃ old, s.mmaps id = some old ∧ old.current = .copy key) ∧
    ∀ c ∈ clones, c.copy ≠ some key
  mine : ∀ c ∈ mines, ∀ key, c.copy = some key → key < s'.fresh ∨ ∃ d ∈ cs, d.copy = some key

theorem cloneChunk_copied {junk : Nat → UInt8} {c mine clone : MmapChunk} (bounded : s.Bounded)
    (hclone : cloneChunk junk c s = some (mine, clone, s')) : Copied s [c] [mine] [clone] s' := by
  obtain ⟨shared, hshared, hrest⟩ := bind_eq_some_iff.mp hclone
  -- whether or not this is the first clone of the heap
  obtain ⟨current, s₁, hmine, hmemory, hmmaps, hfresh, holder, hkey, hown, hrest⟩ :
    ∃ (current : Current) (s₁ : Store),
      (mine.mmap = c.mmap ∧ mine.brk = c.brk) ∧ s₁.memory = s.memory ∧ s₁.mmaps = s.mmaps ∧ s.fresh ≤ s₁.fresh ∧
      (∀ key, key < s.fresh → s₁.copies key = s.copies key) ∧ (∀ key, current = .copy key → key < s₁.fresh ∧
        (s.fresh ≤ key ∨ ∃ old, s.mmaps c.mmap.id = some old ∧ old.current = .copy key)) ∧
      (∀ key, mine.copy = some key → key < s₁.fresh ∨ c.copy = some key) ∧
      ∃ bytes, s₁.memory.load c.mmap.buffer c.mmap.size = some bytes ∧
      (clone, s') = ({ c with copy := some s₁.fresh }, { s₁ with
            mmaps := update s₁.mmaps c.mmap.id (some ⟨shared.refcount + 1, current⟩)
            copies := update s₁.copies s₁.fresh (some bytes)
            fresh := s₁.fresh + 1 }) := by
    by_cases first : shared.refcount + 1 = 2 ∧ c.copy = none
    · simp only [if_pos first] at hrest
      obtain ⟨bytes, hload, heq⟩ := bind_eq_some_iff.mp hrest
      obtain ⟨rfl, rfl, rfl⟩ := heq
      refine ⟨_, (newCopy ((range c.mmap.size).map junk) s).2, ⟨rfl, rfl⟩, rfl, rfl, Nat.le_succ _,
        fun key hlt => ?_,
        fun key hkey => ?_, fun key hkey => ?_, bytes, hload, rfl⟩
      · exact update_of_ne (by omega) ..
      · obtain rfl := Current.copy.inj hkey
        exact ⟨Nat.lt_succ_self _, .inl le_rfl⟩
      · cases hkey
        exact .inl (Nat.lt_succ_self _)
    · simp only [if_neg first] at hrest
      obtain ⟨bytes, hload, heq⟩ := bind_eq_some_iff.mp hrest
      obtain ⟨rfl, rfl, rfl⟩ := heq
      exact ⟨_, s, ⟨rfl, rfl⟩, rfl, rfl, le_rfl, fun _ _ => rfl,
        fun key hkey => ⟨bounded _ _ key hshared hkey, .inr ⟨shared, hshared, hkey⟩⟩,
        fun key hkey => .inr hkey, bytes, hload, rfl⟩
  obtain ⟨bytes, hload, heq⟩ := hrest
  obtain ⟨rfl, rfl⟩ := Prod.mk.inj heq
  exact {
    same_mine := by rw [shape, shape, map_singleton, map_singleton, hmine.1, hmine.2]
    same_clone := rfl
    memory := hmemory
    fresh := Nat.le_succ_of_le hfresh
    older := fun key hlt => (update_of_ne (by omega) ..).trans (holder key hlt)
    bytes := by
      intro d hd
      obtain rfl := mem_singleton.mp hd
      exact ⟨s₁.fresh, bytes, rfl, hfresh, Nat.lt_succ_self _, update_self .., hload⟩
    distinct := nodup_singleton _
    current := by
      intro id shared' key hshared' hcurrent
      have hlt : key < s₁.fresh ∧ (s.fresh ≤ key ∨ ∃ old, s.mmaps id = some old ∧ old.current = .copy key) := by
        dsimp only at hshared'
        by_cases hid : id = c.mmap.id
        · rw [hid, update_self] at hshared'
          cases hshared'
          exact ⟨(hkey key hcurrent).1, hid ▸ (hkey key hcurrent).2⟩
        · rw [update_of_ne hid, hmmaps] at hshared'
          exact ⟨lt_of_lt_of_le (bounded id shared' key hshared' hcurrent) hfresh,
            .inr ⟨shared', hshared', hcurrent⟩⟩
      refine ⟨Nat.lt_succ_of_lt hlt.1, hlt.2, fun d hd hcopy => ?_⟩
      obtain rfl := mem_singleton.mp hd
      cases hcopy
      exact lt_irrefl _ hlt.1
    mine := by
      intro d hd key hcopy
      obtain rfl := mem_singleton.mp hd
      rcases hown key hcopy with hlt | hold
      · exact .inl (Nat.lt_succ_of_lt hlt)
      · exact .inr ⟨c, mem_singleton_self c, hold⟩ }

theorem cloneChunks_copied {junk : Nat → UInt8} (bounded : s.Bounded)
    (hclones : cloneChunks junk cs s = some (mines, clones, s')) : Copied s cs mines clones s' := by
  induction cs generalizing s mines clones s' with
  | nil =>
    obtain ⟨rfl, rfl, rfl⟩ := hclones
    exact {
      same_mine := rfl
      same_clone := rfl
      memory := rfl
      fresh := le_rfl
      older := fun _ _ => rfl
      bytes := fun c hc => nomatch hc
      distinct := .nil
      current := fun id shared key hshared hkey =>
        ⟨bounded id shared key hshared hkey, .inr ⟨shared, hshared, hkey⟩, fun c hc => nomatch hc⟩
      mine := fun c hc => nomatch hc }
  | cons c cs ih =>
    obtain ⟨⟨mine, clone, s₁⟩, hclone, hrest⟩ := bind_eq_some_iff.mp hclones
    obtain ⟨⟨mines', clones', s₂⟩, hclones', heq⟩ := bind_eq_some_iff.mp hrest
    obtain ⟨rfl, rfl, rfl⟩ : mine :: mines' = mines ∧ clone :: clones' = clones ∧ s₂ = s' := by
      simpa [pure] using heq
    have first := cloneChunk_copied bounded hclone
    have bounded₁ : s₁.Bounded := fun id shared key hshared hkey => (first.current id shared key hshared hkey).1
    have later := ih bounded₁ hclones'
    obtain ⟨key₁, bytes₁, hcopy₁, hlower₁, hupper₁, hbytes₁, hload₁⟩ := first.bytes clone (mem_singleton_self _)
    exact {
      same_mine := congrArg₂ List.append first.same_mine later.same_mine
      same_clone := congrArg₂ List.append first.same_clone later.same_clone
      memory := later.memory.trans first.memory
      fresh := first.fresh.trans later.fresh
      older := fun key hlt => (later.older key (lt_of_lt_of_le hlt first.fresh)).trans (first.older key hlt)
      bytes := by
        intro d hd
        rcases mem_cons.mp hd with rfl | hd
        · exact ⟨key₁, bytes₁, hcopy₁, hlower₁, lt_of_lt_of_le hupper₁ later.fresh,
            (later.older key₁ hupper₁).trans hbytes₁, later.memory ▸ hload₁⟩
        · obtain ⟨key, bytes, hcopy, hlower, hrest⟩ := later.bytes d hd
          exact ⟨key, bytes, hcopy, first.fresh.trans hlower, hrest⟩
      distinct := by
        rw [map_cons, nodup_cons]
        refine ⟨fun hin => ?_, later.distinct⟩
        obtain ⟨d, hd, heq⟩ := mem_map.mp hin
        obtain ⟨key, -, hcopy, hlower, -⟩ := later.bytes d hd
        rw [hcopy, hcopy₁] at heq
        cases heq
        omega
      current := by
        intro id shared key hshared hkey
        obtain ⟨hlt, hfrom, hnot⟩ := later.current id shared key hshared hkey
        refine ⟨hlt, ?_, fun d hd => ?_⟩
        · rcases hfrom with hlower | ⟨old, hold, holdkey⟩
          · exact .inl (first.fresh.trans hlower)
          · exact (first.current id old key hold holdkey).2.1
        · rcases mem_cons.mp hd with rfl | hd
          · intro hcopy
            rcases hfrom with hlower | ⟨old, hold, holdkey⟩
            · rw [hcopy₁] at hcopy
              cases hcopy
              omega
            · exact (first.current id old key hold holdkey).2.2 d (mem_singleton_self d) hcopy
          · exact hnot d hd
      mine := by
        intro d hd key hcopy
        rcases mem_cons.mp hd with rfl | hd
        · rcases first.mine d (mem_singleton_self d) key hcopy with hlt | ⟨e, he, hold⟩
          · exact .inl (lt_of_lt_of_le hlt later.fresh)
          · obtain rfl := mem_singleton.mp he
            exact .inr ⟨e, mem_cons_self, hold⟩
        · rcases later.mine d hd key hcopy with hlt | ⟨e, he, hold⟩
          · exact .inl hlt
          · exact .inr ⟨e, mem_cons_of_mem c he, hold⟩ }

theorem saveCurrent_some {c : Mmap} {current : Current} (hsave : saveCurrent c s current = some s') :
    s'.memory = s.memory ∧ s'.mmaps = s.mmaps ∧ s'.fresh = s.fresh ∧
      ∀ key, current ≠ .copy key → s'.copies key = s.copies key := by
  cases current with
  | null =>
    cases hsave
    exact ⟨rfl, rfl, rfl, fun _ _ => rfl⟩
  | buffer =>
    cases hsave
    exact ⟨rfl, rfl, rfl, fun _ _ => rfl⟩
  | copy key =>
    obtain ⟨bytes, -, hrest⟩ := bind_eq_some_iff.mp hsave
    obtain ⟨old, -, heq⟩ := bind_eq_some_iff.mp hrest
    cases heq
    refine ⟨rfl, rfl, rfl, fun other hother => update_of_ne ?_ ..⟩
    rintro rfl
    exact hother rfl

theorem switchTo_copied (hcs : ∀ c ∈ cs, ∃ key bytes, c.copy = some key ∧ s.copies key = some bytes ∧
      s.memory.load c.mmap.buffer c.mmap.size = some bytes) (distinct : (cs.map MmapChunk.copy).Nodup)
    (current : ∀ id shared key, s.mmaps id = some shared → shared.current = .copy key → ∀ c ∈ cs, c.copy ≠ some key)
    (hswitch : cs.foldlM switchChunk s = some s') : s'.memory = s.memory ∧ s'.fresh = s.fresh := by
  induction cs generalizing s with
  | nil =>
    cases hswitch
    exact ⟨rfl, rfl⟩
  | cons c cs ih =>
    obtain ⟨s₁, hchunk, hrest⟩ := bind_eq_some_iff.mp hswitch
    rw [map_cons, nodup_cons] at distinct
    obtain ⟨key, bytes, hcopy, hbytes, hload⟩ := hcs c mem_cons_self
    have hnext : s₁.memory = s.memory ∧ s₁.fresh = s.fresh ∧
      (∀ k, (∃ d ∈ cs, d.copy = some k) → s₁.copies k = s.copies k) ∧
        ∃ shared, s.mmaps c.mmap.id = some shared ∧
          s₁.mmaps = update s.mmaps c.mmap.id (some { shared with current := .copy key }) := by
      obtain ⟨shared, hshared, hturn⟩ := bind_eq_some_iff.mp hchunk
      obtain ⟨s₂, hsave, hturn⟩ := bind_eq_some_iff.mp hturn
      obtain ⟨s₃, hplace, heq⟩ := bind_eq_some_iff.mp hturn
      cases heq
      obtain ⟨hmemory₂, hmmaps₂, hfresh₂, hcopies₂⟩ := saveCurrent_some hsave
      have hnot := current c.mmap.id shared
      have hkept : ∀ d ∈ c :: cs, ∀ k, d.copy = some k → s₂.copies k = s.copies k := fun d hd k hk =>
        hcopies₂ k fun hcurrent => hnot k hshared hcurrent d hd hk
      rw [hcopy] at hplace
      obtain ⟨bytes', hbytes', hplace⟩ := bind_eq_some_iff.mp hplace
      obtain ⟨memory, hstore, heq⟩ := bind_eq_some_iff.mp hplace
      cases heq
      rw [hkept c mem_cons_self key hcopy, hbytes] at hbytes'
      cases hbytes'
      obtain ⟨-, rfl⟩ := Memory.store_eq_some hstore
      refine ⟨?_, hfresh₂, fun k hk => ?_, shared, hshared, ?_⟩
      · rw [hmemory₂, Memory.put_loaded hload]
      · obtain ⟨d, hd, hk⟩ := hk
        exact hkept d (mem_cons_of_mem c hd) k hk
      · rw [hmmaps₂, hcopy]
        rfl
    obtain ⟨hmemory, hfresh, hcopies, shared, hshared, hmmaps⟩ := hnext
    rw [← hmemory, ← hfresh]
    refine ih ?_ distinct.2 ?_ hrest
    · intro d hd
      obtain ⟨k, bytes', hk, hbytes', hload'⟩ := hcs d (mem_cons_of_mem c hd)
      exact ⟨k, bytes', hk, (hcopies k ⟨d, hd, hk⟩).trans hbytes', hmemory ▸ hload'⟩
    · intro id shared' k hshared' hk d hd
      rw [hmmaps] at hshared'
      by_cases hid : id = c.mmap.id
      · rw [hid, update_self] at hshared'
        cases hshared'
        obtain rfl := Current.copy.inj hk
        intro hd'
        exact distinct.1 (mem_map.mpr ⟨d, hd, hd'.trans hcopy.symm⟩)
      · rw [update_of_ne hid] at hshared'
        exact current id shared' k hshared' hk d (mem_cons_of_mem c hd)

end

/-- Every key that is in use afterwards was in use before. -/
structure NoNewKey (h : KingsleyAlloc) (s : Store) (h' : KingsleyAlloc) (s' : Store) : Prop where
  fresh : s.fresh ≤ s'.fresh
  current : ∀ id shared key, s'.mmaps id = some shared → shared.current = .copy key →
    (∃ id old, s.mmaps id = some old ∧ old.current = .copy key) ∨ ∃ c ∈ h.m_chunks, c.copy = some key
  chunks : ∀ c ∈ h'.m_chunks, ∀ key, c.copy = some key → ∃ d ∈ h.m_chunks, d.copy = some key

section

variable {h h' h'' : KingsleyAlloc} {s s' s'' : Store} {a size answer : Nat}

theorem NoNewKey.refl (h : KingsleyAlloc) (s : Store) : NoNewKey h s h s where
  fresh := le_rfl
  current id shared _ hshared hkey := .inl ⟨id, shared, hshared, hkey⟩
  chunks c hc _ hkey := ⟨c, hc, hkey⟩

theorem NoNewKey.trans (first : NoNewKey h s h' s') (second : NoNewKey h' s' h'' s'') : NoNewKey h s h'' s'' where
  fresh := first.fresh.trans second.fresh
  current id shared key hshared hkey := by
    rcases second.current id shared key hshared hkey with ⟨id', old, hold, holdkey⟩ | ⟨c, hc, hcopy⟩
    · exact first.current id' old key hold holdkey
    · exact .inr (first.chunks c hc key hcopy)
  chunks c hc key hcopy := by
    obtain ⟨d, hd, hcopy'⟩ := second.chunks c hc key hcopy
    exact first.chunks d hd key hcopy'

theorem NoNewKey.set (keys : NoNewKey h s h' s') (buckets : Nat → Nat) (memory : Memory)
    (copies : Nat → Option (List UInt8)) :
    NoNewKey h s { h' with m_buckets := buckets } { s' with memory := memory, copies := copies } :=
  ⟨keys.fresh, keys.current, keys.chunks⟩

theorem NoNewKey.carve {needed : Nat} {cs : List MmapChunk} (keys : NoNewKey h s h' s')
    (hcarve : Heap.carve needed h'.m_chunks = some (a, cs)) : NoNewKey h s { h' with m_chunks := cs } s' where
  fresh := keys.fresh
  current := keys.current
  chunks c hc key hcopy := by
    have hin : (c.mmap, c.copy) ∈ h'.m_chunks.map fun c => (c.mmap, c.copy) :=
      carve_pieces hcarve ▸ mem_map.mpr ⟨c, hc, rfl⟩
    obtain ⟨d, hd, heq⟩ := mem_map.mp hin
    exact keys.chunks d hd key ((congrArg Prod.snd heq).trans hcopy)

theorem mmapAlloc_noNewKey (size answer : Nat) (h : KingsleyAlloc) (s : Store) :
    NoNewKey h s (MmapAlloc size answer h s).1 (MmapAlloc size answer h s).2 where
  fresh := Nat.le_succ _
  current id shared key hshared hkey := by
    dsimp only [MmapAlloc] at hshared
    by_cases hid : id = s.fresh
    · rw [hid, update_self] at hshared
      cases hshared
      cases hkey
    · rw [update_of_ne hid] at hshared
      exact .inl ⟨id, shared, hshared, hkey⟩
  chunks c hc key hcopy := by
    rcases mem_cons.mp hc with rfl | hc
    · cases hcopy
    · exact ⟨c, hc, hcopy⟩

theorem Brk_noNewKey {needed : Nat} (hbrk : Brk needed answer h s = some (a, h', s')) : NoNewKey h s h' s' := by
  rw [Brk] at hbrk
  split at hbrk
  case h_1 b cs hcarve =>
    obtain ⟨rfl, rfl, rfl⟩ : b = a ∧ { h with m_chunks := cs } = h' ∧ s = s' := by simpa using hbrk
    exact (NoNewKey.refl h s).carve hcarve
  case h_2 =>
    split at hbrk
    · obtain ⟨⟨b, cs⟩, hcarve, heq⟩ := map_eq_some_iff.mp hbrk
      obtain ⟨rfl, rfl, rfl⟩ := heq
      exact (mmapAlloc_noNewKey m_defaultMmapSize answer h s).carve hcarve
    · cases hbrk

theorem Malloc_noNewKey (hmalloc : Malloc size answer h s = some (a, h', s')) : NoNewKey h s h' s' := by
  rw [Malloc] at hmalloc
  split at hmalloc
  · simp only [bind_eq_bind, pure, bind_some] at hmalloc
    split at hmalloc
    · obtain ⟨needed, -, hmalloc⟩ := bind_eq_some_iff.mp hmalloc
      obtain ⟨⟨b, h₁, s₁⟩, hbrk, hmalloc⟩ := bind_eq_some_iff.mp hmalloc
      obtain ⟨memory, -, hmalloc⟩ := bind_eq_some_iff.mp hmalloc
      obtain ⟨next, -, heq⟩ := bind_eq_some_iff.mp hmalloc
      obtain ⟨-, rfl, rfl⟩ := heq
      exact (Brk_noNewKey hbrk).set _ _ s₁.copies
    · obtain ⟨next, -, heq⟩ := bind_eq_some_iff.mp hmalloc
      obtain ⟨-, rfl, rfl⟩ := heq
      exact (NoNewKey.refl h s).set _ s.memory s.copies
  · exact (mmapAlloc_noNewKey size answer h s).trans (Brk_noNewKey hmalloc)

theorem Free_noNewKey (hfree : Free a size h s = some (h', s')) : NoNewKey h s h' s' := by
  rw [Free] at hfree
  split at hfree
  · obtain ⟨memory, -, heq⟩ := bind_eq_some_iff.mp hfree
    obtain ⟨rfl, rfl⟩ := heq
    exact (NoNewKey.refl h s).set _ memory s.copies
  · split at hfree
    · obtain ⟨rfl, rfl⟩ := hfree
      have keys := (NoNewKey.refl h s).set h.m_buckets (s.memory.unmap a size) s.copies
      exact ⟨keys.fresh, keys.current, fun c hc key hcopy => ⟨c, mem_of_mem_eraseP hc, hcopy⟩⟩
    · obtain ⟨rfl, rfl⟩ := hfree
      exact NoNewKey.refl h s

theorem Realloc_noNewKey {newSize b : Nat} (hrealloc : Realloc a size newSize answer h s = some (b, h', s')) :
    NoNewKey h s h' s' := by
  rw [Realloc] at hrealloc
  split at hrealloc
  · obtain ⟨-, rfl, rfl⟩ := hrealloc
    exact NoNewKey.refl h s
  · obtain ⟨⟨c, h₁, s₁⟩, hmalloc, hrest⟩ := bind_eq_some_iff.mp hrealloc
    obtain ⟨bytes, -, hrest⟩ := bind_eq_some_iff.mp hrest
    obtain ⟨memory, -, hrest⟩ := bind_eq_some_iff.mp hrest
    obtain ⟨⟨h₂, s₂⟩, hfree, heq⟩ := bind_eq_some_iff.mp hrest
    obtain ⟨-, rfl, rfl⟩ := heq
    exact ((Malloc_noNewKey hmalloc).set h₁.m_buckets memory s₁.copies).trans (Free_noNewKey hfree)

theorem fold_noNewKey {turn : Store → MmapChunk → Option Store}
    (hturn : ∀ s c s', c ∈ h.m_chunks → turn s c = some s' → NoNewKey h s h s') {cs : List MmapChunk}
    (hcs : ∀ c ∈ cs, c ∈ h.m_chunks) (hfold : cs.foldlM turn s = some s') : NoNewKey h s h s' := by
  induction cs generalizing s with
  | nil =>
    obtain rfl := some.inj hfold
    exact NoNewKey.refl h s
  | cons c cs ih =>
    obtain ⟨s₁, hfirst, hrest⟩ := bind_eq_some_iff.mp hfold
    exact (hturn s c s₁ (hcs c mem_cons_self) hfirst).trans (ih (fun d hd => hcs d (mem_cons_of_mem c hd)) hrest)

theorem NoNewKey.setShared {c : MmapChunk} {shared : Shared} (keys : NoNewKey h s h s') (hc : c ∈ h.m_chunks)
    (hshared : ∀ key, shared.current = .copy key →
      (∃ old, s.mmaps c.mmap.id = some old ∧ old.current = .copy key) ∨ c.copy = some key) :
    NoNewKey h s h { s' with mmaps := update s'.mmaps c.mmap.id (some shared) } where
  fresh := keys.fresh
  current id other key hother hkey := by
    dsimp only at hother
    by_cases hid : id = c.mmap.id
    · rw [hid, update_self] at hother
      cases hother
      rcases hshared key hkey with ⟨old, hold, holdkey⟩ | hcopy
      · exact .inl ⟨_, old, hold, holdkey⟩
      · exact .inr ⟨c, hc, hcopy⟩
    · rw [update_of_ne hid] at hother
      exact keys.current id other key hother hkey
  chunks := keys.chunks

theorem switchChunk_noNewKey {c : MmapChunk} (hc : c ∈ h.m_chunks) (hswitch : switchChunk s c = some s') :
    NoNewKey h s h s' := by
  obtain ⟨shared, -, hrest⟩ := bind_eq_some_iff.mp hswitch
  obtain ⟨s₁, hsave, hrest⟩ := bind_eq_some_iff.mp hrest
  obtain ⟨s₂, hload, heq⟩ := bind_eq_some_iff.mp hrest
  cases heq
  obtain ⟨-, hmmaps, hfresh, -⟩ := saveCurrent_some hsave
  have hplace : s₂.mmaps = s₁.mmaps ∧ s₂.fresh = s₁.fresh := by
    cases hcopy : c.copy with
    | none =>
      rw [hcopy] at hload
      cases hload
      exact ⟨rfl, rfl⟩
    | some key =>
      rw [hcopy] at hload
      obtain ⟨bytes, -, hload⟩ := bind_eq_some_iff.mp hload
      obtain ⟨memory, -, heq⟩ := bind_eq_some_iff.mp hload
      cases heq
      exact ⟨rfl, rfl⟩
  have keys : NoNewKey h s h s₂ := {
    fresh := by rw [hplace.2, hfresh]
    current := fun id shared _ hshared hkey => .inl ⟨id, shared, by rw [← hshared, hplace.1, hmmaps], hkey⟩
    chunks := fun d hd _ hkey => ⟨d, hd, hkey⟩ }
  refine keys.setShared hc fun key hkey => .inr ?_
  cases hcopy : c.copy with
  | none =>
    rw [hcopy] at hkey
    exact absurd hkey (by simp [Current.ofCopy])
  | some other =>
    rw [hcopy] at hkey
    exact congrArg some (Current.copy.inj hkey)

theorem disposeChunk_noNewKey {c : MmapChunk} (hc : c ∈ h.m_chunks) (hdispose : disposeChunk s c = some s') :
    NoNewKey h s h s' := by
  obtain ⟨shared, -, hrest⟩ := bind_eq_some_iff.mp hdispose
  split at hrest
  · cases hrest
    exact (NoNewKey.refl h s).setShared hc fun key hkey => nomatch hkey
  · cases hrest
    exact NoNewKey.refl h s

theorem releaseChunk_noNewKey {c : MmapChunk} (hc : c ∈ h.m_chunks) (hrelease : releaseChunk s c = some s') :
    NoNewKey h s h s' := by
  obtain ⟨shared, hshared, hrest⟩ := bind_eq_some_iff.mp hrelease
  obtain ⟨s₁, hfree, hrest⟩ := bind_eq_some_iff.mp hrest
  have hkept : s₁.mmaps = s.mmaps ∧ s₁.fresh = s.fresh := by
    cases hcopy : c.copy with
    | none =>
      rw [hcopy] at hfree
      cases hfree
      exact ⟨rfl, rfl⟩
    | some key =>
      rw [hcopy] at hfree
      obtain ⟨bytes, -, heq⟩ := bind_eq_some_iff.mp hfree
      cases heq
      exact ⟨rfl, rfl⟩
  have keys : NoNewKey h s h s₁ := {
    fresh := by rw [hkept.2]
    current := fun id shared _ hshared hkey => .inl ⟨id, shared, by rw [← hshared, hkept.1], hkey⟩
    chunks := fun d hd _ hkey => ⟨d, hd, hkey⟩ }
  by_cases last : shared.refcount - 1 = 0
  · rw [if_pos last] at hrest
    cases hrest
    refine ⟨keys.fresh, fun id other key hother hkey => ?_, keys.chunks⟩
    by_cases hid : id = c.mmap.id
    · rw [hid] at hother
      exact absurd hother (by simp)
    · refine keys.current id other key ?_ hkey
      rw [← hother]
      exact (update_of_ne hid ..).symm
  · rw [if_neg last] at hrest
    cases hrest
    refine keys.setShared hc fun key hkey => .inl ⟨shared, hshared, ?_⟩
    split at hkey
    · cases hkey
    · exact hkey

theorem SwitchTo_noNewKey (hswitch : SwitchTo h s = some s') : NoNewKey h s h s' :=
  fold_noNewKey (fun _ _ _ hc hturn => switchChunk_noNewKey hc hturn) (fun _ hc => hc) hswitch

theorem Dispose_noNewKey (hdispose : Dispose h s = some s') : NoNewKey h s h s' :=
  fold_noNewKey (fun _ _ _ hc hturn => disposeChunk_noNewKey hc hturn) (fun _ hc => hc) hdispose

theorem release_noNewKey (hrelease : release h s = some s') : NoNewKey h s h s' :=
  fold_noNewKey (fun _ _ _ hc hturn => releaseChunk_noNewKey hc hturn) (fun _ hc => hc) hrelease

end

section

variable {junk : Nat → UInt8} {st : System} {p : Nat} {o : Owner}

/-- Every key that is in use was made. -/
structure System.Bounded (st : System) : Prop where
  store : st.store.Bounded
  heaps : ∀ q o, st.owners q = some o → ∀ c ∈ o.heap.m_chunks, ∀ key, c.copy = some key → key < st.store.fresh

variable (bounded : st.Bounded)
include bounded

theorem System.Bounded.act (hown : st.owners p = some o) {h : KingsleyAlloc} {s : Store}
    (keys : NoNewKey o.heap st.store h s) {o' : Option Owner} (ho' : ∀ owner, o' = some owner → owner.heap = h)
    (current : Option Nat) : System.Bounded { st.set p o' s with current := current } where
  store id shared key hshared hkey := by
    refine lt_of_lt_of_le ?_ keys.fresh
    rcases keys.current id shared key hshared hkey with ⟨id', old, hold, holdkey⟩ | ⟨c, hc, hcopy⟩
    · exact bounded.store id' old key hold holdkey
    · exact bounded.heaps p o hown c hc key hcopy
  heaps q owner howner c hc key hcopy := by
    refine lt_of_lt_of_le ?_ keys.fresh
    dsimp only [System.set] at howner
    by_cases hq : q = p
    · rw [hq, update_self] at howner
      rw [ho' owner howner] at hc
      obtain ⟨d, hd, hcopy'⟩ := keys.chunks c hc key hcopy
      exact bounded.heaps p o hown d hd key hcopy'
    · rw [update_of_ne hq] at howner
      exact bounded.heaps q owner howner c hc key hcopy

theorem System.Bounded.clone {q : Nat} (hown : st.owners p = some o)
    {mine clone : KingsleyAlloc} {s : Store} (hclone : Clone junk o.heap st.store = some (mine, clone, s)) :
    System.Bounded ((st.set p (some { o with heap := mine }) s).set q (some { o with heap := clone }) s) := by
  obtain ⟨⟨mines, clones, s'⟩, hclones, heq⟩ := bind_eq_some_iff.mp hclone
  obtain ⟨rfl, rfl, rfl⟩ := heq
  have copied := cloneChunks_copied bounded.store hclones
  refine ⟨fun id shared key hshared hkey => (copied.current id shared key hshared hkey).1, ?_⟩
  intro r owner howner c hc key hcopy
  dsimp only [System.set] at howner ⊢
  by_cases hq : r = q
  · rw [hq, update_self] at howner
    cases howner
    obtain ⟨key', -, hcopy', -, hlt, -⟩ := copied.bytes c hc
    cases hcopy'.symm.trans hcopy
    exact hlt
  · rw [update_of_ne hq] at howner
    by_cases hp : r = p
    · rw [hp, update_self] at howner
      cases howner
      rcases copied.mine c hc key hcopy with hlt | ⟨d, hd, hcopy'⟩
      · exact hlt
      · exact lt_of_lt_of_le (bounded.heaps p o hown d hd key hcopy') copied.fresh
    · rw [update_of_ne hp] at howner
      exact lt_of_lt_of_le (bounded.heaps r owner howner c hc key hcopy) copied.fresh

theorem System.Bounded.step {label : Label} {st' : System} (hstep : st.step junk label = some st') :
    st'.Bounded := by
  have runs : ∀ {p o}, st.running = some (p, o) → st.owners p = some o := fun hrun => (running_eq hrun).2
  have whole : ∀ {h : KingsleyAlloc} {o : Owner}, o.heap = h → ∀ owner, some o = some owner → owner.heap = h := by
    rintro h o rfl owner howner
    obtain rfl := some.inj howner
    rfl
  cases label with
  | start p =>
    obtain rfl := some.inj hstep
    refine ⟨bounded.store, fun q owner howner c hc key hcopy => ?_⟩
    dsimp only [System.set] at howner
    by_cases hq : q = p
    · rw [hq, update_self] at howner
      obtain rfl := some.inj howner
      exact absurd hc (by simp [KingsleyAlloc.new])
    · rw [update_of_ne hq] at howner
      exact bounded.heaps q owner howner c hc key hcopy
  | switchTo p =>
    obtain ⟨o, hown, hrest⟩ := bind_eq_some_iff.mp hstep
    obtain ⟨s, hswitch, heq⟩ := bind_eq_some_iff.mp hrest
    obtain rfl := some.inj heq
    have acted := bounded.act hown (SwitchTo_noNewKey hswitch) (whole rfl) (some p)
    rwa [System.set, update_eq_self_iff.mpr hown.symm] at acted
  | clone q =>
    obtain ⟨⟨p, o⟩, hrun, hrest⟩ := bind_eq_some_iff.mp hstep
    obtain ⟨⟨mine, clone, s⟩, hclone, heq⟩ := bind_eq_some_iff.mp hrest
    obtain rfl := some.inj heq
    exact bounded.clone (runs hrun) hclone
  | malloc size answer =>
    obtain ⟨⟨p, o⟩, hrun, hrest⟩ := bind_eq_some_iff.mp hstep
    obtain ⟨⟨a, h, s⟩, hmalloc, heq⟩ := bind_eq_some_iff.mp hrest
    obtain rfl := some.inj heq
    exact bounded.act (runs hrun) (Malloc_noNewKey hmalloc) (whole rfl) st.current
  | free a =>
    obtain ⟨⟨p, o⟩, hrun, hrest⟩ := bind_eq_some_iff.mp hstep
    obtain ⟨size, -, hrest⟩ := bind_eq_some_iff.mp hrest
    obtain ⟨⟨h, s⟩, hfree, heq⟩ := bind_eq_some_iff.mp hrest
    obtain rfl := some.inj heq
    exact bounded.act (runs hrun) (Free_noNewKey hfree) (whole rfl) st.current
  | realloc a newSize answer =>
    obtain ⟨⟨p, o⟩, hrun, hrest⟩ := bind_eq_some_iff.mp hstep
    obtain ⟨size, -, hrest⟩ := bind_eq_some_iff.mp hrest
    obtain ⟨⟨b, h, s⟩, hrealloc, hrest⟩ := bind_eq_some_iff.mp hrest
    dsimp only at hrest
    split at hrest
    · obtain rfl := some.inj hrest
      exact bounded.act (runs hrun) (Realloc_noNewKey hrealloc) (whole rfl) st.current
    · obtain rfl := some.inj hrest
      exact bounded.act (runs hrun) (Realloc_noNewKey hrealloc) (whole rfl) st.current
  | write x byte =>
    obtain ⟨⟨p, o⟩, hrun, hrest⟩ := bind_eq_some_iff.mp hstep
    obtain ⟨memory, -, heq⟩ := bind_eq_some_iff.mp hrest
    obtain rfl := some.inj heq
    refine bounded.act (runs hrun)
      ((NoNewKey.refl o.heap st.store).set o.heap.m_buckets memory st.store.copies) ?_ st.current
    exact whole rfl
  | dispose =>
    obtain ⟨⟨p, o⟩, hrun, hrest⟩ := bind_eq_some_iff.mp hstep
    obtain ⟨s, hdispose, hrest⟩ := bind_eq_some_iff.mp hrest
    obtain ⟨s', hrelease, heq⟩ := bind_eq_some_iff.mp hrest
    obtain rfl := some.inj heq
    exact bounded.act (runs hrun) ((Dispose_noNewKey hdispose).trans (release_noNewKey hrelease))
      (fun owner howner => absurd howner (by simp)) none
  | delete p =>
    obtain ⟨o, hown, hrest⟩ := bind_eq_some_iff.mp hstep
    obtain ⟨s, hrelease, heq⟩ := bind_eq_some_iff.mp hrest
    obtain rfl := some.inj heq
    exact bounded.act hown (release_noNewKey hrelease) (fun owner howner => absurd howner (by simp)) _

theorem Clone_spec {h mine clone : KingsleyAlloc} {s : Store}
    (hclone : Clone junk h st.store = some (mine, clone, s)) :
    mine.m_buckets = h.m_buckets ∧ clone.m_buckets = update (fun _ => 0) 0 (h.m_buckets 0) ∧
      Copied st.store h.m_chunks mine.m_chunks clone.m_chunks s := by
  obtain ⟨⟨mines, clones, s'⟩, hclones, heq⟩ := bind_eq_some_iff.mp hclone
  obtain ⟨rfl, rfl, rfl⟩ := heq
  exact ⟨rfl, rfl, cloneChunks_copied bounded.store hclones⟩

omit bounded in
theorem Copied.copies {h mine clone : KingsleyAlloc} {s s' : Store}
    (copied : Copied s h.m_chunks mine.m_chunks clone.m_chunks s')
    (hbuckets : ∀ bucket, bucket < 32 → clone.m_buckets bucket = mine.m_buckets bucket) : Copies mine clone s' := by
  have hbytes : ∀ c ∈ clone.m_chunks, ∃ key bytes, c.copy = some key ∧ s'.copies key = some bytes ∧
      s'.memory.load c.mmap.buffer c.mmap.size = some bytes := by
    intro c hc
    obtain ⟨key, bytes, hcopy, -, -, hrest⟩ := copied.bytes c hc
    exact ⟨key, bytes, hcopy, hrest⟩
  have hchunks := copied.same_clone.trans copied.same_mine.symm
  refine ⟨hbuckets, hchunks, hbytes, fun s'' hswitch requests => ?_⟩
  obtain ⟨hmemory, hfresh⟩ := switchTo_copied hbytes copied.distinct
    (fun id shared key hshared hkey => (copied.current id shared key hshared hkey).2.2) hswitch
  exact addresses_twin requests ⟨hbuckets, hchunks, hmemory, hfresh⟩

/-- A clone is a copy if no list but the first has cells. -/
theorem copies_iff {h mine clone : KingsleyAlloc} {s : Store}
    (hclone : Clone junk h st.store = some (mine, clone, s)) :
    Copies mine clone s ↔ ∀ bucket, 0 < bucket → bucket < 32 → h.m_buckets bucket = 0 := by
  obtain ⟨hmine, hbuckets, copied⟩ := Clone_spec bounded hclone
  constructor
  · intro copies bucket hpos hlt
    have hsame := copies.buckets bucket hlt
    rw [hmine, hbuckets, update_of_ne (by omega)] at hsame
    exact hsame.symm
  · intro hempty
    refine copied.copies fun bucket hlt => ?_
    rw [hmine, hbuckets]
    by_cases hzero : bucket = 0
    · rw [hzero, update_self]
    · rw [update_of_ne hzero, hempty bucket (by omega) hlt]

end

theorem bounded_of_reach {junk : Nat → UInt8} {st : System} (reach : (System.machine junk).Reach st) :
    st.Bounded := by
  refine reach.invariant (I := System.Bounded) ?_ fun st label st' bounded _ step => bounded.step step
  rintro st rfl
  exact ⟨fun id shared key hshared => absurd hshared (by simp [Store.new]), fun q o ho => nomatch ho⟩

/-- Where heaps are isolated a process can fork, and its child can be switched to. -/
theorem clones_of_reach {junk : Nat → UInt8} {st : System} {p q : Nat} {o : Owner}
    (reach : (System.machine junk).ReachBy (fun st label => Allowed st label ∧ Exclusive st label) st)
    (hrun : st.running = some (p, o)) (hq : st.owners q = none) :
    ∃ mine clone s s', Clone junk o.heap st.store = some (mine, clone, s) ∧ SwitchTo clone s = some s' := by
  have forks : Allowed st (.clone q) := ⟨hq, p, o, hrun⟩
  obtain ⟨st', hstep, inv, -⟩ := (inv_of_reach reach).step junk forks trivial
  simp only [System.step, hrun, bind_eq_bind, bind_some] at hstep
  obtain ⟨⟨mine, clone, s⟩, hclone, heq⟩ := bind_eq_some_iff.mp hstep
  cases heq
  have switches : Allowed ((st.set p (some { o with heap := mine }) s).set q (some { o with heap := clone }) s)
      (.switchTo q) := ⟨_, update_self ..⟩
  obtain ⟨st'', hstep', -⟩ := inv.step junk switches trivial
  obtain ⟨o', ho', hrest⟩ := bind_eq_some_iff.mp hstep'
  obtain ⟨s', hswitch, -⟩ := bind_eq_some_iff.mp hrest
  obtain rfl : { o with heap := clone } = o' := by simpa [System.set] using ho'
  exact ⟨mine, clone, s, s', hclone, hswitch⟩

/-- In every run a clone is a copy exactly if no list of the heap but the first has cells. One is made, and can
be switched to, wherever heaps are isolated. -/
theorem clone_copies_iff (junk : Nat → UInt8) {st : System} {p : Nat} {o : Owner}
    (reach : (System.machine junk).Reach st) (hrun : st.running = some (p, o)) :
    (∀ mine clone s, Clone junk o.heap st.store = some (mine, clone, s) →
      (Copies mine clone s ↔ ∀ bucket, 0 < bucket → bucket < 32 → o.heap.m_buckets bucket = 0)) ∧
    ((System.machine junk).ReachBy (fun st label => Allowed st label ∧ Exclusive st label) st →
      ∀ q, st.owners q = none → ∃ mine clone s s', Clone junk o.heap st.store = some (mine, clone, s) ∧
        SwitchTo clone s = some s') :=
  ⟨fun _ _ _ hclone => copies_iff (bounded_of_reach reach) hclone, fun proper _ hq => clones_of_reach proper hrun hq⟩

/-- A process that runs has two blocks of a size and has freed the first. -/
theorem reach_freed (junk : Nat → UInt8) {size b : Nat} {h₁ h₂ h₃ : KingsleyAlloc} {s₁ s₂ s₃ : Store}
    (hpos : 0 < size)
    (small : size < m_defaultMmapSize) (first : Malloc size 65536 .new .new = some (65536, h₁, s₁))
    (nothing : maps size h₁ = none)
    (second : Malloc size 0 h₁ s₁ = some (b, h₂, s₂)) (differ : b ≠ 65536)
    (hfree : Free 65536 size h₂ s₂ = some (h₃, s₃)) :
    ∃ st o, (System.machine junk).ReachBy (fun st label => Allowed st label ∧ Exclusive st label) st ∧
      st.running = some (1, o) ∧ st.owners 2 = none ∧ o.heap = h₃ ∧ o.live b = some size := by
  have hlt : size < 2 ^ 32 := small.trans (by decide)
  have hanswer : Answers Store.new.memory 65536 (maps size .new) := by
    intro asked hasked
    rw [maps, if_pos small] at hasked
    split at hasked
    · obtain rfl := some.inj hasked
      exact ⟨by decide, by decide, fun _ _ _ => rfl⟩
    · cases hasked
  let one : Owner := ⟨h₁, update (fun _ => none) 65536 (some size), fun _ => none⟩
  let two : Owner := ⟨h₂, update one.live b (some size), fun _ => none⟩
  let freed : Owner := ⟨h₃, update two.live 65536 none, forget (fun _ => none) 65536 size⟩
  have filled : (System.machine junk).ReachBy (fun st label => Allowed st label ∧ Exclusive st label)
      (System.first.set 1 (some one) s₁) := by
    refine .next (a := .malloc size 65536) (reach_first junk) ⟨⟨1, _, rfl, hpos, hlt, hanswer⟩, trivial⟩ ?_
    change (Malloc size 65536 .new .new >>= fun _ => _) = _
    rw [first]
    rfl
  have again : (System.machine junk).ReachBy (fun st label => Allowed st label ∧ Exclusive st label)
      ((System.first.set 1 (some one) s₁).set 1 (some two) s₂) := by
    refine .next (a := .malloc size 0) filled ⟨⟨1, one, rfl, hpos, hlt, fun asked hasked => ?_⟩, trivial⟩ ?_
    · rw [nothing] at hasked
      cases hasked
    · change (Malloc size 0 h₁ s₁ >>= fun _ => _) = _
      rw [second]
      rfl
  have hlive : two.live 65536 = some size := by simp [two, one, differ.symm]
  have emptied : (System.machine junk).ReachBy (fun st label => Allowed st label ∧ Exclusive st label)
      (((System.first.set 1 (some one) s₁).set 1 (some two) s₂).set 1 (some freed) s₃) := by
    refine .next (a := .free 65536) again ⟨⟨1, two, size, rfl, hlive⟩, fun p o hrun size' hsize hlarge => ?_⟩ ?_
    · have heq : some (1, two) = some (p, o) := hrun
      obtain ⟨rfl, rfl⟩ := Prod.mk.inj (some.inj heq)
      obtain rfl : size = size' := some.inj (hlive.symm.trans hsize)
      exact absurd hlarge (Nat.not_le_of_lt small)
    · change (two.live 65536 >>= fun size => Free 65536 size h₂ s₂ >>= fun _ => _) = _
      rw [hlive, bind_eq_bind, bind_some, hfree]
      rfl
  exact ⟨_, freed, emptied, rfl, rfl, rfl, (update_of_ne differ ..).trans (update_self ..)⟩

/-- A process has a block of 8 bytes, and another one on the first free list. -/
theorem clone_copies_iff_freed : ∃ (st : System) (o : Owner) (mine clone : KingsleyAlloc)
    (s : Store), st.running = some (1, o) ∧ o.live 65544 = some 8 ∧
    o.heap.m_buckets 0 = 65536 ∧ Clone (fun _ => 0) o.heap st.store = some (mine, clone, s) ∧
    Copies mine clone s := by
  obtain ⟨h₁, s₁, first, nothing, h₂, s₂, second, h₃, s₃, hfree, hcell, hempty⟩ :
      ∃ h s, Malloc 8 65536 .new .new = some (65536, h, s) ∧ maps 8 h = none ∧
        ∃ h' s', Malloc 8 0 h s = some (65544, h', s') ∧ ∃ h'' s'', Free 65536 8 h' s' = some (h'', s'') ∧
          h''.m_buckets 0 = 65536 ∧ ∀ bucket < 32, 0 < bucket → h''.m_buckets bucket = 0 :=
    ⟨_, _, rfl, rfl, _, _, rfl, _, _, rfl, rfl, by decide⟩
  obtain ⟨st, o, reach, hrun, hnone, rfl, hlive⟩ :=
    reach_freed (fun _ => 0) (by decide) (by decide) first nothing second (by decide) hfree
  have both := clone_copies_iff (fun _ => 0) reach.reach hrun
  obtain ⟨mine, clone, s, -, hclone, -⟩ := both.2 reach 2 hnone
  refine ⟨st, o, mine, clone, s, hrun, hlive, hcell, hclone,
    (both.1 mine clone s hclone).mpr fun bucket hpos hlt => ?_⟩
  exact hempty bucket hlt hpos

/-- A block of 16 bytes is on its free list, and not on that of the clone. -/
theorem clone_loses_buckets : ¬ ∀ st p o, (System.machine fun _ => 0).Reach st → st.running = some (p, o) →
    ∀ mine clone s, Clone (fun _ => 0) o.heap st.store = some (mine, clone, s) → Copies mine clone s := by
  intro h
  obtain ⟨h₁, s₁, first, nothing, h₂, s₂, second, h₃, s₃, hfree, hbucket⟩ :
      ∃ h s, Malloc 16 65536 .new .new = some (65536, h, s) ∧ maps 16 h = none ∧
        ∃ h' s', Malloc 16 0 h s = some (65552, h', s') ∧ ∃ h'' s'', Free 65536 16 h' s' = some (h'', s'') ∧
          h''.m_buckets 1 = 65536 := ⟨_, _, rfl, rfl, _, _, rfl, _, _, rfl, rfl⟩
  obtain ⟨st, o, reach, hrun, hnone, rfl, -⟩ :=
    reach_freed (fun _ => 0) (by decide) (by decide) first nothing second (by decide) hfree
  obtain ⟨mine, clone, s, -, hclone, -⟩ := clones_of_reach reach hrun hnone
  have hempty :=
    (copies_iff (bounded_of_reach reach.reach) hclone).mp (h st 1 o reach.reach hrun mine clone s hclone)
  rw [hempty 1 (by decide) (by decide)] at hbucket
  exact absurd hbucket (by decide)

end Dce.Heap
