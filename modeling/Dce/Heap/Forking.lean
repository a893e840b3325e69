import Dce.Heap.Sharing

/- What `Clone` does to the pieces of memory of all processes. -/

namespace Dce.Heap

open Function List Option

section

variable {own : Nat → Set Piece} {s : Store} {p q : Nat} {c d : Mmap} {k l : Option Nat}

variable {bytes : List UInt8} {own' : Nat → Set Piece} {shared : Shared} {chunk : MmapChunk} {junk : Nat → UInt8}

/-- What one turn of `Clone` for the process `p` does, that gives the process `q` a chunk. -/
structure Cloned (own : Nat → Set Piece) (s : Store) (p q : Nat) (chunk mine clone : MmapChunk)
    (s' : Store) : Prop where
  mine_mmap : mine.mmap = chunk.mmap ∧ mine.brk = chunk.brk
  clone_mmap : clone.mmap = chunk.mmap ∧ clone.brk = chunk.brk
  memory : s'.memory = s.memory
  sharing : ∀ own', (∀ r piece, piece ∈ own' r ↔ (r = q ∧ piece = (clone.mmap, clone.copy)) ∨
    (r = p ∧ piece = (mine.mmap, mine.copy)) ∨ (piece ∈ own r ∧ ¬ (r = p ∧ piece.1.id = chunk.mmap.id))) →
    Sharing own' s'
  loaded : s'.Loaded (mine.mmap, mine.copy)
  others : ∀ r piece, piece ∈ own r → ¬ (r = p ∧ piece.1.id = chunk.mmap.id) →
    (∀ x, s'.holds piece x = s.holds piece x) ∧ (s.Loaded piece → s'.Loaded piece)
  bytes : ∀ x, chunk.mmap.Has x → s'.holds (clone.mmap, clone.copy) x = s.memory x

section

variable (sharing : Sharing own s)
include sharing

/-- A process gets a piece with a new copy. Of the pieces there were those stay that are to be kept. -/
theorem Sharing.newKey {K : Piece → Prop} {mmaps : Nat → Option Shared} (hp : (c, k) ∈ own p)
    (hlength : bytes.length = c.size)
    (hown : ∀ r piece, piece ∈ own' r ↔ (r = q ∧ piece = (c, some s.fresh)) ∨ (piece ∈ own r ∧ K piece))
    (hnot : ∀ piece ∈ own q, K piece → piece.1.id ≠ c.id)
    (counted : ∀ r piece, piece ∈ own' r → ∃ shared holders, mmaps piece.1.id = some shared ∧ List.Nodup holders ∧
      holders.length = shared.refcount ∧ ∀ x, x ∈ holders ↔ ∃ other ∈ own' x, other.1.id = piece.1.id)
    (sole : ∀ r d shared, (d, none) ∈ own r → K (d, none) → mmaps d.id = some shared →
      shared.refcount = 1 ∧ ∀ key, shared.current ≠ .copy key)
    (held : ∀ r piece shared key, piece ∈ own' r → mmaps piece.1.id = some shared → shared.current = .copy key →
      ∃ x, (piece.1, some key) ∈ own' x) :
    Sharing own' { s with
      mmaps := mmaps, copies := update s.copies s.fresh (some bytes), fresh := s.fresh + 1 } := by
  have hfrom : ∀ {r piece}, piece ∈ own' r → ∃ r' l, (piece.1, l) ∈ own r' := by
    intro r piece hpiece
    rcases (hown r piece).mp hpiece with ⟨rfl, rfl⟩ | ⟨hpiece, -⟩
    · exact ⟨p, k, hp⟩
    · exact ⟨r, piece.2, hpiece⟩
  have hkey : ∀ {r d key}, (d, some key) ∈ own' r → (r = q ∧ d = c ∧ key = s.fresh) ∨ (d, some key) ∈ own r := by
    intro r d key hd
    rcases (hown r _).mp hd with ⟨hr, hd⟩ | ⟨hd, -⟩
    · simp only [Prod.mk.injEq, some.injEq] at hd
      exact .inl ⟨hr, hd⟩
    · exact .inr hd
  exact {
    counted := counted
    held := held
    once := by
      intro r d k l hk hl
      rcases (hown r _).mp hk with ⟨rfl, hk⟩ | ⟨hk, keepk⟩
      · rcases (hown r _).mp hl with ⟨-, hl⟩ | ⟨hl, keepl⟩
        · rw [Prod.mk.injEq] at hk hl
          rw [hk.2, hl.2]
        · exact absurd (congrArg (fun piece => piece.1.id) hk) (hnot _ hl keepl)
      · rcases (hown r _).mp hl with ⟨rfl, hl⟩ | ⟨hl, -⟩
        · exact absurd (congrArg (fun piece => piece.1.id) hl) (hnot _ hk keepk)
        · exact sharing.once r d k l hk hl
    same := by
      intro r x piece other hpiece ho hid
      obtain ⟨r', l, hl⟩ := hfrom hpiece
      obtain ⟨x', l', hl'⟩ := hfrom ho
      exact sharing.same r' x' (piece.1, l) (other.1, l') hl hl' hid
    apart := by
      intro r x piece other hpiece ho hid
      obtain ⟨r', l, hl⟩ := hfrom hpiece
      obtain ⟨x', l', hl'⟩ := hfrom ho
      exact sharing.apart r' x' (piece.1, l) (other.1, l') hl hl' hid
    mapped := by
      intro r piece hpiece
      obtain ⟨r', l, hl⟩ := hfrom hpiece
      exact sharing.mapped r' (piece.1, l) hl
    sole := by
      intro r d shared hd hshared
      rcases (hown r _).mp hd with ⟨-, hd⟩ | ⟨hd, keeps⟩
      · cases congrArg Prod.snd hd
      · exact sole r d shared hd keeps hshared
    copied := by
      intro r d key hd
      rcases hkey hd with ⟨-, rfl, rfl⟩ | hd
      · exact ⟨bytes, update_self .., hlength⟩
      · have hne : key ≠ s.fresh := ne_of_lt (sharing.fresh_key r d key hd)
        obtain ⟨old, hold, holdl⟩ := sharing.copied r d key hd
        exact ⟨old, (update_of_ne hne ..).trans hold, holdl⟩
    keys := by
      intro r x d e key hd he
      rcases hkey hd with ⟨hr, hdc, rfl⟩ | hd
      · rcases hkey he with ⟨hx, hec, -⟩ | he
        · exact ⟨hr.trans hx.symm, by rw [hdc, hec]⟩
        · exact absurd (sharing.fresh_key x e _ he) (lt_irrefl _)
      · rcases hkey he with ⟨-, -, rfl⟩ | he
        · exact absurd (sharing.fresh_key r d _ hd) (lt_irrefl _)
        · exact sharing.keys r x d e key hd he
    fresh_id := by
      intro r piece hpiece
      obtain ⟨r', l, hl⟩ := hfrom hpiece
      exact Nat.lt_succ_of_lt (sharing.fresh_id r' (piece.1, l) hl)
    fresh_key := by
      intro r d key hd
      rcases hkey hd with ⟨-, -, rfl⟩ | hd
      · exact Nat.lt_succ_self _
      · exact Nat.lt_succ_of_lt (sharing.fresh_key r d key hd) }

theorem Sharing.giveCopy (hp : (c, none) ∈ own p)
    (hshared : s.mmaps c.id = some shared) (hlength : bytes.length = c.size) (hown : ∀ r piece, piece ∈ own' r ↔
      (r = p ∧ piece = (c, some s.fresh)) ∨ (piece ∈ own r ∧ piece.1.id ≠ c.id)) :
    Sharing own' { s with
      mmaps := update s.mmaps c.id (some { shared with current := .copy s.fresh })
      copies := update s.copies s.fresh (some bytes)
      fresh := s.fresh + 1 } := by
  have hnew : (c, some s.fresh) ∈ own' p := (hown p _).mpr (.inl ⟨rfl, rfl⟩)
  have hone := (sharing.sole p c shared hp hshared).1
  refine sharing.newKey hp hlength hown (fun piece _ hid => hid) ?_
    (fun r d shared' hd hid hshared' => sharing.sole r d shared' hd ((update_of_ne hid ..).symm.trans hshared')) ?_
  · intro r piece hpiece
    rcases (hown r piece).mp hpiece with ⟨rfl, rfl⟩ | ⟨hold, hid⟩
    · obtain ⟨shared', holders, hshared', nodup, hcount, hholders⟩ := sharing.counted r _ hp
      cases hshared'.symm.trans hshared
      refine ⟨_, holders, update_self .., nodup, hcount, fun q => (hholders q).trans ?_⟩
      constructor
      · rintro ⟨other, ho, hid⟩
        exact ⟨_, sharing.alone hp ho hid hshared hone ▸ hnew, rfl⟩
      · rintro ⟨other, ho, hid⟩
        rcases (hown q other).mp ho with ⟨rfl, rfl⟩ | ⟨-, hother⟩
        · exact ⟨_, hp, rfl⟩
        · exact absurd hid hother
    · obtain ⟨shared', holders, hshared', nodup, hcount, hholders⟩ := sharing.counted r piece hold
      refine ⟨shared', holders, (update_of_ne hid ..).trans hshared', nodup, hcount, fun q => (hholders q).trans ?_⟩
      constructor
      · rintro ⟨other, ho, hid'⟩
        exact ⟨other, (hown q other).mpr (.inr ⟨ho, hid' ▸ hid⟩), hid'⟩
      · rintro ⟨other, ho, hid'⟩
        rcases (hown q other).mp ho with ⟨rfl, rfl⟩ | ⟨ho, -⟩
        · exact absurd hid'.symm hid
        · exact ⟨other, ho, hid'⟩
  · intro r piece shared' key hpiece hshared' hkey
    rcases (hown r piece).mp hpiece with ⟨rfl, rfl⟩ | ⟨hold, hid⟩
    · rw [update_self] at hshared'
      cases hshared'
      obtain rfl := Current.copy.inj hkey
      exact ⟨r, hnew⟩
    · obtain ⟨q, hq⟩ := sharing.held r piece shared' key hold ((update_of_ne hid ..).symm.trans hshared') hkey
      exact ⟨q, (hown q _).mpr (.inr ⟨hq, hid⟩)⟩

theorem Sharing.addClone {key₀ : Nat} (hp : (c, some key₀) ∈ own p)
    (hshared : s.mmaps c.id = some shared) (hlength : bytes.length = c.size)
    (hnot : ∀ piece ∈ own q, piece.1.id ≠ c.id) (hsole : ∀ r, (c, none) ∉ own r) (hown : ∀ r piece, piece ∈ own' r ↔
      (r = q ∧ piece = (c, some s.fresh)) ∨ piece ∈ own r) :
    Sharing own' { s with
      mmaps := update s.mmaps c.id (some { shared with refcount := shared.refcount + 1 })
      copies := update s.copies s.fresh (some bytes)
      fresh := s.fresh + 1 } := by
  have hnew : (c, some s.fresh) ∈ own' q := (hown q _).mpr (.inl ⟨rfl, rfl⟩)
  have hkept : ∀ {r piece}, piece ∈ own r → piece ∈ own' r := fun hpiece => (hown _ _).mpr (.inr hpiece)
  have hfrom : ∀ {r piece}, piece ∈ own' r → ∃ r' l, (piece.1, l) ∈ own r' := by
    intro r piece hpiece
    rcases (hown r piece).mp hpiece with ⟨rfl, rfl⟩ | hpiece
    · exact ⟨p, some key₀, hp⟩
    · exact ⟨r, piece.2, hpiece⟩
  refine sharing.newKey
    (K := fun _ => True) hp hlength (fun r piece => (hown r piece).trans (or_congr_right (by simp)))
    (fun piece hpiece _ => hnot piece hpiece) ?_ (fun r d shared' hd _ hshared' => ?_) ?_
  · intro r piece hpiece
    obtain ⟨r', l, hl⟩ := hfrom hpiece
    obtain ⟨shared', holders, hshared', nodup, hcount, hholders⟩ := sharing.counted r' _ hl
    by_cases hid : piece.1.id = c.id
    · rw [hid] at hshared' hholders ⊢
      cases hshared'.symm.trans hshared
      refine ⟨_, q :: holders, update_self .., nodup_cons.mpr ⟨fun hq => ?_, nodup⟩, ?_, fun x => ?_⟩
      · obtain ⟨other, ho, hid'⟩ := (hholders q).mp hq
        exact hnot other ho hid'
      · rw [length_cons, hcount]
      · rw [mem_cons, hholders x]
        constructor
        · rintro (rfl | ⟨other, ho, hid'⟩)
          · exact ⟨_, hnew, rfl⟩
          · exact ⟨other, hkept ho, hid'⟩
        · rintro ⟨other, ho, hid'⟩
          rcases (hown x other).mp ho with ⟨rfl, -⟩ | ho
          · exact .inl rfl
          · exact .inr ⟨other, ho, hid'⟩
    · refine ⟨shared', holders, (update_of_ne hid ..).trans hshared', nodup, hcount, fun x => (hholders x).trans ?_⟩
      constructor
      · rintro ⟨other, ho, hid'⟩
        exact ⟨other, hkept ho, hid'⟩
      · rintro ⟨other, ho, hid'⟩
        rcases (hown x other).mp ho with ⟨-, rfl⟩ | ho
        · exact absurd hid'.symm hid
        · exact ⟨other, ho, hid'⟩
  · have hid : d.id ≠ c.id := by
      intro hid
      have heq := sharing.same r p _ _ hd hp hid
      dsimp only at heq
      exact hsole r (heq ▸ hd)
    exact sharing.sole r d shared' hd ((update_of_ne hid ..).symm.trans hshared')
  · intro r piece shared' key hpiece hshared' hkey
    obtain ⟨r', l, hl⟩ := hfrom hpiece
    by_cases hid : piece.1.id = c.id
    · rw [hid, update_self] at hshared'
      cases hshared'
      obtain ⟨x, hx⟩ := sharing.held r' _ shared key hl (hid ▸ hshared) hkey
      exact ⟨x, hkept hx⟩
    · obtain ⟨x, hx⟩ := sharing.held r' _ shared' key hl ((update_of_ne hid ..).symm.trans hshared') hkey
      exact ⟨x, hkept hx⟩

theorem Sharing.not_copied (hp : (c, k) ∈ own p)
    (hshared : s.mmaps c.id = some shared) {key : Nat} (hkey : s.fresh ≤ key) : shared.current ≠ .copy key := by
  intro hcurrent
  obtain ⟨r, hr⟩ := sharing.held p _ shared key hp hshared hcurrent
  exact absurd (sharing.fresh_key r _ key hr) (not_lt.mpr hkey)

omit sharing in
theorem load_has {m : Memory} (hload : m.load c.buffer c.size = some bytes) {x : Nat}
    (hx : c.Has x) : bytes[x - c.buffer]? = m x := by
  rw [Mmap.Has] at hx
  have hget := Memory.load_get hload (show x - c.buffer < c.size by omega)
  rw [← hget, Nat.add_sub_cancel' hx.1]

theorem Sharing.cloneFirst (hp : (chunk.mmap, chunk.copy) ∈ own p) (hqp : q ≠ p) (hcopy : chunk.copy = none) :
    ∃ mine clone s', Heap.cloneChunk junk chunk s = some (mine, clone, s') ∧
    Cloned own s p q chunk mine clone s' := by
  obtain ⟨shared, -, hshared, -⟩ := sharing.counted p _ hp
  rw [hcopy] at hp
  obtain ⟨hone, hnocopy⟩ := sharing.sole p _ shared hp hshared
  obtain ⟨bytes, hload⟩ := Memory.load_of_mapped (sharing.mapped p _ hp).2
  have hlength := Memory.load_length hload
  have hothers : ∀ r piece, piece ∈ own r → ¬ (r = p ∧ piece.1.id = chunk.mmap.id) → piece.1.id ≠ chunk.mmap.id :=
    fun r piece hr hnot hid => hnot ⟨sharing.alone hp hr hid hshared hone, hid⟩
  refine ⟨{ chunk with copy := some s.fresh }, { chunk with copy := some (s.fresh + 1) }, { s with
      mmaps := update s.mmaps chunk.mmap.id (some ⟨shared.refcount + 1, .copy s.fresh⟩)
      copies := update (update s.copies s.fresh (some ((range chunk.mmap.size).map junk))) (s.fresh + 1) (some bytes)
      fresh := s.fresh + 1 + 1 }, ?_, ?_⟩
  · simp only [Heap.cloneChunk, hshared, hone, hcopy, newCopy, hload, bind_eq_bind, bind_some, and_self,
      if_true, pure]
  exact {
    mine_mmap := ⟨rfl, rfl⟩
    clone_mmap := ⟨rfl, rfl⟩
    memory := rfl
    sharing := by
      intro own' hown
      have hjunk : ((range chunk.mmap.size).map junk).length = chunk.mmap.size := by simp
      let own₁ : Nat → Set Piece := fun r =>
        {piece | (r = p ∧ piece = (chunk.mmap, some s.fresh)) ∨ (piece ∈ own r ∧ piece.1.id ≠ chunk.mmap.id)}
      have sharing₁ : Sharing own₁ _ := sharing.giveCopy hp hshared hjunk fun _ _ => .rfl
      have hmine : (chunk.mmap, some s.fresh) ∈ own₁ p := .inl ⟨rfl, rfl⟩
      have sharing₂ : Sharing own' _ := sharing₁.addClone (q := q) hmine (update_self ..) hlength
        (fun piece hpiece => ?_) (fun r hr => ?_) fun r piece => ?_
      · rwa [update_idem] at sharing₂
      · rcases hpiece with ⟨rfl, -⟩ | ⟨-, hid⟩
        · exact absurd rfl hqp
        · exact hid
      · rcases hr with ⟨-, hr⟩ | ⟨-, hid⟩
        · cases congrArg Prod.snd hr
        · exact hid rfl
      · refine (hown r piece).trans (or_congr .rfl (or_congr .rfl ?_))
        constructor
        · rintro ⟨hr, hnot⟩
          exact ⟨hr, hothers r piece hr hnot⟩
        · rintro ⟨hr, hid⟩
          exact ⟨hr, fun hboth => hid hboth.2⟩
    loaded := by
      intro key hkey
      dsimp only at hkey ⊢
      rw [update_self, ← some.inj hkey]
      rfl
    others := by
      intro r piece hr hnot
      have hid := hothers r piece hr hnot
      refine ⟨fun x => holds_congr rfl (congrArg _ (update_of_ne hid ..)) fun key hkey => ?_,
        fun hloaded key hkey => ?_⟩
      · have hlt := sharing.fresh_key r piece.1 key (hkey ▸ hr)
        dsimp only
        rw [update_of_ne (by omega), update_of_ne (by omega)]
      · dsimp only
        rw [update_of_ne hid]
        exact hloaded key hkey
    bytes := by
      intro x hx
      have hnot : ¬ (some (Current.copy s.fresh) = some (Current.copy (s.fresh + 1))) := by simp
      simp only [Store.holds, update_self, map_some, hnot]
      exact load_has hload hx }

theorem Sharing.cloneMore {key : Nat} (hp : (chunk.mmap, chunk.copy) ∈ own p)
    (loaded : s.Loaded (chunk.mmap, chunk.copy))
    (hnot : ∀ piece ∈ own q, piece.1.id ≠ chunk.mmap.id) (hcopy : chunk.copy = some key) :
    ∃ mine clone s', Heap.cloneChunk junk chunk s = some (mine, clone, s') ∧
    Cloned own s p q chunk mine clone s' := by
  obtain ⟨shared, -, hshared, -⟩ := sharing.counted p _ hp
  rw [hcopy] at hp loaded
  obtain ⟨bytes, hload⟩ := Memory.load_of_mapped (sharing.mapped p _ hp).2
  have hlength := Memory.load_length hload
  have hcurrent : shared.current = .copy key := by
    have hmap := loaded key rfl
    rw [hshared] at hmap
    exact some.inj hmap
  refine ⟨chunk, { chunk with copy := some s.fresh }, { s with
      mmaps := update s.mmaps chunk.mmap.id (some { shared with refcount := shared.refcount + 1 })
      copies := update s.copies s.fresh (some bytes)
      fresh := s.fresh + 1 }, ?_, ?_⟩
  · simp only [Heap.cloneChunk, hshared, hcopy, newCopy, hload, bind_eq_bind, bind_some, reduceCtorEq, and_false,
      if_false, pure]
  have hcur : ∀ piece : Piece, ((update s.mmaps chunk.mmap.id
      (some { shared with refcount := shared.refcount + 1 })) piece.1.id).map Shared.current =
      (s.mmaps piece.1.id).map Shared.current := by
    intro piece
    by_cases hid : piece.1.id = chunk.mmap.id
    · rw [hid, update_self, hshared]
      rfl
    · rw [update_of_ne hid]
  exact {
    mine_mmap := ⟨rfl, rfl⟩
    clone_mmap := ⟨rfl, rfl⟩
    memory := rfl
    sharing := by
      intro own' hown
      refine sharing.addClone hp hshared hlength hnot (fun r hr => ?_) fun r piece => (hown r piece).trans ?_
      · obtain ⟨shared', -, hshared', -⟩ := sharing.counted r _ hr
        obtain rfl := some.inj (hshared'.symm.trans hshared)
        exact (sharing.sole r _ shared' hr hshared').2 key hcurrent
      · rw [hcopy]
        refine or_congr .rfl ⟨?_, fun hr => ?_⟩
        · rintro (⟨rfl, rfl⟩ | ⟨hr, -⟩)
          · exact hp
          · exact hr
        · by_cases hboth : r = p ∧ piece.1.id = chunk.mmap.id
          · obtain ⟨rfl, hid⟩ := hboth
            exact .inl ⟨rfl, sharing.piece_eq hr hp hid⟩
          · exact .inr ⟨hr, hboth⟩
    loaded := by
      intro key' hkey
      rw [hcopy] at hkey
      exact (hcur _).trans (loaded key' hkey)
    others := by
      intro r piece hr hother
      refine ⟨fun x => holds_congr rfl (hcur piece) fun key' hkey => ?_, fun hloaded key' hkey =>
        (hcur piece).trans (hloaded key' hkey)⟩
      have hlt := sharing.fresh_key r piece.1 key' (hkey ▸ hr)
      exact update_of_ne (by omega) ..
    bytes := by
      intro x hx
      have hfresh : ¬ shared.current = .copy s.fresh := sharing.not_copied hp hshared le_rfl
      simp only [Store.holds, update_self, map_some, some.injEq, hfresh, if_false, bind_some]
      exact load_has hload hx }

theorem Sharing.cloneChunk (junk : Nat → UInt8)
    (hp : (chunk.mmap, chunk.copy) ∈ own p) (loaded : s.Loaded (chunk.mmap, chunk.copy)) (hqp : q ≠ p)
    (hnot : ∀ piece ∈ own q, piece.1.id ≠ chunk.mmap.id) :
    ∃ mine clone s', Heap.cloneChunk junk chunk s = some (mine, clone, s') ∧
    Cloned own s p q chunk mine clone s' := by
  cases hcopy : chunk.copy with
  | none => exact sharing.cloneFirst hp hqp hcopy
  | some key => exact sharing.cloneMore hp loaded hnot hcopy

end

def piecesOf (cs : List MmapChunk) : List Piece := cs.map fun c => (c.mmap, c.copy)

/-- What the loop of `Clone` over `cs` does. -/
structure ClonedAll (own : Nat → Set Piece) (s : Store) (p q : Nat) (cs mines clones : List MmapChunk) (s' : Store) :
    Prop where
  same_mine : mines.map (fun c => (c.mmap, c.brk)) = cs.map fun c => (c.mmap, c.brk)
  same_clone : clones.map (fun c => (c.mmap, c.brk)) = cs.map fun c => (c.mmap, c.brk)
  memory : s'.memory = s.memory
  sharing : ∀ own', (∀ r piece, piece ∈ own' r ↔ (r = q ∧ piece ∈ piecesOf clones) ∨
    (r = p ∧ piece ∈ piecesOf mines) ∨
    (piece ∈ own r ∧ ¬ (r = p ∧ ∃ c ∈ cs, piece.1.id = c.mmap.id))) → Sharing own' s'
  loaded : ∀ piece ∈ piecesOf mines, s'.Loaded piece
  others : ∀ r piece, piece ∈ own r → ¬ (r = p ∧ ∃ c ∈ cs, piece.1.id = c.mmap.id) →
    (∀ x, s'.holds piece x = s.holds piece x) ∧ (s.Loaded piece → s'.Loaded piece)
  bytes : ∀ piece ∈ piecesOf clones, ∀ x, piece.1.Has x → s'.holds piece x = s.memory x

theorem Sharing.cloneChunks (junk : Nat → UInt8) (hqp : q ≠ p) (cs : List MmapChunk) :
    ∀ {own : Nat → Set Piece} {s : Store}, Sharing own s → (cs.map fun c => c.mmap.id).Nodup →
      (∀ c ∈ cs, (c.mmap, c.copy) ∈ own p ∧ s.Loaded (c.mmap, c.copy)) →
      (∀ piece ∈ own q, ∀ c ∈ cs, piece.1.id ≠ c.mmap.id) →
      ∃ mines clones s', Heap.cloneChunks junk cs s = some (mines, clones, s') ∧
      ClonedAll own s p q cs mines clones s' := by
  induction cs with
  | nil =>
    intro own s sharing _ _ _
    refine ⟨[], [], s, rfl, ⟨rfl, rfl, rfl, fun own' hown => ?_, fun _ hpiece => absurd hpiece (by simp [piecesOf]),
      fun _ _ _ _ => ⟨fun _ => rfl, id⟩, fun _ hpiece => absurd hpiece (by simp [piecesOf])⟩⟩
    have hsame : own' = own := by
      funext r
      ext piece
      simp [hown, piecesOf]
    exact hsame ▸ sharing
  | cons c cs ih =>
    intro own s sharing nodup hcs hnot
    rw [map_cons, nodup_cons] at nodup
    have hdistinct : ∀ d ∈ cs, d.mmap.id ≠ c.mmap.id := fun d hd hid =>
      nodup.1 (mem_map.mpr ⟨d, hd, hid⟩)
    obtain ⟨hc, loaded⟩ := hcs c mem_cons_self
    obtain ⟨mine, clone, s₁, hclone, cloned⟩ := sharing.cloneChunk junk hc loaded hqp fun piece hpiece =>
      hnot piece hpiece c mem_cons_self
    obtain ⟨hmine, hminebrk⟩ := cloned.mine_mmap
    obtain ⟨hclonem, hclonebrk⟩ := cloned.clone_mmap
    let own₁ : Nat → Set Piece := fun r => {piece | (r = q ∧ piece = (clone.mmap, clone.copy)) ∨
      (r = p ∧ piece = (mine.mmap, mine.copy)) ∨ (piece ∈ own r ∧ ¬ (r = p ∧ piece.1.id = c.mmap.id))}
    have sharing₁ : Sharing own₁ s₁ := cloned.sharing own₁ fun _ _ => .rfl
    have hrest : ∀ d ∈ cs, (d.mmap, d.copy) ∈ own₁ p ∧ s₁.Loaded (d.mmap, d.copy) := by
      intro d hd
      obtain ⟨hd', hloaded⟩ := hcs d (mem_cons_of_mem c hd)
      have hother : ¬ (p = p ∧ d.mmap.id = c.mmap.id) := fun hboth => hdistinct d hd hboth.2
      exact ⟨.inr (.inr ⟨hd', hother⟩), (cloned.others p _ hd' hother).2 hloaded⟩
    have hnot₁ : ∀ piece ∈ own₁ q, ∀ d ∈ cs, piece.1.id ≠ d.mmap.id := by
      rintro piece (⟨-, rfl⟩ | ⟨hq, -⟩ | ⟨hpiece, -⟩) d hd
      · rw [hclonem]
        exact (hdistinct d hd).symm
      · exact absurd hq hqp
      · exact hnot piece hpiece d (mem_cons_of_mem c hd)
    obtain ⟨mines, clones, s', hclones, all⟩ := ih sharing₁ nodup.2 hrest hnot₁
    have hmine₁ : (mine.mmap, mine.copy) ∈ own₁ p := .inr (.inl ⟨rfl, rfl⟩)
    have hclone₁ : (clone.mmap, clone.copy) ∈ own₁ q := .inl ⟨rfl, rfl⟩
    have hminenot : ¬ (p = p ∧ ∃ d ∈ cs, mine.mmap.id = d.mmap.id) := by
      rintro ⟨-, d, hd, hid⟩
      rw [hmine] at hid
      exact hdistinct d hd hid.symm
    have hclonenot : ∀ {a : Prop}, ¬ (q = p ∧ a) := fun hboth => hqp hboth.1
    have hstep : ∀ r piece, piece ∈ own r → ¬ (r = p ∧ ∃ d ∈ c :: cs, piece.1.id = d.mmap.id) →
        ¬ (r = p ∧ piece.1.id = c.mmap.id) ∧ ¬ (r = p ∧ ∃ d ∈ cs, piece.1.id = d.mmap.id) := by
      intro r piece _ hnone
      exact ⟨fun hboth => hnone ⟨hboth.1, c, mem_cons_self, hboth.2⟩,
        fun ⟨hr, d, hd, hid⟩ => hnone ⟨hr, d, mem_cons_of_mem c hd, hid⟩⟩
    refine ⟨mine :: mines, clone :: clones, s', ?_, ?_⟩
    · simp [Heap.cloneChunks, hclone, hclones]
    exact {
      same_mine := by rw [map_cons, map_cons, all.same_mine, hmine, hminebrk]
      same_clone := by rw [map_cons, map_cons, all.same_clone, hclonem, hclonebrk]
      memory := all.memory.trans cloned.memory
      sharing := by
        intro own' hown
        refine all.sharing own' fun r piece => (hown r piece).trans ?_
        constructor
        · rintro (⟨rfl, hpiece⟩ | ⟨rfl, hpiece⟩ | ⟨hpiece, hnone⟩)
          · rcases mem_cons.mp hpiece with rfl | hpiece
            · exact .inr (.inr ⟨hclone₁, hclonenot⟩)
            · exact .inl ⟨rfl, hpiece⟩
          · rcases mem_cons.mp hpiece with rfl | hpiece
            · exact .inr (.inr ⟨hmine₁, hminenot⟩)
            · exact .inr (.inl ⟨rfl, hpiece⟩)
          · obtain ⟨hfirst, hlater⟩ := hstep r piece hpiece hnone
            exact .inr (.inr ⟨.inr (.inr ⟨hpiece, hfirst⟩), hlater⟩)
        · rintro (⟨rfl, hpiece⟩ | ⟨rfl, hpiece⟩ | ⟨⟨rfl, rfl⟩ | ⟨rfl, rfl⟩ | ⟨hpiece, hfirst⟩, hlater⟩)
          · exact .inl ⟨rfl, mem_cons_of_mem _ hpiece⟩
          · exact .inr (.inl ⟨rfl, mem_cons_of_mem _ hpiece⟩)
          · exact .inl ⟨rfl, mem_cons_self⟩
          · exact .inr (.inl ⟨rfl, mem_cons_self⟩)
          · refine .inr (.inr ⟨hpiece, ?_⟩)
            rintro ⟨hr, d, hd, hid⟩
            rcases mem_cons.mp hd with rfl | hd
            · exact hfirst ⟨hr, hid⟩
            · exact hlater ⟨hr, d, hd, hid⟩
      loaded := by
        intro piece hpiece
        rcases mem_cons.mp hpiece with rfl | hpiece
        · exact (all.others p _ hmine₁ hminenot).2 cloned.loaded
        · exact all.loaded piece hpiece
      others := by
        intro r piece hpiece hnone
        obtain ⟨hfirst, hlater⟩ := hstep r piece hpiece hnone
        have first := cloned.others r piece hpiece hfirst
        have later := all.others r piece (.inr (.inr ⟨hpiece, hfirst⟩)) hlater
        exact ⟨fun x => (later.1 x).trans (first.1 x), fun hloaded => later.2 (first.2 hloaded)⟩
      bytes := by
        intro piece hpiece x hx
        rcases mem_cons.mp hpiece with rfl | hpiece
        · rw [(all.others q _ hclone₁ hclonenot).1 x]
          exact cloned.bytes x (hclonem ▸ hx)
        · rw [all.bytes piece hpiece x hx, cloned.memory] }

end

end Dce.Heap
