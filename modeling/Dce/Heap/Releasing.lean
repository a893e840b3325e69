import Dce.Heap.Sharing

/- What the calls of one process, and its end, do to the pieces of memory of all processes. -/

namespace Dce.Heap

open Function List Option

section

variable {own own' : Nat → Set Piece} {s s' : Store} {p q : Nat} {c d : Mmap} {k l : Option Nat}

/-- The bytes of every other process stay, and stay in place if they are. -/
def KeepsOthers (own : Nat → Set Piece) (p : Nat) (s s' : Store) : Prop :=
  ∀ q, q ≠ p → ∀ piece ∈ own q, (∀ x, piece.1.Has x → s'.holds piece x = s.holds piece x) ∧
  (s.Loaded piece → s'.Loaded piece)

theorem KeepsOthers.refl (own : Nat → Set Piece) (p : Nat) (s : Store) : KeepsOthers own p s s :=
  fun _ _ _ _ => ⟨fun _ _ => rfl, id⟩

theorem KeepsOthers.trans {s₁ s₂ : Store} (first : KeepsOthers own p s s₁) (second : KeepsOthers own p s₁ s₂) :
    KeepsOthers own p s s₂ := by
  intro q hq piece hpiece
  obtain ⟨hold₁, hloaded₁⟩ := first q hq piece hpiece
  obtain ⟨hold₂, hloaded₂⟩ := second q hq piece hpiece
  exact ⟨fun x hx => (hold₂ x hx).trans (hold₁ x hx), fun hloaded => hloaded₂ (hloaded₁ hloaded)⟩

theorem loaded_congr {piece : Piece} (hcurrent : ∀ key, piece.2 = some key →
    ((s'.mmaps piece.1.id).map Shared.current = some (.copy key) ↔
      (s.mmaps piece.1.id).map Shared.current = some (.copy key))) (hloaded : s.Loaded piece) : s'.Loaded piece :=
  fun key hkey => (hcurrent key hkey).mpr (hloaded key hkey)

theorem Sharing.keepsOthers (sharing : Sharing own s) (loaded : ∀ piece ∈ own p, s.Loaded piece)
    (hmemory : ∀ x, (∀ piece ∈ own p, ¬ piece.1.Has x) → (s.memory x).isSome → s'.memory x = s.memory x)
    (hmmaps : ∀ q piece, piece ∈ own q → s'.mmaps piece.1.id = s.mmaps piece.1.id) (hcopies : s'.copies = s.copies) :
    KeepsOthers own p s s' := by
  intro q hqp piece hpiece
  refine ⟨fun x hx => ?_, loaded_congr fun key _ => by rw [hmmaps q piece hpiece]⟩
  by_cases hshared : ∃ mine ∈ own p, mine.1.id = piece.1.id
  · obtain ⟨mine, hmine, hid⟩ := hshared
    obtain ⟨key, hkey, hnot⟩ := sharing.not_loaded hmine hpiece hqp hid.symm (loaded mine hmine)
    obtain ⟨c, k⟩ := piece
    subst hkey
    have hnot' : ¬ (s'.mmaps c.id).map Shared.current = some (.copy key) := by
      rw [hmmaps q _ hpiece]
      exact hnot
    dsimp only [Store.holds] at hnot ⊢
    rw [if_neg hnot, if_neg hnot', hcopies]
  · have hsome : (s.memory x).isSome := (sharing.mapped q piece hpiece).2 x hx.1 hx.2
    refine holds_congr (hmemory x (fun mine hmine => ?_) hsome) (by rw [hmmaps q piece hpiece]) fun key _ =>
      by rw [hcopies]
    have hid : piece.1.id ≠ mine.1.id := fun hid => hshared ⟨mine, hmine, hid.symm⟩
    exact (sharing.apart q p piece mine hpiece hmine hid).not_has hx

theorem Sharing.newPiece (sharing : Sharing own s) {size answer : Nat} (hpos : 0 < size)
    (hfree : s.memory.Free answer size) {memory : Memory} (hnew : memory.Mapped answer size)
    (hold : ∀ r piece, piece ∈ own r → memory.Mapped piece.1.buffer piece.1.size)
    (hown : ∀ r piece, piece ∈ own' r ↔ (r = p ∧ piece = (⟨s.fresh, size, answer⟩, none)) ∨ piece ∈ own r) :
    Sharing own' { s with
      memory := memory
      mmaps := update s.mmaps s.fresh (some ⟨1, .buffer⟩)
      fresh := s.fresh + 1 } := by
  have hne : ∀ {r piece}, piece ∈ own r → piece.1.id ≠ s.fresh :=
    fun hpiece => ne_of_lt (sharing.fresh_id _ _ hpiece)
  have hapart : ∀ r piece, piece ∈ own r → Mmap.Apart ⟨s.fresh, size, answer⟩ piece.1 := fun r piece hpiece =>
    hfree.apart (sharing.mapped r piece hpiece).2 hpos (sharing.mapped r piece hpiece).1
  have hcopy : ∀ {r d key}, (d, some key) ∈ own' r → (d, some key) ∈ own r := by
    intro r d key hd
    rcases (hown r _).mp hd with ⟨-, hd⟩ | hd
    · cases congrArg Prod.snd hd
    · exact hd
  exact {
    counted := by
      intro r piece hpiece
      rcases (hown r piece).mp hpiece with ⟨rfl, rfl⟩ | hpiece
      · refine ⟨⟨1, .buffer⟩, [r], update_self .., by simp, rfl, fun x => ?_⟩
        rw [mem_singleton]
        constructor
        · rintro rfl
          exact ⟨_, hpiece, rfl⟩
        · rintro ⟨other, ho, hid⟩
          rcases (hown x other).mp ho with ⟨rfl, -⟩ | ho
          · rfl
          · exact absurd hid (hne ho)
      · obtain ⟨shared, holders, hshared, nodup, hcount, hholders⟩ := sharing.counted r piece hpiece
        refine ⟨shared, holders, (update_of_ne (hne hpiece) ..).trans hshared, nodup, hcount, fun x =>
          (hholders x).trans ?_⟩
        constructor
        · rintro ⟨other, ho, hid⟩
          exact ⟨other, (hown x other).mpr (.inr ho), hid⟩
        · rintro ⟨other, ho, hid⟩
          rcases (hown x other).mp ho with ⟨-, rfl⟩ | ho
          · exact absurd hid.symm (hne hpiece)
          · exact ⟨other, ho, hid⟩
    once := by
      intro r d k l hk hl
      rcases (hown r _).mp hk with ⟨-, hk⟩ | hk
      · rcases (hown r _).mp hl with ⟨-, hl⟩ | hl
        · rw [Prod.mk.injEq] at hk hl
          rw [hk.2, hl.2]
        · exact absurd (congrArg (fun piece => piece.1.id) hk) (hne hl)
      · rcases (hown r _).mp hl with ⟨-, hl⟩ | hl
        · exact absurd (congrArg (fun piece => piece.1.id) hl) (hne hk)
        · exact sharing.once r d k l hk hl
    same := by
      intro r x piece other hpiece ho hid
      rcases (hown r _).mp hpiece with ⟨-, rfl⟩ | hpiece
      · rcases (hown x _).mp ho with ⟨-, rfl⟩ | ho
        · rfl
        · exact absurd hid.symm (hne ho)
      · rcases (hown x _).mp ho with ⟨-, rfl⟩ | ho
        · exact absurd hid (hne hpiece)
        · exact sharing.same r x piece other hpiece ho hid
    apart := by
      intro r x piece other hpiece ho hid
      rcases (hown r _).mp hpiece with ⟨-, rfl⟩ | hpiece
      · rcases (hown x _).mp ho with ⟨-, rfl⟩ | ho
        · exact absurd rfl hid
        · exact hapart x other ho
      · rcases (hown x _).mp ho with ⟨-, rfl⟩ | ho
        · exact (hapart r piece hpiece).symm
        · exact sharing.apart r x piece other hpiece ho hid
    mapped := by
      intro r piece hpiece
      rcases (hown r _).mp hpiece with ⟨-, rfl⟩ | hpiece
      · exact ⟨hpos, hnew⟩
      · exact ⟨(sharing.mapped r piece hpiece).1, hold r piece hpiece⟩
    sole := by
      intro r d shared hd hshared
      dsimp only at hshared
      rcases (hown r _).mp hd with ⟨-, hd⟩ | hd
      · rw [Prod.mk.injEq] at hd
        rw [hd.1, update_self] at hshared
        cases hshared
        exact ⟨rfl, fun key => by simp⟩
      · exact sharing.sole r d shared hd ((update_of_ne (hne hd) ..).symm.trans hshared)
    copied := fun r d key hd => sharing.copied r d key (hcopy hd)
    keys := fun r x d e key hd he => sharing.keys r x d e key (hcopy hd) (hcopy he)
    held := by
      intro r piece shared key hpiece hshared hkey
      dsimp only at hshared
      rcases (hown r _).mp hpiece with ⟨-, rfl⟩ | hpiece
      · rw [update_self] at hshared
        cases hshared
        cases hkey
      · obtain ⟨x, hx⟩ :=
          sharing.held r piece shared key hpiece ((update_of_ne (hne hpiece) ..).symm.trans hshared) hkey
        exact ⟨x, (hown x _).mpr (.inr hx)⟩
    fresh_id := by
      intro r piece hpiece
      rcases (hown r _).mp hpiece with ⟨-, rfl⟩ | hpiece
      · exact Nat.lt_succ_self _
      · exact Nat.lt_succ_of_lt (sharing.fresh_id r piece hpiece)
    fresh_key := fun r d key hd => Nat.lt_succ_of_lt (sharing.fresh_key r d key (hcopy hd)) }

theorem Sharing.giveUp (sharing : Sharing own s) (hsole : ∀ r other, other ∈ own r → other.1.id = c.id → r = p)
    (hown : ∀ r other, other ∈ own' r ↔ other ∈ own r ∧ ¬ (r = p ∧ other.1.id = c.id))
    (hmapped : ∀ r other, other ∈ own' r → s'.memory.Mapped other.1.buffer other.1.size)
    (hmmaps : ∀ r other, other ∈ own' r → s'.mmaps other.1.id = s.mmaps other.1.id)
    (hcopies : ∀ r d key, (d, some key) ∈ own' r → s'.copies key = s.copies key) (hfresh : s'.fresh = s.fresh) :
    Sharing own' s' := by
  have hsub : ∀ {r other}, other ∈ own' r → other ∈ own r := fun ho => ((hown _ _).mp ho).1
  have hid : ∀ {r other}, other ∈ own' r → other.1.id ≠ c.id := fun ho hid =>
    ((hown _ _).mp ho).2 ⟨hsole _ _ (hsub ho) hid, hid⟩
  exact {
    counted := by
      intro r other ho
      obtain ⟨shared, holders, hshared, nodup, hcount, hholders⟩ := sharing.counted r other (hsub ho)
      refine ⟨shared, holders, (hmmaps r other ho).trans hshared, nodup, hcount, fun x => (hholders x).trans ?_⟩
      constructor
      · rintro ⟨third, ht, htid⟩
        exact ⟨third, (hown x third).mpr ⟨ht, fun hboth => hid ho (htid.symm.trans hboth.2)⟩, htid⟩
      · rintro ⟨third, ht, htid⟩
        exact ⟨third, hsub ht, htid⟩
    once := fun r d k l hk hl => sharing.once r d k l (hsub hk) (hsub hl)
    same := fun r x a b ha hb => sharing.same r x a b (hsub ha) (hsub hb)
    apart := fun r x a b ha hb => sharing.apart r x a b (hsub ha) (hsub hb)
    mapped := fun r a ha => ⟨(sharing.mapped r a (hsub ha)).1, hmapped r a ha⟩
    sole := fun r d shared hd hshared => sharing.sole r d shared (hsub hd) ((hmmaps r _ hd).symm.trans hshared)
    copied := by
      intro r d key hd
      obtain ⟨bytes, hbytes, hlength⟩ := sharing.copied r d key (hsub hd)
      exact ⟨bytes, (hcopies r d key hd).trans hbytes, hlength⟩
    keys := fun r x d e key hd he => sharing.keys r x d e key (hsub hd) (hsub he)
    held := by
      intro r other shared key ho hshared hkey
      obtain ⟨x, hx⟩ := sharing.held r other shared key (hsub ho) ((hmmaps r other ho).symm.trans hshared) hkey
      exact ⟨x, (hown x _).mpr ⟨hx, fun hboth => hid ho hboth.2⟩⟩
    fresh_id := fun r a ha => hfresh ▸ sharing.fresh_id r a (hsub ha)
    fresh_key := fun r d key hd => hfresh ▸ sharing.fresh_key r d key (hsub hd) }

variable {shared : Shared} {chunk : MmapChunk}

section

variable (sharing : Sharing own s)
include sharing

theorem Sharing.leave (hp : (c, k) ∈ own p) (hshared : s.mmaps c.id = some shared) (hmore : shared.refcount ≠ 1)
    (hown : ∀ r other, other ∈ own' r ↔ other ∈ own r ∧ ¬ (r = p ∧ other.1.id = c.id)) {current : Current}
    (hcurrent : ∀ key, current = .copy key → shared.current = .copy key ∧ k ≠ some key)
    (hmemory : s'.memory = s.memory)
    (hmmaps : s'.mmaps = update s.mmaps c.id (some ⟨shared.refcount - 1, current⟩))
    (hcopies : ∀ r d key, (d, some key) ∈ own' r → s'.copies key = s.copies key) (hfresh : s'.fresh = s.fresh) :
    Sharing own' s' := by
  have hsub : ∀ {r other}, other ∈ own' r → other ∈ own r := fun ho => ((hown _ _).mp ho).1
  exact {
    counted := by
      intro r other ho
      obtain ⟨shared', holders, hshared', nodup, hcount, hholders⟩ := sharing.counted r other (hsub ho)
      rw [hmmaps]
      by_cases hid : other.1.id = c.id
      · rw [hid] at hshared' hholders ⊢
        cases hshared'.symm.trans hshared
        have hin : p ∈ holders := (hholders p).mpr ⟨_, hp, rfl⟩
        refine ⟨_, holders.erase p, update_self .., nodup.erase p, ?_, fun x => ?_⟩
        · rw [length_erase_of_mem hin, hcount]
        · rw [nodup.mem_erase_iff, hholders x]
          constructor
          · rintro ⟨hxp, third, ht, htid⟩
            exact ⟨third, (hown x third).mpr ⟨ht, fun hboth => hxp hboth.1⟩, htid⟩
          · rintro ⟨third, ht, htid⟩
            obtain ⟨ht', hnot⟩ := (hown x third).mp ht
            exact ⟨fun hxp => hnot ⟨hxp, htid⟩, third, ht', htid⟩
      · refine ⟨shared', holders, (update_of_ne hid ..).trans hshared', nodup, hcount, fun x =>
          (hholders x).trans ?_⟩
        constructor
        · rintro ⟨third, ht, htid⟩
          exact ⟨third, (hown x third).mpr ⟨ht, fun hboth => hid (htid.symm.trans hboth.2)⟩, htid⟩
        · rintro ⟨third, ht, htid⟩
          exact ⟨third, hsub ht, htid⟩
    once := fun r d k l hk hl => sharing.once r d k l (hsub hk) (hsub hl)
    same := fun r x a b ha hb => sharing.same r x a b (hsub ha) (hsub hb)
    apart := fun r x a b ha hb => sharing.apart r x a b (hsub ha) (hsub hb)
    mapped := fun r a ha => hmemory ▸ sharing.mapped r a (hsub ha)
    sole := by
      intro r d shared' hd hshared'
      have hid : d.id ≠ c.id := by
        intro hid
        exact hmore (sharing.sole r d shared (hsub hd) (hid ▸ hshared)).1
      rw [hmmaps] at hshared'
      exact sharing.sole r d shared' (hsub hd) ((update_of_ne hid ..).symm.trans hshared')
    copied := by
      intro r d key hd
      obtain ⟨bytes, hbytes, hlength⟩ := sharing.copied r d key (hsub hd)
      exact ⟨bytes, (hcopies r d key hd).trans hbytes, hlength⟩
    keys := fun r x d e key hd he => sharing.keys r x d e key (hsub hd) (hsub he)
    held := by
      intro r other shared' key ho hshared' hkey
      rw [hmmaps] at hshared'
      by_cases hid : other.1.id = c.id
      · rw [hid, update_self] at hshared'
        cases hshared'
        obtain ⟨hold, hne⟩ := hcurrent key hkey
        obtain ⟨x, hx⟩ := sharing.held r other shared key (hsub ho) (hid ▸ hshared) hold
        refine ⟨x, (hown x _).mpr ⟨hx, ?_⟩⟩
        rintro ⟨rfl, -⟩
        have heq := sharing.piece_eq hx hp hid
        exact hne (congrArg Prod.snd heq).symm
      · obtain ⟨x, hx⟩ := sharing.held r other shared' key (hsub ho) ((update_of_ne hid ..).symm.trans hshared') hkey
        exact ⟨x, (hown x _).mpr ⟨hx, fun hboth => hid hboth.2⟩⟩
    fresh_id := fun r a ha => hfresh ▸ sharing.fresh_id r a (hsub ha)
    fresh_key := fun r d key hd => hfresh ▸ sharing.fresh_key r d key (hsub hd) }

theorem Sharing.freeCopy (hp : (c, k) ∈ own p) :
    ∃ s', Heap.freeCopy s k = some s' ∧ s'.memory = s.memory ∧ s'.mmaps = s.mmaps ∧ s'.fresh = s.fresh ∧
      ∀ r d key, (d, some key) ∈ own r → ¬ (r = p ∧ d.id = c.id) → s'.copies key = s.copies key := by
  cases k with
  | none => exact ⟨s, rfl, rfl, rfl, rfl, fun _ _ _ _ _ => rfl⟩
  | some key =>
    obtain ⟨bytes, hbytes, -⟩ := sharing.copied p c key hp
    refine ⟨{ s with copies := update s.copies key none }, ?_, rfl, rfl, rfl, fun r d key' hd hnot => ?_⟩
    · simp [Heap.freeCopy, hbytes]
    · refine update_of_ne ?_ ..
      rintro rfl
      exact hnot (sharing.keys r p d c key' hd hp)

variable (hp : (chunk.mmap, chunk.copy) ∈ own p)
include hp

theorem Sharing.releaseLast (hshared : s.mmaps chunk.mmap.id = some shared) (hone : shared.refcount = 1)
    (hown : ∀ r other, other ∈ own' r ↔ other ∈ own r ∧ ¬ (r = p ∧ other.1.id = chunk.mmap.id)) :
    ∃ s', Heap.releaseChunk s chunk = some s' ∧ Sharing own' s' ∧ KeepsOthers own p s s' := by
  obtain ⟨s₁, hfree, hmemory, hmmaps, hfresh, hcopies⟩ := sharing.freeCopy hp
  have hsole : ∀ r other, other ∈ own r → other.1.id = chunk.mmap.id → r = p := fun r other ho hid =>
    sharing.alone hp ho hid hshared hone
  have hapart : ∀ r other, other ∈ own r → other.1.id ≠ chunk.mmap.id →
      ∀ x, other.1.Has x → s₁.memory.unmap chunk.mmap.buffer chunk.mmap.size x = s.memory x := by
    intro r other ho hid x hx
    have hout := (sharing.apart r p other _ ho hp hid).not_has hx
    rw [← hmemory]
    exact if_neg hout
  have hne : ∀ r other, other ∈ own' r → other.1.id ≠ chunk.mmap.id := fun r other ho hid =>
    ((hown r other).mp ho).2 ⟨hsole r other ((hown r other).mp ho).1 hid, hid⟩
  refine ⟨{ MmapFree chunk.mmap.buffer chunk.mmap.size s₁ with
    mmaps := update s₁.mmaps chunk.mmap.id none }, ?_, ?_, fun q hqp other ho => ?_⟩
  · simp [Heap.releaseChunk, hshared, hfree, hone]
  · refine sharing.giveUp hsole hown (fun r other ho => ?_) (fun r other ho => ?_) (fun r d key hd => ?_) hfresh
    · intro x lower upper
      have hold := ((hown r other).mp ho).1
      have hsome := (sharing.mapped r other hold).2 x lower upper
      rw [← hapart r other hold (hne r other ho) x ⟨lower, upper⟩] at hsome
      exact hsome
    · dsimp only
      rw [update_of_ne (hne r other ho), hmmaps]
    · have hd' := (hown r _).mp hd
      exact hcopies r d key hd'.1 hd'.2
  · have hid : other.1.id ≠ chunk.mmap.id := fun hid => hqp (hsole q other ho hid)
    have hcurrent : update s₁.mmaps chunk.mmap.id none other.1.id = s.mmaps other.1.id := by
      rw [update_of_ne hid, hmmaps]
    refine ⟨fun x hx => holds_congr (hapart q other ho hid x hx) (congrArg _ hcurrent) fun key hkey => ?_,
      loaded_congr fun key _ => by dsimp only; rw [hcurrent]⟩
    exact hcopies q other.1 key (hkey ▸ ho) fun hboth => hqp hboth.1

theorem Sharing.releaseShared (hshared : s.mmaps chunk.mmap.id = some shared) (hmore : 1 < shared.refcount)
    (hown : ∀ r other, other ∈ own' r ↔ other ∈ own r ∧ ¬ (r = p ∧ other.1.id = chunk.mmap.id)) :
    ∃ s', Heap.releaseChunk s chunk = some s' ∧ Sharing own' s' ∧ KeepsOthers own p s s' := by
  obtain ⟨s₁, hfree, hmemory, hmmaps, hfresh, hcopies⟩ := sharing.freeCopy hp
  -- the current of the piece stays, unless it is the copy that goes
  obtain ⟨current, hcurrent⟩ : ∃ current, current =
      if chunk.copy ≠ none ∧ .ofCopy chunk.copy = shared.current then .null else shared.current := ⟨_, rfl⟩
  have hstays : ∀ key, chunk.copy ≠ some key → (current = .copy key ↔ shared.current = .copy key) := by
    intro key hkey
    rw [hcurrent]
    split
    next hgoes =>
      rw [← hgoes.2]
      cases hcopy : chunk.copy with
      | none => simp [Current.ofCopy]
      | some key' =>
        rw [hcopy] at hkey
        simpa [Current.ofCopy] using fun heq => hkey (congrArg some heq)
    · exact .rfl
  have hleaves : ∀ key, current = .copy key → shared.current = .copy key ∧ chunk.copy ≠ some key := by
    intro key hkey
    rw [hcurrent] at hkey
    split at hkey
    · cases hkey
    next hnot =>
      refine ⟨hkey, fun hcopy => hnot ⟨by rw [hcopy]; simp, ?_⟩⟩
      rw [hcopy, hkey]
      rfl
  refine ⟨{ s₁ with mmaps := update s₁.mmaps chunk.mmap.id (some ⟨shared.refcount - 1, current⟩) }, ?_, ?_,
    fun q hqp other ho => ?_⟩
  · have hrest : ¬ shared.refcount - 1 = 0 := by omega
    simp [Heap.releaseChunk, hshared, hfree, hrest, hcurrent]
  · refine sharing.leave hp hshared (by omega) hown hleaves hmemory (by rw [← hmmaps]) (fun r d key hd => ?_) hfresh
    have hd' := (hown r _).mp hd
    exact hcopies r d key hd'.1 hd'.2
  · suffices hcurrent : ∀ key, other.2 = some key →
        ((update s₁.mmaps chunk.mmap.id (some ⟨shared.refcount - 1, current⟩) other.1.id).map Shared.current =
          some (.copy key) ↔ (s.mmaps other.1.id).map Shared.current = some (.copy key)) by
      refine ⟨fun x _ => holds_congr_iff (by rw [← hmemory]) hcurrent fun key hkey => ?_, loaded_congr hcurrent⟩
      exact hcopies q other.1 key (hkey ▸ ho) fun hboth => hqp hboth.1
    · intro key hkey
      by_cases hid : other.1.id = chunk.mmap.id
      · rw [hid, update_self, hshared, map_some, map_some, some.injEq, some.injEq]
        refine hstays key fun hcopy => hqp ?_
        have ho' : (other.1, some key) ∈ own q := hkey ▸ ho
        have hp' : (chunk.mmap, some key) ∈ own p := hcopy ▸ hp
        exact (sharing.keys q p _ _ key ho' hp').1
      · rw [update_of_ne hid, hmmaps]

theorem Sharing.releaseChunk (hown : ∀ r other, other ∈ own' r ↔ other ∈ own r ∧
      ¬ (r = p ∧ other.1.id = chunk.mmap.id)) :
    ∃ s', Heap.releaseChunk s chunk = some s' ∧ Sharing own' s' ∧ KeepsOthers own p s s' := by
  obtain ⟨shared, holders, hshared, -, hcount, hholders⟩ := sharing.counted p _ hp
  have hpos : 0 < holders.length := length_pos_of_mem ((hholders p).mpr ⟨_, hp, rfl⟩)
  rcases Nat.eq_or_lt_of_le (show 1 ≤ shared.refcount by omega) with hone | hmore
  · exact sharing.releaseLast hp hshared hone.symm hown
  · exact sharing.releaseShared hp hshared hmore hown

omit sharing hp in
theorem Sharing.release (cs : List MmapChunk) : ∀ {own : Nat → Set Piece} {s : Store}, Sharing own s →
    (cs.map fun c => c.mmap.id).Nodup → (∀ c ∈ cs, (c.mmap, c.copy) ∈ own p) →
    ∃ s', cs.foldlM Heap.releaseChunk s = some s' ∧ KeepsOthers own p s s' ∧
      ∀ own', (∀ r piece, piece ∈ own' r ↔ piece ∈ own r ∧ ¬ (r = p ∧ ∃ c ∈ cs, piece.1.id = c.mmap.id)) →
      Sharing own' s' := by
  induction cs with
  | nil =>
    intro own s sharing _ _
    refine ⟨s, rfl, KeepsOthers.refl own p s, fun own' hown => ?_⟩
    have hsame : own' = own := by
      funext r
      ext piece
      simp [hown]
    exact hsame ▸ sharing
  | cons c cs ih =>
    intro own s sharing nodup hcs
    rw [map_cons, nodup_cons] at nodup
    let own₁ : Nat → Set Piece := fun r => {piece | piece ∈ own r ∧ ¬ (r = p ∧ piece.1.id = c.mmap.id)}
    have hown₁ : ∀ r piece, piece ∈ own₁ r ↔ piece ∈ own r ∧ ¬ (r = p ∧ piece.1.id = c.mmap.id) := fun _ _ => .rfl
    obtain ⟨s₁, hrelease, sharing₁, keeps₁⟩ := sharing.releaseChunk (hcs c mem_cons_self) hown₁
    have hrest : ∀ d ∈ cs, (d.mmap, d.copy) ∈ own₁ p := fun d hd =>
      ⟨hcs d (mem_cons_of_mem c hd), fun hboth => nodup.1 (mem_map.mpr ⟨d, hd, hboth.2⟩)⟩
    obtain ⟨s', hfold, keeps', hsharing⟩ := ih sharing₁ nodup.2 hrest
    refine ⟨s', ?_, keeps₁.trans fun q hq piece hpiece => keeps' q hq piece ⟨hpiece, fun hboth => hq hboth.1⟩,
      fun own' hown => hsharing own' fun r piece => (hown r piece).trans ?_⟩
    · rw [foldlM_cons, hrelease]
      exact hfold
    · constructor
      · rintro ⟨hpiece, hnone⟩
        exact ⟨⟨hpiece, fun hboth => hnone ⟨hboth.1, c, mem_cons_self, hboth.2⟩⟩,
          fun ⟨hr, d, hd, hid⟩ => hnone ⟨hr, d, mem_cons_of_mem c hd, hid⟩⟩
      · rintro ⟨⟨hpiece, hfirst⟩, hlater⟩
        refine ⟨hpiece, ?_⟩
        rintro ⟨hr, d, hd, hid⟩
        rcases mem_cons.mp hd with rfl | hd
        · exact hfirst ⟨hr, hid⟩
        · exact hlater ⟨hr, d, hd, hid⟩

theorem Sharing.disposeChunk : ∃ s', Heap.disposeChunk s chunk = some s' ∧ Sharing own s' ∧
    KeepsOthers own p s s' := by
  obtain ⟨shared, -, hshared, -⟩ := sharing.counted p _ hp
  by_cases hmine : .ofCopy chunk.copy = shared.current
  · refine ⟨{ s with mmaps := update s.mmaps chunk.mmap.id (some { shared with current := .null }) }, ?_,
      sharing.setCurrent hp hshared fun key hkey => absurd hkey nofun, fun q hqp piece hpiece => ?_⟩
    · simp [Heap.disposeChunk, hshared, hmine]
    · suffices hcurrent : ∀ key, piece.2 = some key →
          ((update s.mmaps chunk.mmap.id (some { shared with current := .null }) piece.1.id).map Shared.current =
            some (.copy key) ↔ (s.mmaps piece.1.id).map Shared.current = some (.copy key)) from
        ⟨fun x _ => holds_congr_iff rfl hcurrent fun _ _ => rfl, loaded_congr hcurrent⟩
      intro key hkey
      by_cases hid : piece.1.id = chunk.mmap.id
      · -- that piece is in place for the process that ends, so for no other
        have hnot : shared.current ≠ .copy key := by
          intro hcurrent
          rw [hcurrent] at hmine
          cases hcopy : chunk.copy with
          | none =>
            rw [hcopy] at hmine
            exact absurd hmine (by simp [Current.ofCopy])
          | some key' =>
            rw [hcopy] at hmine hp
            obtain rfl := Current.copy.inj hmine
            have hpiece' : (piece.1, some key') ∈ own q := hkey ▸ hpiece
            exact hqp (sharing.keys q p _ _ key' hpiece' hp).1
        rw [hid, hshared]
        simp [hnot]
      · rw [update_of_ne hid]
  · refine ⟨s, ?_, sharing, KeepsOthers.refl own p s⟩
    simp [Heap.disposeChunk, hshared, hmine]

end

theorem Sharing.dispose (cs : List MmapChunk) : ∀ {s : Store}, Sharing own s → (∀ c ∈ cs, (c.mmap, c.copy) ∈ own p) →
    ∃ s', cs.foldlM Heap.disposeChunk s = some s' ∧ Sharing own s' ∧ KeepsOthers own p s s' := by
  induction cs with
  | nil => exact fun sharing _ => ⟨_, rfl, sharing, KeepsOthers.refl own p _⟩
  | cons c cs ih =>
    intro s sharing hcs
    obtain ⟨s₁, hdispose, sharing₁, keeps₁⟩ := sharing.disposeChunk (hcs c mem_cons_self)
    obtain ⟨s', hfold, sharing', keeps'⟩ := ih sharing₁ fun d hd => hcs d (mem_cons_of_mem c hd)
    refine ⟨s', ?_, sharing', keeps₁.trans keeps'⟩
    rw [foldlM_cons, hdispose]
    exact hfold

end

end Dce.Heap
