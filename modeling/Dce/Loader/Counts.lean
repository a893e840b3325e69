import Dce.Loader.Model

/- What the calls of a loader do to the counts of its modules and of the shared modules. -/

namespace Dce.Loader

open Counted

variable {D : Type*} {elf : Elf D} {s s' : System D} {loader id : Nat} {own own' : Nat → Nat}
    {debts gathered : List Nat} {l : List Module}
  {m : Module}

/-- How many loaders hold a module. -/
def holders (s : System D) (id : Nat) : Nat := Table.tally (fun l => decide (id ∈ ids l)) s.m_modules

/-- The shared modules are counted exactly, none of the counts is zero, and just these modules are open. `own` is
what the loaders hold, and `debts` what is still to be given back. -/
structure Shared (elf : Elf D) (own : Nat → Nat) (debts : List Nat) (s : System D) : Prop where
  counts : Counted.Sound elf.rank own debts s.modules
  opened : s.handles.Perm (ids s.modules)
  built : ∀ n ∈ s.modules, n.deps = elf.deps n.id

theorem Shared.congr {debts' : List Nat} (shared : Shared elf own debts s)
    (same : ∀ k, own k + debts.count k = own' k + debts'.count k) : Shared elf own' debts' s :=
  ⟨shared.counts.congr same, shared.opened, shared.built⟩

theorem foldl_erase_perm {gone : List (SharedModule D)} {handles rest : List Nat}
    (perm : handles.Perm (rest ++ ids gone)) :
    (gone.foldl (fun handles n => handles.erase n.id) handles).Perm rest := by
  induction gone generalizing handles with
  | nil => simpa [ids] using perm
  | cons n gone ih =>
    refine ih ((perm.erase n.id).trans ?_)
    have moved : (rest ++ ids (n :: gone)).Perm (n.id :: (rest ++ ids gone)) := List.perm_middle
    exact (moved.erase n.id).trans (by rw [List.erase_cons_head])

theorem ids_perm_of_bare {α : Type*} {l m : List (Counted Nat α)} (perm : (l.map bare).Perm (m.map bare)) :
    (ids l).Perm (ids m) := by
  have mapped := perm.map Counted.id
  rwa [List.map_map, List.map_map] at mapped

theorem Shared.unref (shared : Shared elf own (id :: debts) s) :
    Shared elf own debts (UnrefSharedModule elf id s) := by
  have order : releaseLastWith (fun n handles => handles.erase n.id) (elf.rank id + 1) id (s.modules, s.handles) =
      releaseWith (fun n handles => handles.erase n.id) (elf.rank id + 1) id (s.modules, s.handles) :=
    releaseLastWith_eq shared.counts.acyclic
  obtain ⟨p, -, gone, perm⟩ := releaseWith_gone (fun (n : SharedModule D) (handles : List Nat) => handles.erase n.id)
    (elf.rank id + 1) id s.modules [] s.handles
  have counts : Counted.Sound elf.rank own debts
      (releaseWith (fun n handles => handles.erase n.id) (elf.rank id + 1) id (s.modules, s.handles)).1 :=
    shared.counts.releaseWith (Nat.lt_succ_self _)
  have same : UnrefSharedModule elf id s =
      { s with modules := p.1, handles := p.2.foldl (fun handles n => handles.erase n.id) s.handles } := by
    simp only [UnrefSharedModule, order, gone]
  rw [gone] at counts
  rw [← List.map_append] at perm
  rw [same]
  refine ⟨counts, foldl_erase_perm (shared.opened.trans ?_), fun n inside => ?_⟩
  · have whole := ids_perm_of_bare perm
    rwa [ids, ids, List.map_append] at whole
  · have listed : bare n ∈ s.modules.map bare :=
      perm.mem_iff.mpr (List.mem_map_of_mem (List.mem_append_left _ inside))
    obtain ⟨n', inside', equal⟩ := List.mem_map.mp listed
    obtain ⟨first, third, -⟩ := eq_of_bare equal
    rw [← third, ← first]
    exact shared.built n' inside'

theorem Shared.of_frame {modules : List (SharedModule D)} (shared : Shared elf own debts s)
    (same : s.modules.map frame = modules.map frame) : Shared elf own debts { s with modules := modules } where
  counts := shared.counts.of_frame same
  opened := (of_map_frame same).1 ▸ shared.opened
  built n inside := by
    have framed : frame n ∈ s.modules.map frame := same ▸ List.mem_map_of_mem inside
    obtain ⟨n', inside', equal⟩ := List.mem_map.mp framed
    have first : n'.id = n.id := congrArg Prod.fst equal
    have third : n'.deps = n.deps := congrArg (fun p => p.2.2) equal
    rw [← third, ← first]
    exact shared.built n' inside'

theorem Shared.reset (shared : Shared elf own debts s) : Shared elf own debts (resetCurrent m s) :=
  shared.of_frame (map_frame_alter fun n => by rw [dropCurrent]; split <;> rfl).symm

theorem Shared.close (shared : Shared elf own (m.id :: debts) s) : Shared elf own debts (closeModule elf m s) :=
  shared.reset.unref

theorem Shared.closeAll {gone : List Module} (shared : Shared elf own (ids gone ++ debts) s) :
    Shared elf own debts (gone.foldl (fun s m => closeModule elf m s) s) := by
  induction gone generalizing s with
  | nil => exact shared
  | cons m gone ih => exact ih (Shared.close shared)

theorem closeAll_frame {gone : List Module} :
    (gone.foldl (fun s m => closeModule elf m s) s).m_modules = s.m_modules ∧
    (gone.foldl (fun s m => closeModule elf m s) s).memory = s.memory ∧
    (gone.foldl (fun s m => closeModule elf m s) s).nextBuffer = s.nextBuffer := by
  induction gone generalizing s with
  | nil => exact ⟨rfl, rfl, rfl⟩
  | cons m gone ih => exact ih

/-- The modules of one loader: they are counted exactly, and each comes after those that it depends on. -/
structure Held (elf : Elf D) (own : Nat → Nat) (l : List Module) : Prop where
  counts : Exact own [] l
  order : l.Pairwise fun a b => b.id ∉ a.deps
  built : ∀ m ∈ l, m.deps = elf.deps m.id

theorem Held.acyclic (held : Held elf own l) : Acyclic elf.rank l := fun m inside d mem =>
  elf.acyclic m.id d (held.built m inside ▸ mem)

theorem Held.nil : Held elf (fun _ => 0) [] := ⟨.nil, .nil, fun _ inside => by cases inside⟩

theorem Held.present (held : Held elf own l) (inside : m ∈ l) {d : Nat} (mem : d ∈ m.deps) : d ∈ ids l :=
  held.counts.present (by have := listed_pos_iff.mpr ⟨m, inside, mem⟩; omega)

theorem Held.before (held : Held elf own l) {before after : List Module} (split : l = before ++ m :: after) {d : Nat}
    (mem : d ∈ m.deps) : d ∈ ids before := by
  have inside : m ∈ l := split ▸ List.mem_append_right _ List.mem_cons_self
  have there := held.present inside mem
  rw [split, ids, List.map_append] at there
  rcases List.mem_append.mp there with first | rest
  · exact first
  · rcases List.mem_cons.mp rest with same | later
    · exact absurd (held.acyclic m inside d mem) (same ▸ lt_irrefl _)
    · obtain ⟨m', inside', same⟩ := List.mem_map.mp later
      have order := held.order
      rw [split] at order
      have apart := (List.pairwise_cons.mp (List.pairwise_append.mp order).2.1).1 m' inside'
      exact absurd (same ▸ mem) apart

theorem lookup_of_mem (present : loader ∈ s.m_modules) : s.m_modules.lookup loader = some (modulesOf loader s) := by
  obtain ⟨l, look⟩ := Option.isSome_iff_exists.mp (AList.lookup_isSome.mpr present)
  rw [modulesOf, look, Option.getD_some]

theorem modulesOf_put : modulesOf loader (s.put loader l) = l := by
  rw [modulesOf, System.put, AList.lookup_insert, Option.getD_some]

theorem holders_put (present : loader ∈ s.m_modules) (k : Nat) :
    holders (s.put loader l) k + (if k ∈ ids (modulesOf loader s) then 1 else 0) = holders s k + if k ∈ ids l then 1
    else 0 := by
  have look := lookup_of_mem present
  rw [holders, holders, System.put, Table.tally_put, Table.tally_erase look]
  simp only [decide_eq_true_eq]
  omega

theorem holders_put_new (absent : loader ∉ s.m_modules) (k : Nat) :
    holders (s.put loader l) k = holders s k + if k ∈ ids l then 1 else 0 := by
  rw [holders, holders, System.put, Table.tally_insert absent]
  simp

theorem holders_pos (present : loader ∈ s.m_modules) (inside : id ∈ ids (modulesOf loader s)) : 0 < holders s id :=
  Table.tally_pos (lookup_of_mem present) (decide_eq_true inside)

theorem shared_initial {unmapped : Nat → D} : Shared elf (holders (initial unmapped)) [] (initial unmapped) := by
  have none : holders (initial unmapped) = fun _ => 0 := rfl
  have empty : Counted.Sound elf.rank (fun _ => 0) [] (initial unmapped).modules :=
    ⟨.nil, fun _ inside => absurd inside List.not_mem_nil, fun _ inside => absurd inside List.not_mem_nil⟩
  exact ⟨empty, List.Perm.refl _, fun _ inside => by cases inside⟩

theorem Shared.present (shared : Shared elf (holders s) [] s) (here : loader ∈ s.m_modules)
    (inside : id ∈ ids (modulesOf loader s)) : id ∈ ids s.modules :=
  shared.counts.exact.present (by have := holders_pos here inside; omega)

/-- What there is once `id` has been looked for among the shared modules: its own count may still be zero. -/
structure Added (elf : Elf D) (id : Nat) (own : Nat → Nat) (s : System D) : Prop where
  exact : Exact own [] s.modules
  acyclic : Acyclic elf.rank s.modules
  opened : s.handles.Perm (ids s.modules)
  built : ∀ n ∈ s.modules, n.deps = elf.deps n.id
  there : id ∈ ids s.modules
  positive : ∀ k ∈ ids s.modules, k ≠ id → 0 < count k s.modules

theorem Shared.add (shared : Shared elf own [] s) (deps : ∀ d ∈ elf.deps id, d ∈ ids s.modules) :
    Added elf id own (addShared elf id s) := by
  unfold addShared
  cases found : find id s.modules with
  | some n =>
    exact ⟨shared.counts.exact, shared.counts.acyclic, shared.opened, shared.built,
      find_isSome.mp (by rw [found]; rfl),
      fun k inside _ => shared.counts.positive k inside⟩
  | none =>
    have absent := find_eq_none.mp found
    have acquired := shared.counts.exact.acquireAll deps
    have sameIds : ids ((elf.deps id).foldl (fun l d => acquire d l) s.modules) = ids s.modules := ids_acquireAll
    let node : SharedModule D := ⟨id, 0, elf.deps id, ⟨elf.data id, elf.data id, none⟩⟩
    have pushed : Exact own [] ((elf.deps id).foldl (fun l d => acquire d l) s.modules ++ [node]) :=
      acquired.push (sameIds ▸ absent) rfl
    have allIds : ids ((elf.deps id).foldl (fun l d => acquire d l) s.modules ++ [node]) = ids s.modules ++
        [id] := by
      rw [ids, List.map_append]
      exact congrArg (· ++ [id]) sameIds
    refine ⟨pushed, shared.counts.acyclic.acquireAll.push (elf.acyclic id), ?_, fun n inside => ?_, ?_,
      fun k inside other => ?_⟩
    · rw [allIds]
      exact (shared.opened.cons id).trans (List.perm_append_singleton _ _).symm
    · rcases List.mem_append.mp inside with old | new
      · obtain ⟨n', inside', first, third, -⟩ := exists_of_map_bare map_bare_acquireAll old
        rw [← third, ← first]
        exact shared.built n' inside'
      · rw [List.mem_singleton.mp new]
    · rw [allIds]
      simp
    · rw [allIds] at inside
      have old : k ∈ ids s.modules := (List.mem_append.mp inside).resolve_right fun last =>
        other (List.mem_singleton.mp last)
      have before := shared.counts.positive k old
      have counted := shared.counts.exact.exact k
      rw [pushed.exact k, listed_append, listed_acquireAll]
      omega

/-- What the call does to the modules of its loader: new modules come at the end. -/
structure Loaded (elf : Elf D) (loader : Nat) (gathered : List Nat) (s s' : System D) : Prop where
  here : loader ∈ s'.m_modules
  shared : Shared elf (holders s') [] s'
  others : ∀ other, other ≠ loader → s'.m_modules.lookup other = s.m_modules.lookup other
  more : ∃ new, ids (modulesOf loader s') = ids (modulesOf loader s) ++ new ∧ ∀ k ∈ new, k ∈ gathered
  listed : ∀ k, listed k (modulesOf loader s) ≤ listed k (modulesOf loader s')

theorem Loaded.refl (here : loader ∈ s.m_modules) (shared : Shared elf (holders s) [] s) :
    Loaded elf loader gathered s s :=
  ⟨here, shared, fun _ _ => rfl, ⟨[], (List.append_nil _).symm, fun _ wrong => by cases wrong⟩, fun _ =>
    Nat.le_refl _⟩

theorem Loaded.trans {t : System D} (first : Loaded elf loader gathered s s')
    (second : Loaded elf loader gathered s' t) :
    Loaded elf loader gathered s t where
  here := second.here
  shared := second.shared
  others other apart := (second.others other apart).trans (first.others other apart)
  more := by
    obtain ⟨new, same, all⟩ := first.more
    obtain ⟨new', same', all'⟩ := second.more
    exact ⟨new ++ new', by rw [same', same, List.append_assoc], fun k inside =>
      (List.mem_append.mp inside).elim (all k) (all' k)⟩
  listed k := (first.listed k).trans (second.listed k)

theorem addShared_frame : (addShared elf id s).m_modules = s.m_modules ∧ (addShared elf id s).memory = s.memory ∧
    (addShared elf id s).nextBuffer = s.nextBuffer := by
  unfold addShared
  split <;> exact ⟨rfl, rfl, rfl⟩

theorem Held.push (held : Held elf own l) (absent : id ∉ ids l) (deps : ∀ d ∈ elf.deps id, d ∈ ids l)
    (buffer : Nat) :
    Held elf own ((elf.deps id).foldl (fun l d => acquire d l) l ++ [⟨id, 0, elf.deps id, buffer⟩]) where
  counts := (held.counts.acquireAll deps).push (by rw [ids_acquireAll]; exact absent) rfl
  order := by
    refine List.pairwise_append.mpr ⟨pairwise_of_map_bare map_bare_acquireAll.symm held.order,
      List.pairwise_singleton .., ?_⟩
    intro a inside b last mem
    rw [List.mem_singleton.mp last] at mem
    have pos := listed_pos_iff.mpr ⟨a, inside, mem⟩
    rw [listed_acquireAll] at pos
    exact absurd (held.counts.absent absent).2.2 (Nat.pos_iff_ne_zero.mp pos)
  built m inside := by
    rcases List.mem_append.mp inside with old | new
    · obtain ⟨m', inside', first, third, -⟩ := exists_of_map_bare map_bare_acquireAll old
      rw [← third, ← first]
      exact held.built m' inside'
    · rw [List.mem_singleton.mp new]

theorem ids_push {ds : List Nat} : ids (ds.foldl (fun l d => acquire d l) l ++ [m]) = ids l ++ [m.id] := by
  have acquired : ids (ds.foldl (fun l d => acquire d l) l) = ids l := ids_acquireAll
  rw [ids, List.map_append]
  exact congrArg (· ++ [m.id]) acquired

theorem holders_push (here : loader ∈ s.m_modules) (absent : id ∉ ids (modulesOf loader s))
    (pushed : ids l = ids (modulesOf loader s) ++ [id]) (k : Nat) :
    holders (s.put loader l) k = holders s k + if k = id then 1 else 0 := by
  have counted := holders_put (l := l) here k
  have inside : k ∈ ids l ↔ k ∈ ids (modulesOf loader s) ∨ k = id := by
    rw [pushed, List.mem_append, List.mem_singleton]
  simp only [inside] at counted
  by_cases self : k = id
  · rw [self] at counted ⊢
    simp only [absent, if_false, or_true] at counted ⊢
    omega
  · simp only [self, or_false, if_false] at counted ⊢
    omega

theorem Added.counted {modules : List (SharedModule D)} (added : Added elf id own s)
    (one : ∀ k, own' k = own k + if k = id then 1 else 0)
    (same : (acquire id s.modules).map frame = modules.map frame) :
    Shared elf own' [] { s with modules := modules } := by
  have exact : Exact own' [] (Counted.acquire id s.modules) := by
    refine (added.exact.acquire added.there).congr fun k => ?_
    rw [one]
    by_cases self : k = id
    · rw [self, List.count_cons_self, if_pos rfl]
      rfl
    · rw [List.count_cons_of_ne fun same => self same.symm, if_neg self, Nat.add_zero]
  have shared : Shared elf own' [] { s with modules := Counted.acquire id s.modules } := by
    have sameIds : ids (Counted.acquire id s.modules) = ids s.modules := ids_acquire
    refine ⟨⟨exact, fun k inside => ?_, added.acyclic.acquire⟩, sameIds.symm ▸ added.opened, fun n inside => ?_⟩
    · by_cases self : k = id
      · have counted := exact.exact k
        rw [one, if_pos self] at counted
        show 0 < count k (Counted.acquire id s.modules)
        omega
      · have still : count k (Counted.acquire id s.modules) = count k s.modules :=
          count_alter_of_ne self fun _ => rfl
        rw [still]
        exact added.positive k (sameIds ▸ inside) self
    · obtain ⟨n', inside', rfl | rfl⟩ := mem_alter inside
      · exact added.built n inside'
      · exact added.built n' inside'
  exact shared.of_frame same

theorem newModule_list (there : id ∈ ids s.modules) : modulesOf loader (newModule elf loader id s) =
    (elf.deps id).foldl (fun l d => acquire d l) (modulesOf loader s) ++ [⟨id, 0, elf.deps id, s.nextBuffer⟩] := by
  obtain ⟨shared, found⟩ := Option.isSome_iff_exists.mp (find_isSome.mpr there)
  rw [newModule, found]
  exact modulesOf_put

theorem Added.loaded (added : Added elf id (holders s) s) (here : loader ∈ s.m_modules)
    (absent : id ∉ ids (modulesOf loader s))
    (mem : id ∈ gathered) :
    Loaded elf loader gathered s (newModule elf loader id s) ∧
    id ∈ ids (modulesOf loader (newModule elf loader id s)) := by
  have listEq : modulesOf loader (newModule elf loader id s) = _ := newModule_list added.there
  obtain ⟨shared, found⟩ := Option.isSome_iff_exists.mp (find_isSome.mpr added.there)
  have idsEq : ids ((elf.deps id).foldl (fun l d => acquire d l) (modulesOf loader s) ++
    [⟨id, 0, elf.deps id, s.nextBuffer⟩]) =
      ids (modulesOf loader s) ++ [id] := ids_push
  have one : ∀ k, holders (newModule elf loader id s) k = holders s k + if k = id then 1 else 0 := by
    rw [newModule, found]
    exact holders_push here absent idsEq
  constructor
  · constructor
    case here =>
      rw [newModule, found]
      exact (AList.mem_insert _).mpr (.inl rfl)
    case shared =>
      have whole : ∀ modules : List (SharedModule D), (acquire id s.modules).map frame = modules.map frame →
          Shared elf (holders (newModule elf loader id s)) [] { s with modules := modules } :=
        fun _ same => added.counted one same
      rw [newModule, found] at whole ⊢
      have done := whole (alter id (putTemplate s.nextBuffer) s.modules) (map_frame_congr fun _ => rfl)
      exact ⟨done.counts, done.opened, done.built⟩
    case others =>
      intro other apart
      rw [newModule, found]
      exact AList.lookup_insert_ne apart
    case more =>
      rw [listEq]
      exact ⟨[id], idsEq, fun k inside => List.mem_singleton.mp inside ▸ mem⟩
    case listed =>
      intro k
      rw [listEq, listed_append, listed_acquireAll]
      omega
  · rw [listEq, idsEq]
    simp

theorem Added.of_shared (shared : Shared elf own [] s) (there : id ∈ ids s.modules) : Added elf id own s :=
  ⟨shared.counts.exact, shared.counts.acyclic, shared.opened, shared.built, there, fun k inside _ =>
    shared.counts.positive k inside⟩

theorem modulesOf_addShared : modulesOf loader (addShared elf id s) = modulesOf loader s := by
  rw [modulesOf, addShared_frame.1, modulesOf]

theorem holders_addShared : holders (addShared elf id s) = holders s := by
  funext k
  rw [holders, addShared_frame.1, holders]

theorem loadOne_present (here : loader ∈ s.m_modules) (shared : Shared elf (holders s) [] s)
    (inside : id ∈ ids (modulesOf loader s)) :
    loadOne elf loader s id = s := by
  obtain ⟨n, already⟩ := Option.isSome_iff_exists.mp (find_isSome.mpr (shared.present here inside))
  obtain ⟨m, found⟩ := Option.isSome_iff_exists.mp (find_isSome.mpr inside)
  have same : addShared elf id s = s := by rw [addShared, already]
  simp only [loadOne, same, found]

theorem loadOne_absent (absent : id ∉ ids (modulesOf loader s)) :
    loadOne elf loader s id = newModule elf loader id (addShared elf id s) := by
  simp only [loadOne, modulesOf_addShared, find_eq_none.mpr absent]

theorem loadOne_spec (here : loader ∈ s.m_modules) (shared : Shared elf (holders s) [] s)
    (deps : ∀ d ∈ elf.deps id, d ∈ ids (modulesOf loader s)) (mem : id ∈ gathered) :
    Loaded elf loader gathered s (loadOne elf loader s id) ∧
    id ∈ ids (modulesOf loader (loadOne elf loader s id)) := by
  by_cases inside : id ∈ ids (modulesOf loader s)
  · rw [loadOne_present here shared inside]
    exact ⟨.refl here shared, inside⟩
  · have added := shared.add fun d mem => shared.present here (deps d mem)
    have sameHolders : holders (addShared elf id s) = holders s := holders_addShared
    rw [← sameHolders] at added
    rw [loadOne_absent inside]
    have sameList : modulesOf loader (addShared elf id s) = modulesOf loader s := modulesOf_addShared
    rw [← sameList] at inside
    obtain ⟨loaded, there⟩ := added.loaded (addShared_frame.1.symm ▸ here) inside mem
    refine ⟨⟨loaded.here, loaded.shared, fun other apart => ?_, ?_, fun k => ?_⟩, there⟩
    · rw [loaded.others other apart, addShared_frame.1]
    · have more := loaded.more
      rwa [modulesOf_addShared] at more
    · have fewer := loaded.listed k
      rwa [modulesOf_addShared] at fewer

/-- The modules come one by one, those that a module depends on before it. `I` is what else each of them keeps. -/
theorem loadAll_spec (I : System D → Prop) (before : List Nat) {rest : List Nat} (split : gathered = before ++ rest)
    (ordered : ∀ before id after, gathered = before ++ id :: after → ∀ d ∈ elf.deps id, d ∈ before)
    (keep : ∀ s id, loader ∈ s.m_modules → Shared elf (holders s) [] s →
      (∀ d ∈ elf.deps id, d ∈ ids (modulesOf loader s)) →
      I s → I (loadOne elf loader s id))
    (here : loader ∈ s.m_modules) (shared : Shared elf (holders s) [] s) (first : I s)
    (done : ∀ k ∈ before, k ∈ ids (modulesOf loader s)) :
    Loaded elf loader gathered s (rest.foldl (loadOne elf loader) s) ∧ I (rest.foldl (loadOne elf loader) s) ∧
      ∀ k ∈ gathered, k ∈ ids (modulesOf loader (rest.foldl (loadOne elf loader) s)) := by
  induction rest generalizing s before with
  | nil => exact ⟨.refl here shared, first, fun k inside => done k (by simpa [split] using inside)⟩
  | cons id rest ih =>
    have mem : id ∈ gathered := by simp [split]
    have deps : ∀ d ∈ elf.deps id, d ∈ ids (modulesOf loader s) :=
      fun d inside => done d (ordered before id rest split d inside)
    obtain ⟨one, inside⟩ := loadOne_spec here shared deps mem
    obtain ⟨new, same, -⟩ := one.more
    have kept : ∀ k ∈ before ++ [id], k ∈ ids (modulesOf loader (loadOne elf loader s id)) := fun k there => by
      rcases List.mem_append.mp there with old | last
      · rw [same]
        exact List.mem_append_left _ (done k old)
      · exact List.mem_singleton.mp last ▸ inside
    obtain ⟨others, last, all⟩ := ih (before ++ [id]) (by rw [split, List.append_assoc]; rfl) one.here one.shared
      (keep s id here shared deps first) kept
    exact ⟨one.trans others, last, all⟩

theorem Held.loadOne (held : Held elf own (modulesOf loader s)) (here : loader ∈ s.m_modules)
    (shared : Shared elf (holders s) [] s)
    (deps : ∀ d ∈ elf.deps id, d ∈ ids (modulesOf loader s)) :
    Held elf own (modulesOf loader (loadOne elf loader s id)) := by
  by_cases inside : id ∈ ids (modulesOf loader s)
  · rw [loadOne_present here shared inside]
    exact held
  · have added := shared.add fun d mem => shared.present here (deps d mem)
    rw [loadOne_absent inside, newModule_list added.there, modulesOf_addShared]
    exact held.push inside deps _

theorem LoadModule_spec (file : String) {I : System D → Prop} (here : loader ∈ s.m_modules)
    (shared : Shared elf (holders s) [] s)
    (keep : ∀ s id, loader ∈ s.m_modules → Shared elf (holders s) [] s →
      (∀ d ∈ elf.deps id, d ∈ ids (modulesOf loader s)) →
      I s → I (loadOne elf loader s id)) (first : I s) :
    Loaded elf loader (elf.gather file) s (LoadModule elf loader file s).1 ∧ I (LoadModule elf loader file s).1 ∧
      ∀ k ∈ elf.gather file, k ∈ ids (modulesOf loader (LoadModule elf loader file s).1) :=
  loadAll_spec I [] rfl (elf.ordered file) keep here shared first fun _ inside => absurd inside List.not_mem_nil

theorem Load_spec (file : String) (here : loader ∈ s.m_modules) (shared : Shared elf (holders s) [] s) :
    loader ∈ (Load elf loader file s).1.m_modules ∧
      (∀ other, other ≠ loader → (Load elf loader file s).1.m_modules.lookup other = s.m_modules.lookup other) ∧
      (∀ k, k ∈ ids (modulesOf loader s) ∨ k ∈ elf.gather file →
        k ∈ ids (modulesOf loader (Load elf loader file s).1)) := by
  obtain ⟨loaded, -, all⟩ :=
    LoadModule_spec file (I := fun _ => True) here shared (fun _ _ _ _ _ _ => trivial) trivial
  obtain ⟨new, more, -⟩ := loaded.more
  have grows : ∀ k, k ∈ ids (modulesOf loader s) ∨ k ∈ elf.gather file →
      k ∈ ids (modulesOf loader (LoadModule elf loader file s).1) :=
    fun k either => either.elim (fun old => more ▸ List.mem_append_left new old) (all k)
  cases root : (elf.gather file).getLast? with
  | none =>
    have same : (Load elf loader file s).1 = (LoadModule elf loader file s).1 := by simp only [Load,
      LoadModule, root]
    rw [same]
    exact ⟨loaded.here, loaded.others, grows⟩
  | some id =>
    have same : (Load elf loader file s).1 = (LoadModule elf loader file s).1.put loader
        (acquire id (modulesOf loader (LoadModule elf loader file s).1)) := by simp only [Load, LoadModule, root]
    rw [same, modulesOf_put, ids_acquire]
    exact ⟨(AList.mem_insert _).mpr (.inl rfl), fun other apart =>
      (AList.lookup_insert_ne apart).trans (loaded.others other apart), grows⟩

theorem Loaded.client {file : String} (loaded : Loaded elf loader (elf.gather file) s s')
    (held : Held elf own (modulesOf loader s')) (positive : ∀ k ∈ ids (modulesOf loader s), 0 <
      count k (modulesOf loader s)) (before : Held elf own (modulesOf loader s))
    (all : ∀ k ∈ elf.gather file, k ∈ ids (modulesOf loader s')) (root : (elf.gather file).getLast? = some id) :
    Held elf (fun k => own k + if k = id then 1 else 0) (acquire id (modulesOf loader s')) ∧
      ∀ k ∈ ids (acquire id (modulesOf loader s')), 0 < count k (acquire id (modulesOf loader s')) := by
  have there : id ∈ ids (modulesOf loader s') := all id (List.mem_of_getLast? root)
  have exact : Exact (fun k => own k + if k = id then 1 else 0) [] (acquire id (modulesOf loader s')) := by
    refine (held.counts.acquire there).congr fun k => ?_
    by_cases self : k = id
    · rw [self, List.count_cons_self, if_pos rfl]
      rfl
    · rw [List.count_cons_of_ne fun same => self same.symm, if_neg self, Nat.add_zero]
  refine ⟨⟨exact, pairwise_of_map_bare map_bare_acquire.symm held.order, fun m inside => ?_⟩, ?_⟩
  · obtain ⟨m', inside', rfl | rfl⟩ := mem_alter inside
    · exact held.built m inside'
    · exact held.built m' inside'
  · rw [exact.positive_iff]
    intro k inside
    rw [ids_acquire] at inside
    rw [listed_acquire]
    obtain ⟨new, same, gathered⟩ := loaded.more
    rw [same] at inside
    rcases List.mem_append.mp inside with old | fresh
    · have pos := positive k old
      rw [before.counts.exact k] at pos
      have mono := loaded.listed k
      omega
    · rcases elf.needed file k (gathered k fresh) with last | ⟨j, mem, lists⟩
      · have self : k = id := Option.some.inj (last.symm.trans root)
        rw [if_pos self]
        omega
      · obtain ⟨n, member', sameId⟩ := List.mem_map.mp (all j mem)
        have pos : 0 < Counted.listed k (modulesOf loader s') := listed_pos_iff.mpr ⟨n, member', by
          rw [held.built n member', sameId]
          exact lists⟩
        omega

theorem Shared.indebted {gone : List Module} (shared : Shared elf (holders s) [] s) (here : loader ∈ s.m_modules)
    (whole : ((modulesOf loader s).map bare).Perm ((l ++ gone).map bare))
    (nodup : (ids (modulesOf loader s)).Nodup) :
    Shared elf (holders (s.put loader l)) (ids gone ++ []) s := by
  have perm : (ids (modulesOf loader s)).Perm (ids l ++ ids gone) := by
    have mapped := ids_perm_of_bare whole
    rwa [ids, ids, List.map_append] at mapped
  refine shared.congr fun k => ?_
  have counted := holders_put (l := l) here k
  have sum := perm.count_eq k
  have apart := perm.nodup_iff.mp nodup
  rw [List.count_append] at sum
  rw [List.append_nil, List.count_nil]
  have first := List.Nodup.count (a := k) nodup
  have second := List.Nodup.count (a := k) (List.nodup_append.mp apart).1
  omega

theorem Shared.replace {gone : List Module} (shared : Shared elf (holders s) [] s) (here : loader ∈ s.m_modules)
    (whole : ((modulesOf loader s).map bare).Perm ((l ++ gone).map bare))
    (nodup : (ids (modulesOf loader s)).Nodup) :
    Shared elf (holders ((gone.foldl (fun s m => closeModule elf m s) s).put loader l)) []
      ((gone.foldl (fun s m => closeModule elf m s) s).put loader l) := by
  have sameLoaders : ((gone.foldl (fun s m => closeModule elf m s) s).put loader l).m_modules =
      (s.put loader l).m_modules := by
    rw [System.put, System.put, closeAll_frame.1]
  have sameHolders : holders ((gone.foldl (fun s m => closeModule elf m s) s).put loader l) =
      holders (s.put loader l) := by
    funext k
    rw [holders, sameLoaders, holders]
  have closed := (shared.indebted here whole nodup).closeAll
  rw [sameHolders]
  exact ⟨closed.counts, closed.opened, closed.built⟩

theorem Unload_eq (elf : Elf D) (loader handle : Nat) (s : System D) : ∃ p : List Module × List Module,
    Unload elf loader handle s = (p.2.foldl (fun s m => closeModule elf m s) s).put loader p.1 ∧
      p.1 = (releaseWith (closeModule elf) (elf.rank handle + 1) handle (modulesOf loader s, s)).1 ∧
      ((modulesOf loader s).map bare).Perm ((p.1 ++ p.2).map bare) := by
  obtain ⟨p, -, gone, perm⟩ :=
    releaseWith_gone (closeModule elf) (elf.rank handle + 1) handle (modulesOf loader s) [] s
  rw [← List.map_append] at perm
  exact ⟨p, by simp only [Unload, gone], by rw [gone], perm⟩

theorem Held.release {close : Module → System D → System D} {fuel k : Nat} (held : Held elf own l)
    (positive : ∀ k ∈ ids l, 0 < count k l)
    (enough : elf.rank k < fuel) (owned : 0 < own k) :
    Held elf (fun j => own j - if j = k then 1 else 0) (releaseWith close fuel k (l, s)).1 ∧
      ∀ j ∈ ids (releaseWith close fuel k (l, s)).1, 0 < count j (releaseWith close fuel k (l, s)).1 := by
  have sound : Counted.Sound elf.rank (fun j => own j - if j = k then 1 else 0) [k] l := by
    refine Counted.Sound.congr ⟨held.counts, positive, held.acyclic⟩ fun j => ?_
    by_cases self : j = k
    · rw [self, List.count_cons_self, if_pos rfl]
      omega
    · rw [List.count_cons_of_ne fun same => self same.symm, if_neg self]
      omega
  have released : Counted.Sound elf.rank (fun j => own j - if j = k then 1 else 0) []
      (releaseWith close fuel k (l, s)).1 :=
    sound.releaseWith enough
  refine ⟨⟨released.exact, ?_, fun m inside => ?_⟩, released.positive⟩
  · have order : (l.map bare).Pairwise fun a b => b.id ∉ a.deps := List.pairwise_map.mpr held.order
    exact List.pairwise_map.mp (order.sublist sublist_releaseWith)
  · have there : bare m ∈ l.map bare := sublist_releaseWith.subset (List.mem_map_of_mem inside)
    obtain ⟨m', inside', equal⟩ := List.mem_map.mp there
    obtain ⟨first, third, -⟩ := eq_of_bare equal
    rw [← third, ← first]
    exact held.built m' inside'

/-- The modules that the clone has so far, of those that come `before` in the list of the loader: the edges have
been counted once more. -/
structure Copied (before : List Module) (c : List Module) : Prop where
  ids : ids c = ids before
  listed : ∀ k, listed k c = listed k before
  count : ∀ k, count k c = count k before + Counted.listed k before

theorem Copied.push {before c : List Module} (copied : Copied before c) (deps : ∀ d ∈ m.deps, d ∈ Counted.ids before)
    (closed : ∀ k, k ∉ Counted.ids before → Counted.listed k before = 0) (buffer : Nat) :
    Copied (before ++ [m]) (m.deps.foldl (fun l d => acquire d l) c ++ [⟨m.id, m.refcount, m.deps, buffer⟩]) where
  ids := by
    rw [ids_push, copied.ids]
    simp [Counted.ids]
  listed k := by
    rw [listed_append, listed_append, listed_acquireAll, copied.listed]
    rfl
  count k := by
    have present : ∀ d ∈ m.deps, d ∈ Counted.ids c := copied.ids.symm ▸ deps
    have alone : Counted.listed k [m] = m.deps.count k := by simp [Counted.listed]
    rw [count_append_singleton, count_append_singleton, ids_acquireAll, copied.ids, listed_append,
      count_acquireAll present,
      copied.count, alone]
    by_cases inside : k ∈ Counted.ids before
    · rw [if_pos inside, if_pos inside]
      omega
    · have outside : m.deps.count k = 0 := List.count_eq_zero.mpr fun mem => inside (deps k mem)
      rw [if_neg inside, if_neg inside, closed k inside, outside]
      rfl

theorem cloneOne_eq {c : List Module} {node : SharedModule D} (found : find m.id s.modules = some node) :
    cloneOne (c, s) m =
    (m.deps.foldl (fun l d => acquire d l) c ++ [⟨m.id, m.refcount, m.deps, s.nextBuffer⟩], { s with
        modules := acquire m.id s.modules
        memory := Function.update s.memory s.nextBuffer node.value.data_buffer
        nextBuffer := s.nextBuffer + 1 }) := by
  simp only [cloneOne, found]

theorem cloneAll_shared (rest : List Module) {c : List Module} (shared : Shared elf own' [] s)
    (there : ∀ k ∈ ids rest, k ∈ ids s.modules) :
    Shared elf (fun k => own' k + (ids rest).count k) [] (rest.foldl cloneOne (c, s)).2 ∧
      (rest.foldl cloneOne (c, s)).2.m_modules = s.m_modules ∧ ids (rest.foldl cloneOne (c, s)).1 = ids c ++
      ids rest := by
  induction rest generalizing c s own' with
  | nil => exact ⟨shared, rfl, (List.append_nil _).symm⟩
  | cons m rest ih =>
    have inside : m.id ∈ ids s.modules := there m.id List.mem_cons_self
    obtain ⟨node, found⟩ := Option.isSome_iff_exists.mp (find_isSome.mpr inside)
    have acquired := (Added.of_shared shared inside).counted (fun _ => rfl) rfl
    have sameIds : ids (acquire m.id s.modules) = ids s.modules := ids_acquire
    rw [List.foldl_cons, cloneOne_eq found]
    let t : System D := { s with
      modules := acquire m.id s.modules
      memory := Function.update s.memory s.nextBuffer node.value.data_buffer
      nextBuffer := s.nextBuffer + 1 }
    have before : Shared elf (fun k => own' k + if k = m.id then 1 else 0) [] t :=
      ⟨acquired.counts, acquired.opened, acquired.built⟩
    obtain ⟨after, loaders, whole⟩ :=
      ih (c := m.deps.foldl (fun l d => acquire d l) c ++ [⟨m.id, m.refcount, m.deps, s.nextBuffer⟩])
      before fun k later => sameIds.symm ▸ there k (List.mem_cons_of_mem _ later)
    refine ⟨after.congr fun k => ?_, loaders, ?_⟩
    · have counted : (ids (m :: rest)).count k = (ids rest).count k + if k = m.id then 1 else 0 := by
        show (m.id :: ids rest).count k = _
        rw [List.count_cons]
        simp [eq_comm (a := k)]
      omega
    · rw [whole, ids_push, List.append_assoc]
      rfl

theorem cloneAll_copied (rest before : List Module) {c : List Module} (held : Held elf own l)
    (split : l = before ++ rest)
    (copied : Copied before c) (there : ∀ k ∈ ids l, k ∈ ids s.modules) :
    Copied l (rest.foldl cloneOne (c, s)).1 := by
  induction rest generalizing before c s with
  | nil =>
    rw [List.append_nil] at split
    exact split ▸ copied
  | cons m rest ih =>
    have inside : m.id ∈ ids s.modules :=
      there m.id (List.mem_map_of_mem (split ▸ List.mem_append_right _ List.mem_cons_self))
    obtain ⟨node, found⟩ := Option.isSome_iff_exists.mp (find_isSome.mpr inside)
    have closed : ∀ k, k ∉ ids before → listed k before = 0 := fun k outside => by
      by_contra some
      obtain ⟨a, mem, lists⟩ := listed_pos_iff.mp (pos_of_ne_zero some)
      obtain ⟨first, last, halves⟩ := List.append_of_mem mem
      have around : l = first ++ a :: (last ++ m :: rest) := by
        rw [split, halves, List.append_assoc]
        rfl
      have earlier := held.before around lists
      refine outside ?_
      rw [halves, ids, List.map_append]
      exact List.mem_append_left _ earlier
    have pushed := copied.push (fun d mem => held.before split mem) closed s.nextBuffer
    have sameIds : ids (acquire m.id s.modules) = ids s.modules := ids_acquire
    have cut : l = before ++ [m] ++ rest := by
      rw [split, List.append_assoc]
      rfl
    rw [List.foldl_cons, cloneOne_eq found]
    exact ih (before ++ [m]) cut pushed fun k mem => sameIds.symm ▸ there k mem

theorem Shared.clone {clone : Nat} (shared : Shared elf (holders s) [] s) (present : loader ∈ s.m_modules)
    (absent : clone ∉ s.m_modules)
    (nodup : (ids (modulesOf loader s)).Nodup) : ∃ (c : List Module) (t : System D),
    ((modulesOf loader s).foldl cloneOne ([], s)) = (c, t) ∧ Clone loader clone s = t.put clone c ∧
    t.m_modules = s.m_modules ∧
      ids c = ids (modulesOf loader s) ∧ Shared elf (holders (t.put clone c)) [] (t.put clone c) := by
  obtain ⟨after, loaders, whole⟩ := cloneAll_shared (modulesOf loader s) (c := []) shared
    fun _ inside => shared.present present inside
  refine ⟨_, _, rfl, rfl, loaders, whole, ?_⟩
  have all : holders (((modulesOf loader s).foldl cloneOne ([], s)).2.put clone
    ((modulesOf loader s).foldl cloneOne ([], s)).1) =
      fun k => holders s k + (ids (modulesOf loader s)).count k := by
    funext k
    rw [holders_put_new (by rw [loaders]; exact absent), whole, List.Nodup.count nodup, holders, loaders, holders]
    rfl
  rw [all]
  exact ⟨after.counts, after.opened, after.built⟩

theorem switchOne_eq (s : System D) (m : Module) :
    ∃ modules memory, switchOne s m = { s with modules := modules, memory := memory } ∧
    s.modules.map frame = modules.map frame := by
  rw [switchOne]
  cases find m.id s.modules with
  | none => exact ⟨s.modules, s.memory, rfl, rfl⟩
  | some shared =>
    dsimp only
    split
    · exact ⟨s.modules, s.memory, rfl, rfl⟩
    · have same : (alter m.id (restore m.value (save shared s.memory m.value)) s.modules).map frame =
          s.modules.map frame :=
        map_frame_alter fun _ => rfl
      exact ⟨_, _, rfl, same.symm⟩

theorem Shared.switchOne (shared : Shared elf own debts s) : Shared elf own debts (switchOne s m) := by
  obtain ⟨modules, memory, same, framed⟩ := switchOne_eq s m
  have done := shared.of_frame framed
  rw [same]
  exact ⟨done.counts, done.opened, done.built⟩

theorem Shared.write {data : D} (shared : Shared elf own debts s) : Shared elf own debts (write id data s) := by
  have same : (alter id (setData data) s.modules).map frame = s.modules.map frame := map_frame_alter fun _ => rfl
  exact shared.of_frame same.symm

end Dce.Loader
