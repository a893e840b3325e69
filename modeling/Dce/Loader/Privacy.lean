import Dce.Loader.Contents

/- Each process has global variables of its own, although the modules have one data section for all of them. -/

namespace Dce.Loader

open Counted Function List Option

variable {D : Type*} {elf : Elf D} {s s' : System D} {loader loader' id id' b c : Nat} {v v' : Section D}
    {l : List Module}

/-- What the run has done: `executing` is the loader whose `NotifyStartExecute` came last, `owner` the loader that
was the last to start while it had a module, or to load the module, and `view` what the processes last wrote
there. -/
structure Globals (D : Type*) where
  executing : Option Nat
  owner : Nat → Option Nat
  view : Nat → Nat → D

variable {g : Globals D} {a : Label D}

/-- The modules `new` come to a loader. -/
def Globals.bring (elf : Elf D) (loader : Nat) (new : List Nat) (g : Globals D) : Globals D where
  executing := g.executing
  owner id := if id ∈ new then some loader else g.owner id
  view other id := if other = loader ∧ id ∈ new then elf.data id else g.view other id

def Globals.start (loader : Nat) (modules : List Nat) (g : Globals D) : Globals D where
  executing := some loader
  owner id := if id ∈ modules then some loader else g.owner id
  view := g.view

def brought (loader : Nat) (s s' : System D) : List Nat :=
  (ids (modulesOf loader s')).filter fun id => id ∉ ids (modulesOf loader s)

def record (elf : Elf D) (s : System D) (a : Label D) (g : Globals D) : Globals D :=
  match a with
  | .create _ => g
  | .load loader file => g.bring elf loader (brought loader s (Load elf loader file s).1)
  | .unload _ _ => g
  | .unloadAll _ => g
  | .clone loader clone => { g with view := update g.view clone (g.view loader) }
  | .start loader => g.start loader (ids (modulesOf loader s))
  | .write loader id data => { g with view := update g.view loader (update (g.view loader) id data) }

def observed (elf : Elf D) (blank : D) : Machine (System D × Globals D) (Label D) :=
  (machine elf).ledgered ⟨none, fun _ => none, fun _ _ => blank⟩ (record elf)

/-- Every process has what it last wrote, and what the owner of a module has is in the data section. -/
structure Private (elf : Elf D) (s : System D) (g : Globals D) : Prop where
  placed : Placed elf s
  views : ∀ loader id b, buffer loader id s = some b → contents id b s = g.view loader id
  owned : ∀ loader id b, g.owner id = some loader → buffer loader id s = some b →
    ∃ v, sectionOf id s = some v ∧ v.current_buffer = some b
  owners : ∀ loader id, g.owner id = some loader → loader ∈ s.m_modules

theorem Private.reads (priv : Private elf s g) (owner : g.owner id = some loader)
    (held : buffer loader id s = some b) :
    ∃ v, sectionOf id s = some v ∧ v.data_buffer = g.view loader id := by
  obtain ⟨v, found, here⟩ := priv.owned loader id b owner held
  have seen := priv.views loader id b held
  rw [contents_of_some found, if_pos here] at seen
  exact ⟨v, found, seen⟩

theorem modulesOf_put_of_ne (apart : loader' ≠ loader) :
    modulesOf loader' (s.put loader l) = modulesOf loader' s := by
  rw [modulesOf, System.put, AList.lookup_insert_ne apart, modulesOf]

theorem buffer_put : buffer loader id (s.put loader l) = valueOf id l := by rw [buffer, modulesOf_put]

theorem buffer_put_of_ne (apart : loader' ≠ loader) : buffer loader' id (s.put loader l) = buffer loader' id s := by
  rw [buffer, modulesOf_put_of_ne apart, buffer]

theorem Private.put (priv : Private elf s g) (nodup : (ids l).Nodup)
    (same : ∀ id, valueOf id l = buffer loader id s) :
    Private elf (s.put loader l) g := by
  have all : ∀ loader' id, buffer loader' id (s.put loader l) = buffer loader' id s := fun loader' id => by
    by_cases self : loader' = loader
    · rw [self, buffer_put, same]
    · exact buffer_put_of_ne self
  obtain ⟨placed, views, owned, owners⟩ := priv
  refine ⟨⟨fun loader' => ?_, ?_, ?_, ?_, placed.template⟩, ?_, ?_, fun other id owner =>
    (AList.mem_insert _).mpr (.inr (owners other id owner))⟩
  · by_cases self : loader' = loader
    · rw [self, modulesOf_put]
      exact nodup
    · rw [modulesOf_put_of_ne self]
      exact placed.nodup loader'
  · intro loader' id b held
    exact placed.fresh loader' id b ((all loader' id).symm.trans held)
  · intro first second id id' b held held'
    exact placed.apart first second id id' b ((all first id).symm.trans held) ((all second id').symm.trans held')
  · intro id v b found here
    obtain ⟨owner, held⟩ := placed.live id v b found here
    exact ⟨owner, (all owner id).trans held⟩
  · intro loader' id b held
    exact views loader' id b ((all loader' id).symm.trans held)
  · intro loader' id b owner held
    exact owned loader' id b owner ((all loader' id).symm.trans held)

theorem mem_ids_of_buffer (held : buffer loader id s = some b) : id ∈ ids (modulesOf loader s) :=
  valueOf_isSome.mp (by rw [← buffer, held]; rfl)

theorem buffer_of_mem_ids (inside : id ∈ ids (modulesOf loader s)) : ∃ b, buffer loader id s = some b :=
  isSome_iff_exists.mp (valueOf_isSome.mpr inside)

theorem sectionOf_addShared (k : Nat) : sectionOf k (addShared elf id s) =
    if k = id ∧ sectionOf k s = none then some ⟨elf.data k, elf.data k, none⟩ else sectionOf k s := by
  unfold addShared
  cases found : find id s.modules with
  | some n =>
    have there : sectionOf id s = some n.value := by rw [sectionOf, valueOf, found, map_some]
    refine (if_neg fun both => ?_).symm
    rw [both.1, there] at both
    cases both.2
  | none =>
    have absent : sectionOf id s = none := by rw [sectionOf, valueOf, found, map_none]
    have pushed : sectionOf k (addShared elf id s) = (sectionOf k s).or
        (if id = k then some ⟨elf.data id, elf.data id, none⟩ else none) := by
      rw [addShared, found]
      exact valueOf_push.trans (by rw [valueOf_acquireAll, sectionOf])
    rw [addShared, found] at pushed
    rw [pushed]
    by_cases same : k = id
    · rw [same, absent, if_pos rfl, if_pos ⟨rfl, rfl⟩, none_or]
    · rw [if_neg fun h => same h.symm, if_neg fun both => same both.1, or_none]

theorem buffer_addShared : buffer loader id' (addShared elf id s) = buffer loader id' s := by
  rw [buffer, modulesOf_addShared, buffer]

theorem contents_addShared : contents id' b (addShared elf id s) = contents id' b s := by
  have memory : (addShared elf id s).memory = s.memory := addShared_frame.2.1
  have whole : sectionOf id' (addShared elf id s) = _ := sectionOf_addShared id'
  by_cases new : id' = id ∧ sectionOf id' s = none
  · rw [if_pos new] at whole
    rw [contents_of_some whole, contents_of_none new.2, memory]
    exact if_neg fun wrong => by cases wrong
  · rw [if_neg new] at whole
    exact contents_congr whole (congrFun memory b)

theorem buffer_newModule (there : id ∈ ids s.modules) (k : Nat) : buffer loader k (newModule elf loader id s) =
    (buffer loader k s).or (if id = k then some s.nextBuffer else none) := by
  rw [buffer, newModule_list there]
  exact valueOf_push.trans (by rw [valueOf_acquireAll, buffer])

theorem buffer_newModule_of_ne (apart : loader' ≠ loader) (k : Nat) :
    buffer loader' k (newModule elf loader id s) = buffer loader' k s := by
  rw [newModule]
  split
  · rfl
  · exact buffer_put_of_ne apart

theorem sectionOf_newModule (there : id ∈ ids s.modules) (k : Nat) : sectionOf k (newModule elf loader id s) =
    if k = id then (sectionOf k s).map fun v => ⟨v.template_buffer, v.template_buffer, some s.nextBuffer⟩
    else sectionOf k s := by
  obtain ⟨shared, found⟩ := isSome_iff_exists.mp (find_isSome.mpr there)
  have altered : sectionOf k (newModule elf loader id s) = valueOf k
      (alter id (putTemplate s.nextBuffer) s.modules) := by
    rw [newModule, found, sectionOf]
  rw [altered]
  exact valueOf_alter (fun _ => rfl) fun _ => rfl

theorem Private.addShared (priv : Private elf s g) : Private elf (addShared elf id s) g := by
  obtain ⟨placed, views, owned, owners⟩ := priv
  have old : ∀ k v, sectionOf k (Loader.addShared elf id s) = some v → sectionOf k s = some v ∨
      sectionOf k s = none ∧ v = ⟨elf.data k, elf.data k, none⟩ := fun k v found => by
    rw [sectionOf_addShared] at found
    split at found
    next new => exact .inr ⟨new.2, (some.inj found).symm⟩
    next => exact .inl found
  refine ⟨⟨fun loader => ?_, ?_, ?_, ?_, ?_⟩, ?_, ?_, fun other k owner =>
    addShared_frame.1.symm ▸ owners other k owner⟩
  · rw [modulesOf_addShared]
    exact placed.nodup loader
  · intro loader k b held
    rw [buffer_addShared] at held
    rw [addShared_frame.2.2]
    exact placed.fresh loader k b held
  · intro first second k k' b held held'
    rw [buffer_addShared] at held held'
    exact placed.apart first second k k' b held held'
  · intro k v b found here
    rcases old k v found with before | ⟨-, rfl⟩
    · obtain ⟨owner, held⟩ := placed.live k v b before here
      exact ⟨owner, buffer_addShared.trans held⟩
    · cases here
  · intro k v found
    rcases old k v found with before | ⟨-, rfl⟩
    · exact placed.template k v before
    · rfl
  · intro loader k b held
    rw [buffer_addShared] at held
    rw [contents_addShared]
    exact views loader k b held
  · intro loader k b owner held
    rw [buffer_addShared] at held
    obtain ⟨v, found, here⟩ := owned loader k b owner held
    refine ⟨v, ?_, here⟩
    have there : ¬ (k = id ∧ sectionOf k s = none) := fun both => by
      rw [found] at both
      cases both.2
    rw [sectionOf_addShared, if_neg there, found]

/-- The new module has the template, and the process that had the module in its data section is saved. -/
theorem Private.newModule (priv : Private elf s g) (there : id ∈ ids s.modules)
    (absent : id ∉ ids (modulesOf loader s)) :
    Private elf (newModule elf loader id s) (g.bring elf loader [id]) := by
  obtain ⟨placed, views, owned, owners⟩ := priv
  obtain ⟨shared, found⟩ := isSome_iff_exists.mp (find_isSome.mpr there)
  have before : sectionOf id s = some shared.value := by rw [sectionOf, valueOf, found, map_some]
  have none : buffer loader id s = none := valueOf_eq_none.mpr absent
  have now : sectionOf id (Loader.newModule elf loader id s) =
      some ⟨shared.value.template_buffer, shared.value.template_buffer, some s.nextBuffer⟩ := by
    rw [sectionOf_newModule there, if_pos rfl, before, map_some]
  have others : ∀ k, k ≠ id → sectionOf k (Loader.newModule elf loader id s) = sectionOf k s := fun k other => by
    rw [sectionOf_newModule there, if_neg other]
  have memory : (Loader.newModule elf loader id s).memory = save shared s.memory := by rw [Loader.newModule, found]
  have next : (Loader.newModule elf loader id s).nextBuffer = s.nextBuffer + 1 := by rw [Loader.newModule, found]
  have mine : buffer loader id (Loader.newModule elf loader id s) = some s.nextBuffer := by
    rw [buffer_newModule there, none, if_pos rfl, none_or]
  have old : ∀ other k, (other = loader → k ≠ id) →
      buffer other k (Loader.newModule elf loader id s) = buffer other k s := by
    intro other k ne
    by_cases self : other = loader
    · rw [self, buffer_newModule there, if_neg fun same => ne self same.symm, or_none]
    · exact buffer_newModule_of_ne self k
  have cases : ∀ other k b, buffer other k (Loader.newModule elf loader id s) = some b →
      other = loader ∧ k = id ∧ b = s.nextBuffer ∨ (other = loader → k ≠ id) ∧ buffer other k s = some b := by
    intro other k b held
    by_cases new : other = loader ∧ k = id
    · rw [new.1, new.2, mine] at held
      exact .inl ⟨new.1, new.2, (some.inj held).symm⟩
    · have ne : other = loader → k ≠ id := fun self same => new ⟨self, same⟩
      exact .inr ⟨ne, (old other k ne).symm.trans held⟩
  refine ⟨⟨fun other => ?_, ?_, ?_, ?_, ?_⟩, ?_, ?_, ?_⟩
  · by_cases self : other = loader
    · rw [self, newModule_list there]
      have pushed : ids ((elf.deps id).foldl (fun l d => acquire d l) (modulesOf loader s) ++
        [⟨id, 0, elf.deps id, s.nextBuffer⟩]) =
          ids (modulesOf loader s) ++ [id] := ids_push
      rw [pushed]
      refine nodup_append.mpr ⟨placed.nodup loader, nodup_singleton id, fun k inside k' last same => absent ?_⟩
      exact mem_singleton.mp last ▸ same ▸ inside
    · have same : modulesOf other (Loader.newModule elf loader id s) = modulesOf other s := by
        rw [Loader.newModule, found]
        exact modulesOf_put_of_ne self
      rw [same]
      exact placed.nodup other
  · intro other k b held
    rw [next]
    rcases cases other k b held with ⟨-, -, rfl⟩ | ⟨-, held⟩
    · exact Nat.lt_succ_self _
    · exact (placed.fresh other k b held).trans (Nat.lt_succ_self _)
  · intro first second k k' b held held'
    rcases cases first k b held with ⟨mine, this, top⟩ | ⟨-, held⟩
    · rcases cases second k' b held' with ⟨mine', this', -⟩ | ⟨-, held'⟩
      · exact ⟨mine.trans mine'.symm, this.trans this'.symm⟩
      · exact absurd (top ▸ placed.fresh second k' b held') (lt_irrefl _)
    · rcases cases second k' b held' with ⟨-, -, top⟩ | ⟨-, held'⟩
      · exact absurd (top ▸ placed.fresh first k b held) (lt_irrefl _)
      · exact placed.apart first second k k' b held held'
  · intro k v b seen here
    by_cases same : k = id
    · subst same
      rw [now] at seen
      cases seen
      exact ⟨loader, some.inj here ▸ mine⟩
    · rw [others k same] at seen
      obtain ⟨owner, held⟩ := placed.live k v b seen here
      exact ⟨owner, (old owner k fun _ => same).trans held⟩
  · intro k v seen
    by_cases same : k = id
    · subst same
      rw [now] at seen
      have template := placed.template k _ before
      cases seen
      exact template
    · rw [others k same] at seen
      exact placed.template k v seen
  · intro other k b held
    rcases cases other k b held with ⟨rfl, rfl, rfl⟩ | ⟨ne, held⟩
    · rw [contents_of_some now, if_pos rfl]
      have template := placed.template k _ before
      have brings : (g.bring elf other [k]).view other k = elf.data k := if_pos ⟨rfl, mem_singleton.mpr rfl⟩
      rw [brings]
      exact template
    · have same : (g.bring elf loader [id]).view other k = g.view other k :=
        if_neg fun both => ne both.1 (mem_singleton.mp both.2)
      rw [same, placed.contents_taken before ⟨_, _, now⟩ others memory held fun _ wrong =>
        absurd (wrong ▸ placed.fresh other k b held) (lt_irrefl _)]
      exact views other k b held
  · intro other k b owner held
    by_cases same : k = id
    · have loads : some loader = some other := by
        have first : (g.bring elf loader [id]).owner k = some loader := if_pos (mem_singleton.mpr same)
        rw [← first, owner]
      cases loads
      subst same
      rw [mine] at held
      exact ⟨_, now, held⟩
    · have first : (g.bring elf loader [id]).owner k = g.owner k :=
        if_neg fun inside => same (mem_singleton.mp inside)
      rw [first] at owner
      rw [old other k fun _ => same] at held
      rw [others k same]
      exact owned other k b owner held
  · intro other k owner
    have loaders : ∀ k, k ∈ (Loader.newModule elf loader id s).m_modules ↔
      k = loader ∨ k ∈ s.m_modules := fun k => by
      rw [Loader.newModule, found]
      exact AList.mem_insert _
    rw [loaders]
    simp only [Globals.bring] at owner
    split at owner
    · exact .inl (some.inj owner).symm
    · exact .inr (owners other k owner)

theorem mem_brought : id ∈ brought loader s s' ↔ id ∈ ids (modulesOf loader s') ∧ id ∉ ids (modulesOf loader s) := by
  rw [brought, mem_filter, decide_eq_true_iff]

theorem Globals.bring_nil {new : List Nat} (none : ∀ id, id ∉ new) : g.bring elf loader new = g := by
  have owners : (g.bring elf loader new).owner = g.owner := funext fun id => if_neg (none id)
  have views : (g.bring elf loader new).view = g.view := funext fun other => funext fun id => if_neg fun both =>
    none id both.2
  exact congrArg₂ (Globals.mk _) owners views

theorem Globals.bring_bring {new new' all : List Nat} (both : ∀ id, id ∈ all ↔ id ∈ new ∨ id ∈ new') :
    (g.bring elf loader new).bring elf loader new' = g.bring elf loader all := by
  have owners : ((g.bring elf loader new).bring elf loader new').owner = (g.bring elf loader all).owner := by
    funext id
    simp only [Globals.bring]
    split_ifs <;> simp_all
  have views : ((g.bring elf loader new).bring elf loader new').view = (g.bring elf loader all).view := by
    funext other id
    simp only [Globals.bring]
    split_ifs <;> simp_all
  exact congrArg₂ (Globals.mk _) owners views

theorem brought_self (id : Nat) : id ∉ brought loader s s :=
  fun inside => (mem_brought.mp inside).2 (mem_brought.mp inside).1

theorem Private.loadOne {t : System D} (priv : Private elf t (g.bring elf loader (brought loader s t)))
    (kept : ∀ k ∈ ids (modulesOf loader s), k ∈ ids (modulesOf loader t)) (here : loader ∈ t.m_modules)
    (shared : Shared elf (holders t) [] t) (deps : ∀ d ∈ elf.deps id, d ∈ ids (modulesOf loader t)) :
    Private elf (loadOne elf loader t id) (g.bring elf loader (brought loader s (loadOne elf loader t id))) := by
  by_cases inside : id ∈ ids (modulesOf loader t)
  · rw [loadOne_present here shared inside]
    exact priv
  · have there : id ∈ ids (Loader.addShared elf id t).modules :=
      (shared.add fun d mem => shared.present here (deps d mem)).there
    have absent : id ∉ ids (modulesOf loader (Loader.addShared elf id t)) := by
      rw [modulesOf_addShared]
      exact inside
    have after := Private.newModule priv.addShared there absent
    have whole : ids (modulesOf loader (Loader.newModule elf loader id (Loader.addShared elf id t))) =
        ids (modulesOf loader t) ++ [id] := by
      rw [newModule_list there, modulesOf_addShared]
      exact ids_push
    rw [loadOne_absent inside]
    rwa [Globals.bring_bring fun k => ?_] at after
    rw [mem_brought, mem_brought, whole, mem_append]
    refine ⟨fun both => ?_, fun either => ?_⟩
    · exact both.1.imp_left fun old => ⟨old, both.2⟩
    · rcases either with old | new
      · exact ⟨.inl old.1, old.2⟩
      · exact ⟨.inr new, fun before => inside (mem_singleton.mp new ▸ kept k before)⟩

theorem Private.load (priv : Private elf s g) (file : String) (here : loader ∈ s.m_modules)
    (shared : Shared elf (holders s) [] s) :
    Shared elf (holders (Load elf loader file s).1) [] (Load elf loader file s).1 ∧
      Private elf (Load elf loader file s).1 (g.bring elf loader (brought loader s (Load elf loader file s).1)) := by
  let I (t : System D) : Prop := (∀ k ∈ ids (modulesOf loader s), k ∈ ids (modulesOf loader t)) ∧
    Private elf t (g.bring elf loader (brought loader s t))
  have keep : ∀ t id, loader ∈ t.m_modules → Shared elf (holders t) [] t →
    (∀ d ∈ elf.deps id, d ∈ ids (modulesOf loader t)) →
      I t → I (Loader.loadOne elf loader t id) := fun t id here shared deps before => by
    have mem : id ∈ [id] := mem_singleton.mpr rfl
    obtain ⟨new, whole, -⟩ := (loadOne_spec here shared deps mem).1.more
    refine ⟨fun k inside => ?_, before.2.loadOne before.1 here shared deps⟩
    rw [whole]
    exact mem_append_left _ (before.1 k inside)
  obtain ⟨loaded, ⟨-, after⟩, -⟩ := LoadModule_spec file here shared keep
    ⟨fun _ inside => inside, by rwa [Globals.bring_nil brought_self]⟩
  cases root : (elf.gather file).getLast? with
  | none =>
    have same : (Load elf loader file s).1 = (LoadModule elf loader file s).1 := by simp only [Load,
      LoadModule, root]
    rw [same]
    exact ⟨loaded.shared, after⟩
  | some id =>
    have same : (Load elf loader file s).1 = (LoadModule elf loader file s).1.put loader
        (acquire id (modulesOf loader (LoadModule elf loader file s).1)) := by simp only [Load, LoadModule, root]
    have sameIds : ids (acquire id (modulesOf loader (LoadModule elf loader file s).1)) =
        ids (modulesOf loader (LoadModule elf loader file s).1) := ids_acquire
    have news : brought loader s (Load elf loader file s).1 = brought loader s (LoadModule elf loader file s).1 := by
      rw [same, brought, modulesOf_put, sameIds, brought]
    rw [news, same]
    refine ⟨?_, after.put (sameIds ▸ after.placed.nodup loader) fun _ => valueOf_acquire⟩
    have done := loaded.shared
    have holds : holders ((LoadModule elf loader file s).1.put loader
      (acquire id (modulesOf loader (LoadModule elf loader file s).1))) =
        holders (LoadModule elf loader file s).1 := by
      funext k
      have counted := holders_put (l := acquire id (modulesOf loader (LoadModule elf loader file s).1)) loaded.here k
      rw [sameIds] at counted
      omega
    rw [holds]
    exact ⟨done.counts, done.opened, done.built⟩

theorem Private.replace {gone : List Module} (priv : Private elf s g) (here : loader ∈ s.m_modules)
    (shared : Shared elf (holders s) [] s)
    (whole : ((modulesOf loader s).map bare).Perm ((l ++ gone).map bare)) :
    Shared elf (holders ((gone.foldl (fun s m => closeModule elf m s) s).put loader l)) []
        ((gone.foldl (fun s m => closeModule elf m s) s).put loader l) ∧
      Private elf ((gone.foldl (fun s m => closeModule elf m s) s).put loader l) g := by
  obtain ⟨placed, views, owned, owners⟩ := priv
  have nodup := placed.nodup loader
  have after := shared.replace here whole nodup
  let t := gone.foldl (fun s m => closeModule elf m s) s
  have nodupAll : (ids l ++ ids gone).Nodup := by
    have mapped := ids_perm_of_bare whole
    rw [ids, ids, map_append] at mapped
    exact mapped.nodup_iff.mp nodup
  have before : ∀ m ∈ l ++ gone, buffer loader m.id s = some m.value := fun m inside => by
    obtain ⟨m', inside', same⟩ := mem_map.mp (whole.mem_iff.mpr (mem_map_of_mem inside))
    obtain ⟨sameId, -, sameValue⟩ := eq_of_bare same
    rw [← sameId, ← sameValue]
    exact valueOf_of_mem nodup inside'
  have loaders : t.m_modules = s.m_modules := closeAll_frame.1
  have others : ∀ other, other ≠ loader → modulesOf other (t.put loader l) = modulesOf other s :=
    fun other apart => by
    rw [modulesOf_put_of_ne apart, modulesOf, loaders, modulesOf]
  -- What stays has not been closed.
  have stays : ∀ other k b, buffer other k (t.put loader l) = some b →
      buffer other k s = some b ∧ ∀ m ∈ gone, m.id = k → m.value ≠ b := fun other k b held => by
    by_cases self : other = loader
    · subst self
      rw [buffer_put] at held
      obtain ⟨m, inside, rfl, rfl⟩ := exists_of_valueOf held
      refine ⟨before m (mem_append_left _ inside), fun m' inside' same => ?_⟩
      exact absurd same ((nodup_append.mp nodupAll).2.2 _ (mem_map_of_mem inside) _ (mem_map_of_mem inside')).symm
    · have held' : buffer other k s = some b := by rwa [buffer, others other self] at held
      refine ⟨held', fun m inside same value => self ?_⟩
      have theirs := before m (mem_append_right _ inside)
      rw [same, value] at theirs
      exact (placed.apart other loader k k b held' theirs).1
  have sections : ∀ k v', sectionOf k (t.put loader l) = some v' → ∃ v, sectionOf k s = some v ∧
      v' = cleared gone k v :=
    fun k v' found => (shared.indebted here whole nodup).sectionOf_closeAll found
  have uncleared : ∀ (other k b : Nat) (v : Section D), buffer other k (t.put loader l) = some b →
      v.current_buffer = some b → cleared gone k v = v := by
    intro other k b v held now
    refine if_neg fun some => ?_
    obtain ⟨m, inside, same, closed⟩ := some
    exact (stays other k b held).2 m inside same (some.inj (closed.symm.trans now))
  refine ⟨after, ⟨fun other => ?_, ?_, ?_, ?_, ?_⟩, ?_, ?_, fun other k owner =>
    (AList.mem_insert _).mpr (.inr (loaders.symm ▸ owners other k owner))⟩
  · by_cases self : other = loader
    · rw [self, modulesOf_put]
      exact (nodup_append.mp nodupAll).1
    · rw [others other self]
      exact placed.nodup other
  · intro other k b held
    have next : (t.put loader l).nextBuffer = s.nextBuffer := closeAll_frame.2.2
    rw [next]
    exact placed.fresh other k b (stays other k b held).1
  · intro first second k k' b held held'
    exact placed.apart first second k k' b (stays first k b held).1 (stays second k' b held').1
  · intro k v' b found here
    obtain ⟨v, first, rfl⟩ := sections k v' found
    obtain ⟨now, -⟩ := cleared_some here
    obtain ⟨owner, held⟩ := placed.live k v b first now
    refine ⟨owner, ?_⟩
    by_cases self : owner = loader
    · subst self
      obtain ⟨m, inside, rfl, rfl⟩ := exists_of_valueOf held
      have either : bare m ∈ (l ++ gone).map bare := whole.mem_iff.mp (mem_map_of_mem inside)
      obtain ⟨m', inside', same⟩ := mem_map.mp either
      obtain ⟨sameId, -, sameValue⟩ := eq_of_bare same
      rcases mem_append.mp inside' with kept | closed
      · rw [buffer_put, ← sameId, ← sameValue]
        exact valueOf_of_mem (nodup_append.mp nodupAll).1 kept
      · rw [← sameValue] at now
        rw [← sameId, cleared_of closed now] at here
        cases here
    · rwa [buffer, others owner self]
  · intro k v' found
    obtain ⟨v, first, rfl⟩ := sections k v' found
    rw [cleared_frame.1]
    exact placed.template k v first
  · intro other k b held
    obtain ⟨held', -⟩ := stays other k b held
    obtain ⟨v', found⟩ := after.hasSection held
    obtain ⟨v, first, rfl⟩ := sections k v' found
    have memory : (t.put loader l).memory = s.memory := closeAll_frame.2.1
    have seen := views other k b held'
    rw [contents_of_some first] at seen
    rw [contents_of_some found, memory]
    by_cases now : v.current_buffer = some b
    · rw [uncleared other k b v held now]
      exact seen
    · rw [if_neg fun wrong => now (cleared_some wrong).1]
      rwa [if_neg now] at seen
  · intro other k b owner held
    obtain ⟨v, first, now⟩ := owned other k b owner (stays other k b held).1
    obtain ⟨v', found⟩ := after.hasSection held
    obtain ⟨v₀, first', rfl⟩ := sections k v' found
    cases first.symm.trans first'
    exact ⟨_, found, by rw [uncleared other k b v held now]; exact now⟩

theorem Private.unloadAll (priv : Private elf s g) (here : loader ∈ s.m_modules)
    (shared : Shared elf (holders s) [] s) :
    Shared elf (holders (UnloadAll elf loader s)) [] (UnloadAll elf loader s) ∧
    Private elf (UnloadAll elf loader s) g :=
  priv.replace here shared (List.Perm.refl _)

/-- What copying the modules `rest` does to the buffers. -/
structure Clones (c : List Module) (s : System D) (p : List Module × System D) : Prop where
  sections : ∀ k, sectionOf k p.2 = sectionOf k s
  more : s.nextBuffer ≤ p.2.nextBuffer
  old : ∀ b, b < s.nextBuffer → p.2.memory b = s.memory b
  buffers : ∀ k b, valueOf k p.1 = some b → valueOf k c = some b ∨
    s.nextBuffer ≤ b ∧ b < p.2.nextBuffer ∧ ∃ v, sectionOf k s = some v ∧ p.2.memory b = v.data_buffer
  distinct : (∀ k b, valueOf k c = some b → b < s.nextBuffer) →
    (∀ k k' b, valueOf k c = some b → valueOf k' c = some b → k = k') →
    ∀ k k' b, valueOf k p.1 = some b → valueOf k' p.1 = some b → k = k'

theorem cloneAll_clones {rest c : List Module} (there : ∀ k ∈ ids rest, k ∈ ids s.modules) :
    Clones c s (rest.foldl cloneOne (c, s)) := by
  induction rest generalizing c s with
  | nil => exact ⟨fun _ => rfl, le_rfl, fun _ _ => rfl, fun _ _ held => .inl held, fun _ distinct => distinct⟩
  | cons m rest ih =>
    obtain ⟨node, found⟩ := isSome_iff_exists.mp (find_isSome.mpr (there m.id mem_cons_self))
    have here : sectionOf m.id s = some node.value := by rw [sectionOf, valueOf, found, map_some]
    have sameIds : ids (acquire m.id s.modules) = ids s.modules := ids_acquire
    rw [foldl_cons, cloneOne_eq found]
    let c' : List Module := m.deps.foldl (fun l d => acquire d l) c ++ [⟨m.id, m.refcount, m.deps, s.nextBuffer⟩]
    let t : System D := { s with
      modules := acquire m.id s.modules
      memory := update s.memory s.nextBuffer node.value.data_buffer
      nextBuffer := s.nextBuffer + 1 }
    have same : ∀ k, sectionOf k t = sectionOf k s := fun k => valueOf_acquire
    have first : ∀ k b, valueOf k c' = some b → valueOf k c = some b ∨ k = m.id ∧ b = s.nextBuffer ∧
      valueOf k c = none := fun k b held => by
      have pushed : valueOf k c' = (valueOf k c).or (if m.id = k then some s.nextBuffer else none) :=
        valueOf_push.trans (by rw [valueOf_acquireAll])
      rw [pushed] at held
      rcases or_eq_some_iff.mp held with old | ⟨none, new⟩
      · exact .inl old
      · obtain ⟨self, top⟩ := ite_none_right_eq_some.mp new
        exact .inr ⟨self.symm, (some.inj top).symm, none⟩
    obtain ⟨sections, more, old, buffers, distinct⟩ :=
      ih (c := c') (s := t) fun k later => sameIds.symm ▸ there k (mem_cons_of_mem _ later)
    refine ⟨fun k => (sections k).trans (same k), (Nat.le_succ _).trans more, fun b lower => ?_, fun k b held => ?_,
      fun below injective => ?_⟩
    · rw [old b (Nat.lt_succ_of_lt lower)]
      exact update_of_ne (ne_of_lt lower) _ _
    · rcases buffers k b held with before | ⟨lower, upper, v, seen, copied⟩
      · rcases first k b before with before | ⟨rfl, rfl, -⟩
        · exact .inl before
        · refine .inr ⟨le_rfl, lt_of_lt_of_le (Nat.lt_succ_self _) more, node.value, here, ?_⟩
          rw [old s.nextBuffer (Nat.lt_succ_self _)]
          exact update_self ..
      · exact .inr ⟨(Nat.le_succ _).trans lower, upper, v, (same k).symm.trans seen, copied⟩
    · refine distinct (fun k b held => ?_) fun k k' b held held' => ?_
      · rcases first k b held with before | ⟨-, rfl, -⟩
        · exact Nat.lt_succ_of_lt (below k b before)
        · exact Nat.lt_succ_self _
      · rcases first k b held with before | ⟨self, top, -⟩
        · rcases first k' b held' with before' | ⟨-, top, -⟩
          · exact injective k k' b before before'
          · exact absurd (top ▸ below k b before) (lt_irrefl _)
        · rcases first k' b held' with before' | ⟨self', -, -⟩
          · exact absurd (top ▸ below k' b before') (lt_irrefl _)
          · exact self.trans self'.symm

theorem Private.clone {clone : Nat} (priv : Private elf s g) (here : loader ∈ s.m_modules)
    (absent : clone ∉ s.m_modules)
    (shared : Shared elf (holders s) [] s) (owns : ∀ id ∈ ids (modulesOf loader s), g.owner id = some loader) :
    Shared elf (holders (Clone loader clone s)) [] (Clone loader clone s) ∧
      Private elf (Clone loader clone s) { g with view := update g.view clone (g.view loader) } := by
  have reads := fun id b (owner : g.owner id = some loader) (held : buffer loader id s = some b) =>
    priv.reads owner held
  obtain ⟨placed, views, owned, owners⟩ := priv
  obtain ⟨c, t, folded, same, loaders, whole, after⟩ := shared.clone here absent (placed.nodup loader)
  obtain ⟨sections, more, old, copies, distinct⟩ : Clones [] s (c, t) :=
    folded ▸ cloneAll_clones fun _ inside => shared.present here inside
  have apart : ∀ other, other ∈ s.m_modules → other ≠ clone := fun other there same => absent (same ▸ there)
  have others : ∀ other, other ≠ clone → modulesOf other (t.put clone c) = modulesOf other s := fun other apart => by
    rw [modulesOf_put_of_ne apart, modulesOf, loaders, modulesOf]
  have buffers : ∀ other, other ≠ clone → ∀ k, buffer other k (t.put clone c) = buffer other k s :=
    fun other apart k => by
    rw [buffer, others other apart, buffer]
  have new : ∀ k b, valueOf k c = some b → s.nextBuffer ≤ b ∧ b < t.nextBuffer ∧
      ∃ v, sectionOf k s = some v ∧ t.memory b = v.data_buffer :=
        fun k b held => (copies k b held).resolve_left (by simp [valueOf, find])
  have injective := distinct (fun _ _ wrong => by simp [valueOf, find] at wrong) fun _ _ _ wrong =>
    by simp [valueOf, find] at wrong
  have all : ∀ other k, sectionOf k (t.put other c) = sectionOf k s := fun _ k => sections k
  rw [same]
  refine ⟨after, ⟨fun other => ?_, ?_, ?_, ?_, ?_⟩, ?_, ?_, fun other k owner =>
    (AList.mem_insert _).mpr (.inr (loaders.symm ▸ owners other k owner))⟩
  · by_cases self : other = clone
    · rw [self, modulesOf_put, whole]
      exact placed.nodup loader
    · rw [others other self]
      exact placed.nodup other
  · intro other k b held
    by_cases self : other = clone
    · rw [self, buffer_put] at held
      exact (new k b held).2.1
    · rw [buffers other self] at held
      exact lt_of_lt_of_le (placed.fresh other k b held) more
  · intro first second k k' b held held'
    by_cases self : first = clone
    · subst self
      rw [buffer_put] at held
      by_cases self' : second = first
      · subst self'
        rw [buffer_put] at held'
        exact ⟨rfl, injective k k' b held held'⟩
      · rw [buffers second self'] at held'
        exact absurd (placed.fresh second k' b held') (not_lt.mpr (new k b held).1)
    · rw [buffers first self] at held
      by_cases self' : second = clone
      · subst self'
        rw [buffer_put] at held'
        exact absurd (placed.fresh first k b held) (not_lt.mpr (new k' b held').1)
      · rw [buffers second self'] at held'
        exact placed.apart first second k k' b held held'
  · intro k v b found now
    rw [all] at found
    obtain ⟨owner, held⟩ := placed.live k v b found now
    exact ⟨owner, (buffers owner (apart owner (mem_of_buffer held)) k).trans held⟩
  · intro k v found
    rw [all] at found
    exact placed.template k v found
  · intro other k b held
    by_cases self : other = clone
    · subst self
      rw [buffer_put] at held
      obtain ⟨lower, -, v, found, copied⟩ := new k b held
      have inside : k ∈ ids (modulesOf loader s) := whole ▸ valueOf_isSome.mp (by rw [held]; rfl)
      obtain ⟨b₀, theirs⟩ := isSome_iff_exists.mp (valueOf_isSome.mpr inside)
      obtain ⟨v', found', seen⟩ := reads k b₀ (owns k inside) theirs
      cases found.symm.trans found'
      have elsewhere : v.current_buffer ≠ some b := fun now => by
        obtain ⟨owner, held⟩ := placed.live k v b found now
        exact absurd (placed.fresh owner k b held) (not_lt.mpr lower)
      have here' : sectionOf k (t.put other c) = some v := (all other k).trans found
      rw [contents_of_some here', if_neg elsewhere]
      show t.memory b = update g.view other (g.view loader) other k
      rw [copied, seen, update_self]
    · have view : update g.view clone (g.view loader) other = g.view other := update_of_ne self _ _
      show contents k b (t.put clone c) = update g.view clone (g.view loader) other k
      rw [buffers other self] at held
      rw [view, ← views other k b held]
      exact contents_congr (all clone k) (old b (placed.fresh other k b held))
  · intro other k b owner held
    rw [buffers other (apart other (owners other k owner))] at held
    rw [all]
    exact owned other k b owner held

section

theorem Globals.start_start {done rest : List Nat} :
    (g.start loader done).start loader rest = g.start loader (done ++ rest) := by
  have owners : ((g.start loader done).start loader rest).owner = (g.start loader (done ++ rest)).owner := by
    funext id
    simp only [Globals.start]
    split_ifs <;> simp_all
  exact congrArg (fun owner => Globals.mk (some loader) owner g.view) owners

theorem buffer_switchOne {m : Module} : buffer loader id (switchOne s m) = buffer loader id s := by
  obtain ⟨modules, memory, same, -⟩ := switchOne_eq s m
  rw [same]
  rfl

theorem buffer_switchAll : buffer loader id (l.foldl switchOne s) = buffer loader id s := by
  induction l generalizing s with
  | nil => rfl
  | cons m l ih => exact ih.trans buffer_switchOne

theorem sectionOf_write (data : D) (before : sectionOf id s = some v) :
    sectionOf id (Loader.write id data s) = some { v with data_buffer := data } ∧
      ∀ k, k ≠ id → sectionOf k (Loader.write id data s) = sectionOf k s := by
  have sections : ∀ k, sectionOf k (Loader.write id data s) =
      if k = id then (sectionOf k s).map fun v => { v with data_buffer := data } else sectionOf k s := fun k =>
    valueOf_alter (fun _ => rfl) fun _ => rfl
  exact ⟨by rw [sections, if_pos rfl, before, map_some], fun k other => by rw [sections, if_neg other]⟩

theorem Placed.write (placed : Placed elf s) (data : D) (before : sectionOf id s = some v) :
    Placed elf (Loader.write id data s) := by
  obtain ⟨now, others⟩ := sectionOf_write data before
  refine ⟨placed.nodup, placed.fresh, placed.apart, fun k w c seen current => ?_, fun k w seen => ?_⟩
  · by_cases self : k = id
    · subst self
      rw [now] at seen
      cases seen
      exact placed.live k v c before current
    · rw [others k self] at seen
      exact placed.live k w c seen current
  · by_cases self : k = id
    · subst self
      rw [now] at seen
      cases seen
      exact placed.template k v before
    · rw [others k self] at seen
      exact placed.template k w seen

/-- Where a section was current it still is. -/
theorem current_write (data : D) (before : sectionOf id s = some v) {k : Nat}
    (current : ∃ w, sectionOf k s = some w ∧ w.current_buffer = some c) :
    ∃ w, sectionOf k (Loader.write id data s) = some w ∧ w.current_buffer = some c := by
  obtain ⟨now, others⟩ := sectionOf_write data before
  by_cases self : k = id
  · subst self
    obtain ⟨w, seen, current⟩ := current
    cases before.symm.trans seen
    exact ⟨_, now, current⟩
  · rw [others k self]
    exact current

variable (priv : Private elf s g)
include priv

theorem Private.switchOne {m : Module} (shared : Shared elf (holders s) [] s)
    (held : buffer loader m.id s = some m.value) :
    Private elf (switchOne s m) (g.start loader [m.id]) := by
  obtain ⟨placed, views, owned, owners⟩ := priv
  obtain ⟨v, before⟩ := shared.hasSection held
  obtain ⟨node, found, rfl⟩ := map_eq_some_iff.mp before
  have starts : ∀ other k, (g.start loader [m.id]).owner k = some other →
      k = m.id ∧ other = loader ∨ k ≠ m.id ∧ g.owner k = some other := by
    intro other k owner
    by_cases same : k = m.id
    · have first : (g.start loader [m.id]).owner k = some loader := if_pos (mem_singleton.mpr same)
      exact .inl ⟨same, some.inj (owner.symm.trans first)⟩
    · have first : (g.start loader [m.id]).owner k = g.owner k := if_neg fun inside => same (mem_singleton.mp inside)
      exact .inr ⟨same, first.symm.trans owner⟩
  by_cases already : node.value.current_buffer = some m.value
  · have same : Loader.switchOne s m = s := by
      simp only [Loader.switchOne, found, if_pos already]
    rw [same]
    refine ⟨placed, views, fun other k b owner theirs => ?_, fun other k owner => ?_⟩
    · rcases starts other k owner with ⟨rfl, rfl⟩ | ⟨-, owner⟩
      · exact ⟨_, before, already.trans (held.symm.trans theirs)⟩
      · exact owned other k b owner theirs
    · rcases starts other k owner with ⟨rfl, rfl⟩ | ⟨-, owner⟩
      · exact mem_of_buffer held
      · exact owners other k owner
  · have same : Loader.switchOne s m = { s with
        memory := save node s.memory
        modules := alter m.id (restore m.value (save node s.memory m.value)) s.modules } := by
      simp only [Loader.switchOne, found, if_neg already]
    have sections : ∀ k, sectionOf k (Loader.switchOne s m) =
        if k = m.id then (sectionOf k s).map fun v => ⟨v.template_buffer, save node s.memory m.value, some m.value⟩
        else sectionOf k s := by
      intro k
      rw [same]
      exact valueOf_alter (fun _ => rfl) fun _ => rfl
    have now : sectionOf m.id (Loader.switchOne s m) = some ⟨node.value.template_buffer, save node s.memory m.value,
      some m.value⟩ := by
      rw [sections, if_pos rfl, before, map_some]
    have others : ∀ k, k ≠ m.id → sectionOf k (Loader.switchOne s m) = sectionOf k s :=
      fun k other => by rw [sections, if_neg other]
    have memory : (Loader.switchOne s m).memory = save node s.memory := by rw [same]
    have loaders : (Loader.switchOne s m).m_modules = s.m_modules := by rw [same]
    have next : (Loader.switchOne s m).nextBuffer = s.nextBuffer := by rw [same]
    refine ⟨⟨fun other => ?_, ?_, ?_, ?_, ?_⟩, ?_, ?_, fun other k owner => ?_⟩
    · rw [modulesOf, loaders]
      exact placed.nodup other
    · intro other k b theirs
      rw [next]
      exact placed.fresh other k b (buffer_switchOne ▸ theirs)
    · intro first second k k' b theirs theirs'
      exact placed.apart first second k k' b (buffer_switchOne ▸ theirs) (buffer_switchOne ▸ theirs')
    · intro k v b seen here
      by_cases self : k = m.id
      · subst self
        rw [now] at seen
        cases seen
        exact ⟨loader, buffer_switchOne.trans (held.trans here)⟩
      · rw [others k self] at seen
        obtain ⟨owner, theirs⟩ := placed.live k v b seen here
        exact ⟨owner, buffer_switchOne.trans theirs⟩
    · intro k v seen
      by_cases self : k = m.id
      · subst self
        rw [now] at seen
        have template := placed.template _ _ before
        cases seen
        exact template
      · rw [others k self] at seen
        exact placed.template k v seen
    · intro other k b theirs
      rw [buffer_switchOne] at theirs
      by_cases mine : k = m.id ∧ b = m.value
      · obtain ⟨rfl, rfl⟩ := mine
        have seen := views other m.id m.value theirs
        rw [contents_of_some before, if_neg already] at seen
        rw [contents_of_some now, if_pos rfl]
        exact (save_of_ne already).trans seen
      · have kept : contents k b (Loader.switchOne s m) = contents k b s :=
          placed.contents_taken before ⟨_, _, now⟩ others memory theirs fun self top => mine ⟨self, top⟩
        rw [kept]
        exact views other k b theirs
    · intro other k b owner theirs
      rw [buffer_switchOne] at theirs
      rcases starts other k owner with ⟨rfl, rfl⟩ | ⟨self, owner⟩
      · exact ⟨_, now, held.symm.trans theirs⟩
      · rw [others k self]
        exact owned other k b owner theirs
    · rw [loaders]
      rcases starts other k owner with ⟨rfl, rfl⟩ | ⟨-, owner⟩
      · exact mem_of_buffer held
      · exact owners other k owner

theorem Private.congr {g' : Globals D} (owner : g'.owner = g.owner) (view : g'.view = g.view) :
    Private elf s g' := by
  obtain ⟨placed, views, owned, owners⟩ := priv
  exact ⟨placed, fun loader id b held => view ▸ views loader id b held, fun loader id b own held =>
    owned loader id b (owner ▸ own) held,
    fun loader id own => owners loader id (owner ▸ own)⟩

theorem Private.switchAll (shared : Shared elf (holders s) [] s)
    (held : ∀ m ∈ l, buffer loader m.id s = some m.value) :
    Shared elf (holders (l.foldl Loader.switchOne s)) [] (l.foldl Loader.switchOne s) ∧
      Private elf (l.foldl Loader.switchOne s) (g.start loader (ids l)) := by
  induction l generalizing s g with
  | nil =>
    have none : (g.start loader (ids ([] : List Module))).owner = g.owner := by simp [Globals.start, ids]
    exact ⟨shared, priv.congr none rfl⟩
  | cons m l ih =>
    have first := priv.switchOne shared (held m mem_cons_self)
    have still : holders (Loader.switchOne s m) = holders s := by
      obtain ⟨modules, memory, same, -⟩ := switchOne_eq s m
      rw [same]
      rfl
    have after : Shared elf (holders (Loader.switchOne s m)) [] (Loader.switchOne s m) := still ▸ shared.switchOne
    obtain ⟨done, all⟩ := ih first after fun m' later => buffer_switchOne.trans (held m' (mem_cons_of_mem _ later))
    rw [Globals.start_start] at all
    exact ⟨done, all⟩

theorem Private.start (loader : Nat) (shared : Shared elf (holders s) [] s) :
    Shared elf (holders (NotifyStartExecute loader s)) [] (NotifyStartExecute loader s) ∧
      Private elf (NotifyStartExecute loader s) (g.start loader (ids (modulesOf loader s))) :=
  priv.switchAll shared fun _ inside => valueOf_of_mem (priv.placed.nodup loader) inside

theorem Private.write (data : D) (owner : g.owner id = some loader) (held : buffer loader id s = some b) :
    Private elf (write id data s) { g with view := update g.view loader (update (g.view loader) id data) } := by
  obtain ⟨placed, views, owned, owners⟩ := priv
  obtain ⟨v, before, here⟩ := owned loader id b owner held
  obtain ⟨now, others⟩ := sectionOf_write data before
  refine ⟨placed.write data before, fun other k c theirs => ?_, fun other k c own theirs =>
    current_write data before (owned other k c own theirs), owners⟩
  show contents k c (Loader.write id data s) = update g.view loader (update (g.view loader) id data) other k
  by_cases mine : other = loader ∧ k = id
  · obtain ⟨rfl, rfl⟩ := mine
    cases held.symm.trans theirs
    rw [contents_of_some now, if_pos here, update_self, update_self]
  · have unseen : update g.view loader (update (g.view loader) id data) other k = g.view other k := by
      by_cases self : other = loader
      · have ne : k ≠ id := fun same => mine ⟨self, same⟩
        rw [self, update_self, update_of_ne ne]
      · rw [update_of_ne self]
    rw [unseen, ← views other k c theirs]
    by_cases self : k = id
    · subst self
      have elsewhere : v.current_buffer ≠ some c := fun wrong => by
        cases here.symm.trans wrong
        exact mine ⟨(placed.apart other loader k k b theirs held).1, rfl⟩
      rw [contents_of_some now, contents_of_some before, if_neg elsewhere, if_neg elsewhere]
      rfl
    · exact contents_congr (others k self) rfl

theorem Private.scribble (data : D) (before : sectionOf id s = some v) (none : v.current_buffer = none) :
    Private elf (Loader.write id data s) g := by
  obtain ⟨placed, views, owned, owners⟩ := priv
  obtain ⟨now, others⟩ := sectionOf_write data before
  have nobody : ∀ c, v.current_buffer ≠ some c := fun c wrong => by rw [none] at wrong; cases wrong
  refine ⟨placed.write data before, fun other k c theirs => ?_, fun other k c own theirs =>
    current_write data before (owned other k c own theirs), owners⟩
  rw [← views other k c theirs]
  by_cases self : k = id
  · subst self
    rw [contents_of_some now, contents_of_some before, if_neg (nobody c), if_neg (nobody c)]
    rfl
  · exact contents_congr (others k self) rfl

omit priv in
theorem Shared.create (shared : Shared elf (holders s) [] s) (absent : loader ∉ s.m_modules) :
    Shared elf (holders (s.put loader [])) [] (s.put loader []) := by
  have still : holders (s.put loader []) = holders s := by
    funext k
    rw [holders_put_new absent]
    rfl
  rw [still]
  exact ⟨shared.counts, shared.opened, shared.built⟩

theorem Private.create (absent : loader ∉ s.m_modules) : Private elf (s.put loader []) g := by
  refine priv.put nodup_nil fun id => ?_
  have none : s.m_modules.lookup loader = none := AList.lookup_eq_none.mpr absent
  rw [buffer, modulesOf, none]
  rfl

end

/-- Programs write where they are the owners, and a loader that is cloned owns all its modules. -/
def Owning (p : System D × Globals D) : Label D → Prop
  | .clone loader _ => ∀ id ∈ ids (modulesOf loader p.1), p.2.owner id = some loader
  | .write loader id _ => p.2.owner id = some loader ∧ id ∈ ids (modulesOf loader p.1)
  | _ => True

/-- The same for the loader whose `NotifyStartExecute` came last. -/
def Executing (p : System D × Globals D) : Label D → Prop
  | .clone loader _ => p.2.executing = some loader
  | .write loader id _ => p.2.executing = some loader ∧ id ∈ ids (modulesOf loader p.1)
  | _ => True

/-- What is in the data section is what the process of the loader last wrote. -/
def Reads (loader id : Nat) (p : System D × Globals D) : Prop :=
  ∃ v, sectionOf id p.1 = some v ∧ v.data_buffer = p.2.view loader id

theorem private_initial {unmapped : Nat → D} {blank : D} :
    Private elf (initial unmapped) ⟨none, fun _ => none, fun _ _ => blank⟩ := by
  refine ⟨⟨fun _ => nodup_nil, ?_, ?_, ?_, ?_⟩, ?_, ?_, ?_⟩
  · intro _ _ _ held
    cases held
  · intro _ _ _ _ _ held
    cases held
  · intro _ _ _ found
    cases found
  · intro _ _ found
    cases found
  · intro _ _ _ held
    cases held
  · intro _ _ _ owner
    cases owner
  · intro _ _ owner
    cases owner

theorem private_step {blank : D} {p q : System D × Globals D} (shared : Shared elf (holders p.1) [] p.1)
    (priv : Private elf p.1 p.2)
    (owning : Owning p a) (run : (observed elf blank).step p a = some q) :
    Shared elf (holders q.1) [] q.1 ∧ Private elf q.1 q.2 := by
  obtain ⟨step, noted⟩ := Machine.ledgered_step run
  rw [noted]
  obtain ⟨⟨t, handle⟩, responded, same⟩ := map_eq_some_iff.mp step
  rw [← same]
  cases a with
  | create loader =>
    obtain ⟨absent, same⟩ := ite_none_left_eq_some.mp responded
    obtain rfl : p.1.put loader [] = t := congrArg Prod.fst (some.inj same)
    exact ⟨shared.create absent, priv.create absent⟩
  | load loader file =>
    obtain ⟨present, same⟩ := ite_none_right_eq_some.mp responded
    obtain rfl : (Load elf loader file p.1).1 = t := congrArg Prod.fst (some.inj same)
    exact priv.load file present shared
  | unload loader handle =>
    obtain ⟨present, same⟩ := ite_none_right_eq_some.mp responded
    obtain rfl : Unload elf loader handle p.1 = t := congrArg Prod.fst (some.inj same)
    obtain ⟨l, unloaded, -, whole⟩ := Unload_eq elf loader handle p.1
    rw [unloaded]
    exact priv.replace present shared whole
  | unloadAll loader =>
    obtain ⟨present, same⟩ := ite_none_right_eq_some.mp responded
    obtain rfl : UnloadAll elf loader p.1 = t := congrArg Prod.fst (some.inj same)
    exact priv.unloadAll present shared
  | clone loader clone =>
    obtain ⟨⟨present, absent⟩, same⟩ := ite_none_right_eq_some.mp responded
    obtain rfl : Clone loader clone p.1 = t := congrArg Prod.fst (some.inj same)
    exact priv.clone present absent shared owning
  | start loader =>
    obtain ⟨-, same⟩ := ite_none_right_eq_some.mp responded
    obtain rfl : NotifyStartExecute loader p.1 = t := congrArg Prod.fst (some.inj same)
    exact priv.start loader shared
  | write loader id data =>
    obtain rfl : write id data p.1 = t := congrArg Prod.fst (some.inj responded)
    obtain ⟨b, held⟩ := buffer_of_mem_ids owning.2
    exact ⟨shared.write, priv.write data owning.1 held⟩

theorem private_reach {blank : D} {p : System D × Globals D} (reach : (observed elf blank).ReachBy Owning p) :
    Shared elf (holders p.1) [] p.1 ∧ Private elf p.1 p.2 := by
  refine reach.invariant (I := fun p : System D × Globals D => Shared elf (holders p.1) [] p.1 ∧ Private elf p.1 p.2)
    (fun p first => ?_) fun _ _ _ before owning run => private_step before.1 before.2 owning run
  obtain ⟨⟨unmapped, here⟩, none⟩ := first
  rw [here, none]
  exact ⟨shared_initial, private_initial⟩

/-- In every run, what the owner of a module reads from the data section is what it last wrote there, or what its
parent did, or else the template. -/
theorem owner_reads {blank : D} {p : System D × Globals D} (reach : (observed elf blank).ReachBy Owning p)
    (owner : p.2.owner id = some loader) (inside : id ∈ ids (modulesOf loader p.1)) : Reads loader id p := by
  obtain ⟨b, held⟩ := buffer_of_mem_ids inside
  exact (private_reach reach).2.reads owner held

/-- Two processes have loaded the same program: the first one has started again, and has its variable back. -/
theorem owner_reads_again : ∃ p, (observed program 0).Reach p ∧ p.2.view 0 1 = 5 ∧ Reads 0 1 p := by
  let M := observed program 0
  have first : M.ReachBy Owning (initial fun _ => 0, ⟨none, fun _ => none, fun _ _ => 0⟩) := .start ⟨⟨_, rfl⟩, rfl⟩
  have loaded : M.ReachBy Owning _ :=
    .next (a := .load 0 "program") (.next (a := .create 0) first trivial rfl) trivial rfl
  have wrote : M.ReachBy Owning _ :=
    .next (a := .write 0 1 5) (.next (a := .start 0) loaded trivial rfl) ⟨rfl, by decide⟩ rfl
  have other : M.ReachBy Owning _ :=
    .next (a := .load 1 "program") (.next (a := .create 1) wrote trivial rfl) trivial rfl
  have again : M.ReachBy Owning _ := .next (a := .start 0) other trivial rfl
  exact ⟨_, again.reach, rfl, owner_reads again rfl (by decide)⟩

/-- The process that executes has written 5 when another one loads the same program, and reads the template. -/
theorem not_executing_reads : ¬ ∀ p, (observed program 0).ReachBy Executing p →
    ∀ loader id, p.2.executing = some loader →
    id ∈ ids (modulesOf loader p.1) → Reads loader id p := by
  intro reads
  let M := observed program 0
  have first : M.ReachBy Executing (initial fun _ => 0, ⟨none, fun _ => none, fun _ _ => 0⟩) :=
    .start ⟨⟨_, rfl⟩, rfl⟩
  have loaded : M.ReachBy Executing _ :=
    .next (a := .load 0 "program") (.next (a := .create 0) first trivial rfl) trivial rfl
  have wrote : M.ReachBy Executing _ :=
    .next (a := .write 0 1 5) (.next (a := .start 0) loaded trivial rfl) ⟨rfl, by decide⟩ rfl
  have other : M.ReachBy Executing _ :=
    .next (a := .load 1 "program") (.next (a := .create 1) wrote trivial rfl) trivial rfl
  obtain ⟨v, found, same⟩ := reads _ other 0 1 rfl (by decide)
  have template : some v = some (⟨0, 0, some 3⟩ : Section Nat) := found.symm
  cases template
  exact absurd same (by decide)

end Dce.Loader
