import Dce.Loader.Counts

/- The counts over the runs of any number of loaders. -/

namespace Dce.Loader

open Counted Function List Option

variable {D : Type*} {elf : Elf D} {s s' : System D} {loads : Nat → Nat → Nat} {loader handle id : Nat}
    {own : Nat → Nat} {a : Label D}

/-- What the clients have loaded and not unloaded yet: a clone inherits it. -/
def note (elf : Elf D) (s : System D) (a : Label D) (loads : Nat → Nat → Nat) : Nat → Nat → Nat :=
  match a with
  | .create loader => update loads loader fun _ => 0
  | .load loader file =>
    match (Load elf loader file s).2 with
    | none => loads
    | some id => update loads loader fun k => loads loader k + if k = id then 1 else 0
  | .unload loader handle => update loads loader fun k => loads loader k - if k = handle then 1 else 0
  | .unloadAll loader => update loads loader fun _ => 0
  | .clone loader clone => update loads clone (loads loader)
  | .start _ => loads
  | .write _ _ _ => loads

def counted (elf : Elf D) : Machine (System D × (Nat → Nat → Nat)) (Label D) :=
  (machine elf).ledgered (fun _ _ => 0) (note elf)

/-- The count of a node of `l` is what is held from outside and what the others list, and it is there exactly while
this is not zero. A node that lists another one twice counts twice. -/
structure Accounts {α : Type*} (own : Nat → Nat) (l : List (Counted Nat α)) : Prop where
  count : ∀ id, count id l = own id + listed id l
  present : ∀ id, id ∈ ids l ↔ 0 < own id + listed id l

/-- The counts of all loaders and of the shared modules, and what is open. -/
structure Counts (s : System D) (loads : Nat → Nat → Nat) : Prop where
  modules : ∀ loader l, s.m_modules.lookup loader = some l → Accounts (loads loader) l
  shared : Accounts (holders s) s.modules
  opened : ∀ id, s.handles.count id = if id ∈ ids s.modules then 1 else 0

structure Sound (elf : Elf D) (s : System D) (loads : Nat → Nat → Nat) : Prop where
  held : ∀ loader l, s.m_modules.lookup loader = some l → Held elf (loads loader) l
  positive : ∀ loader l, s.m_modules.lookup loader = some l → ∀ k ∈ ids l, 0 < count k l
  shared : Shared elf (holders s) [] s

theorem accounts_of {α : Type*} {l : List (Counted Nat α)} (exact : Exact own [] l)
    (positive : ∀ k ∈ ids l, 0 < count k l) :
    Accounts own l := by
  refine ⟨fun k => exact.exact k, fun k => ⟨fun inside => ?_, fun pos => exact.present pos⟩⟩
  have counted := positive k inside
  rw [exact.exact k] at counted
  exact counted

section

variable (sound : Sound elf s loads)
include sound

theorem Sound.counts : Counts s loads where
  modules loader l look := accounts_of (sound.held loader l look).counts (sound.positive loader l look)
  shared := accounts_of sound.shared.counts.exact sound.shared.counts.positive
  opened id := by
    rw [sound.shared.opened.count_eq, Nodup.count sound.shared.counts.exact.nodup]

theorem Sound.here (present : loader ∈ s.m_modules) :
    Held elf (loads loader) (modulesOf loader s) ∧ ∀ k ∈ ids (modulesOf loader s), 0 <
    count k (modulesOf loader s) :=
  ⟨sound.held loader _ (lookup_of_mem present), sound.positive loader _ (lookup_of_mem present)⟩

theorem Sound.replace (shared : Shared elf (holders s') [] s')
    (others : ∀ other, other ≠ loader → s'.m_modules.lookup other = s.m_modules.lookup other)
    (mine : ∀ l, s'.m_modules.lookup loader = some l → Held elf own l ∧ ∀ k ∈ ids l, 0 < count k l) :
    Sound elf s' (update loads loader own) where
  held other l look := by
    by_cases same : other = loader
    · subst same
      rw [update_self]
      exact (mine l look).1
    · rw [update_of_ne same]
      exact sound.held other l ((others other same).symm.trans look)
  positive other l look := by
    by_cases same : other = loader
    · subst same
      exact (mine l look).2
    · exact sound.positive other l ((others other same).symm.trans look)
  shared := shared

end

theorem sound_initial {unmapped : Nat → D} : Sound elf (initial unmapped) fun _ _ => 0 where
  held _ _ look := by simp [initial] at look
  positive _ _ look := by simp [initial] at look
  shared := shared_initial

section

theorem lookup_put_self {l m : List Module} (look : (s.put loader l).m_modules.lookup loader = some m) : m = l := by
  rw [System.put, AList.lookup_insert] at look
  exact (some.inj look).symm

theorem lookup_put_of_ne {other : Nat} {l : List Module} (apart : other ≠ loader) :
    (s.put loader l).m_modules.lookup other = s.m_modules.lookup other := AList.lookup_insert_ne apart

variable (sound : Sound elf s loads)
include sound

theorem Sound.create (absent : loader ∉ s.m_modules) :
    Sound elf (s.put loader []) (update loads loader fun _ => 0) := by
  refine sound.replace ?_ (fun _ => lookup_put_of_ne) fun l look => ?_
  · have same : holders (s.put loader []) = holders s := by
      funext k
      rw [holders_put_new absent]
      rfl
    rw [same]
    exact ⟨sound.shared.counts, sound.shared.opened, sound.shared.built⟩
  · rw [lookup_put_self look]
    exact ⟨.nil, fun _ inside => by cases inside⟩

section

variable (present : loader ∈ s.m_modules)
include present

theorem Sound.load {file : String} : Sound elf (Load elf loader file s).1
    (note elf s (.load loader file) loads) := by
  obtain ⟨held, positive⟩ := sound.here present
  obtain ⟨loaded, after, all⟩ :=
    LoadModule_spec file (I := fun s => Held elf (loads loader) (modulesOf loader s)) present
    sound.shared (fun _ _ here shared deps held => held.loadOne here shared deps) held
  cases root : (elf.gather file).getLast? with
  | none =>
    have empty : elf.gather file = [] := getLast?_eq_none_iff.mp root
    have same : Load elf loader file s = (s, none) := by simp [Load, LoadModule, empty]
    simp only [note, same]
    exact sound
  | some id =>
    have same : Load elf loader file s = ((LoadModule elf loader file s).1.put loader
        (acquire id (modulesOf loader (LoadModule elf loader file s).1)), some id) := by
      simp only [Load, LoadModule, root]
    simp only [note, same]
    obtain ⟨client, pos⟩ := loaded.client after positive held all root
    refine sound.replace ?_ (fun other apart => (lookup_put_of_ne apart).trans (loaded.others other apart))
      fun l look => ?_
    · have holds : holders ((LoadModule elf loader file s).1.put loader
          (acquire id (modulesOf loader (LoadModule elf loader file s).1))) =
          holders (LoadModule elf loader file s).1 := by
        funext k
        have counted :=
          holders_put (l := acquire id (modulesOf loader (LoadModule elf loader file s).1)) loaded.here k
        simp only [ids_acquire] at counted
        omega
      rw [holds]
      exact ⟨loaded.shared.counts, loaded.shared.opened, loaded.shared.built⟩
    · rw [lookup_put_self look]
      exact ⟨client, pos⟩

theorem Sound.unloadAll : Sound elf (UnloadAll elf loader s) (update loads loader fun _ => 0) := by
  obtain ⟨held, -⟩ := sound.here present
  have shared : Shared elf (holders (UnloadAll elf loader s)) [] (UnloadAll elf loader s) :=
    sound.shared.replace present (Perm.refl _) held.counts.nodup
  refine sound.replace shared (fun other apart => ?_) fun l look => ?_
  · rw [UnloadAll, lookup_put_of_ne apart, closeAll_frame.1]
  · rw [lookup_put_self look]
    exact ⟨.nil, fun _ inside => by cases inside⟩

theorem Sound.unload (owned : 0 < loads loader handle) : Sound elf (Unload elf loader handle s)
      (update loads loader fun k => loads loader k - if k = handle then 1 else 0) := by
  obtain ⟨held, positive⟩ := sound.here present
  obtain ⟨p, same, stays, perm⟩ := Unload_eq elf loader handle s
  rw [same]
  refine sound.replace (sound.shared.replace present perm held.counts.nodup) (fun other apart => ?_) fun l look => ?_
  · rw [lookup_put_of_ne apart, closeAll_frame.1]
  · rw [lookup_put_self look, stays]
    exact held.release positive (Nat.lt_succ_self _) owned

omit sound present in
theorem Unload_absent (absent : handle ∉ ids (modulesOf loader s)) :
    Unload elf loader handle s = s.put loader (modulesOf loader s) := by
  simp only [Unload, releaseWith, find_eq_none.mpr absent]

theorem Sound.unload_absent (absent : handle ∉ ids (modulesOf loader s)) : Sound elf (Unload elf loader handle s)
      (update loads loader fun k => loads loader k - if k = handle then 1 else 0) := by
  obtain ⟨held, positive⟩ := sound.here present
  have none : loads loader handle = 0 := (held.counts.absent absent).1
  have same : (fun k => loads loader k - if k = handle then 1 else 0) = loads loader := by
    funext k
    split
    next here => rw [here, none]
    next => rfl
  rw [Unload_absent absent, same]
  refine sound.replace ?_ (fun _ => lookup_put_of_ne) fun l look => ?_
  · have holds : holders (s.put loader (modulesOf loader s)) = holders s := by
      funext k
      have counted := holders_put (l := modulesOf loader s) present k
      omega
    rw [holds]
    exact ⟨sound.shared.counts, sound.shared.opened, sound.shared.built⟩
  · rw [lookup_put_self look]
    exact ⟨held, positive⟩

/-- A module that its clients do not hold is unloaded: those that list it have lost what they depend on, or count it
once more than it says. -/
theorem not_counts_unload (inside : handle ∈ ids (modulesOf loader s)) (unowned : loads loader handle = 0) :
    ¬ Counts (Unload elf loader handle s) (update loads loader fun k =>
      loads loader k - if k = handle then 1 else 0) := by
  intro counts
  obtain ⟨held, positive⟩ := sound.here present
  obtain ⟨p, same, stays, -⟩ := Unload_eq elf loader handle s
  have accounts := counts.modules loader p.1 (by rw [same, System.put, AList.lookup_insert])
  obtain ⟨m, found⟩ := isSome_iff_exists.mp (find_isSome.mpr inside)
  have counted := held.counts.exact handle
  rw [count_of_find found, count_nil] at counted
  have pos := positive handle inside
  rw [count_of_find found] at pos
  by_cases last : m.refcount - 1 = 0
  · obtain ⟨lister, mem, lists⟩ := listed_pos_iff.mp (show 0 < listed handle (modulesOf loader s) by omega)
    have above : elf.rank handle < elf.rank lister.id := held.acyclic lister mem handle lists
    have still : find lister.id p.1 = find lister.id (modulesOf loader s) :=
      stays ▸ find_releaseWith held.acyclic above
    obtain ⟨n, there⟩ :=
      isSome_iff_exists.mp (find_isSome.mpr (mem_map_of_mem mem : lister.id ∈ ids (modulesOf loader s)))
    have deps : handle ∈ n.deps := by
      rw [held.built n (find_mem there), find_id there, ← held.built lister mem]
      exact lists
    have needed : 0 < listed handle p.1 := listed_pos_iff.mpr ⟨n, find_mem (still.trans there), deps⟩
    have gone : handle ∉ ids p.1 := stays ▸ notMem_releaseWith held.counts.nodup found last
    exact gone ((accounts.present handle).mpr (by omega))
  · have once : p.1 = decrease handle (modulesOf loader s) := by
      rw [stays, releaseWith, found]
      exact congrArg Prod.fst (if_neg last)
    have less : count handle (decrease handle (modulesOf loader s)) = m.refcount - 1 :=
      count_alter_self (fun _ => rfl) found
    have wrong := accounts.count handle
    rw [once, listed_decrease] at wrong
    omega

theorem Clone_spec {clone : Nat} (absent : clone ∉ s.m_modules) :
    ∃ (c : List Module) (t : System D), Clone loader clone s = t.put clone c ∧ t.m_modules = s.m_modules ∧
    Copied (modulesOf loader s) c ∧
      Shared elf (holders (t.put clone c)) [] (t.put clone c) := by
  obtain ⟨held, -⟩ := sound.here present
  obtain ⟨c, t, folded, same, loaders, -, shared⟩ := sound.shared.clone present absent held.counts.nodup
  have copied :=
    cloneAll_copied (s := s) (modulesOf loader s) [] (c := []) held rfl ⟨rfl, fun _ => rfl, fun _ => rfl⟩
    fun _ inside => sound.shared.present present inside
  rw [folded] at copied
  exact ⟨c, t, same, loaders, copied, shared⟩

omit sound present in
theorem Copied.held {l c : List Module} (copied : Copied l c) (held : Held elf own l) (bare : ∀ m ∈ l, m.deps = []) :
    Held elf own c := by
  have unlisted : ∀ k, Counted.listed k l = 0 := fun k => by
    by_contra some
    obtain ⟨m, inside, lists⟩ := listed_pos_iff.mp (pos_of_ne_zero some)
    rw [bare m inside] at lists
    cases lists
  have none : ∀ m ∈ c, ∀ d, d ∉ m.deps := fun m inside d lists => by
    have pos : 0 < Counted.listed d c := listed_pos_iff.mpr ⟨m, inside, lists⟩
    rw [copied.listed, unlisted] at pos
    cases pos
  refine ⟨⟨copied.ids ▸ held.counts.nodup, fun k => ?_⟩, ?_, fun m inside => ?_⟩
  · rw [copied.count, copied.listed, unlisted, held.counts.exact k, unlisted]
  · exact pairwise_of_forall_mem_list fun a inside b _ => none a inside b.id
  · have there : m.id ∈ Counted.ids l := by
      rw [← copied.ids]
      exact mem_map_of_mem inside
    obtain ⟨m', inside', same⟩ := mem_map.mp there
    rw [← same, ← held.built m' inside', bare m' inside']
    exact eq_nil_iff_forall_not_mem.mpr (none m inside)

theorem Sound.clone {clone : Nat} (absent : clone ∉ s.m_modules) (bare : ∀ m ∈ modulesOf loader s, m.deps = []) :
    Sound elf (Clone loader clone s) (update loads clone (loads loader)) := by
  obtain ⟨held, positive⟩ := sound.here present
  obtain ⟨c, t, same, loaders, copied, shared⟩ := Clone_spec sound present absent
  rw [same]
  refine sound.replace shared (fun other apart => (lookup_put_of_ne apart).trans (by rw [loaders])) fun l look => ?_
  rw [lookup_put_self look]
  refine ⟨copied.held held bare, fun k inside => ?_⟩
  rw [copied.count]
  exact Nat.add_pos_left (positive k (copied.ids ▸ inside)) _

theorem not_counts_clone {clone : Nat} (absent : clone ∉ s.m_modules)
    {m : Module} (inside : m ∈ modulesOf loader s) (some : m.deps ≠ []) :
    ¬ Counts (Clone loader clone s) (update loads clone (loads loader)) := by
  intro counts
  obtain ⟨held, -⟩ := sound.here present
  obtain ⟨c, t, same, -, copied, -⟩ := Clone_spec sound present absent
  have accounts := counts.modules clone c (by rw [same, System.put, AList.lookup_insert])
  rw [update_self] at accounts
  obtain ⟨d, mem⟩ := exists_mem_of_ne_nil _ some
  have lists : 0 < listed d (modulesOf loader s) := listed_pos_iff.mpr ⟨m, inside, mem⟩
  have wrong := accounts.count d
  rw [copied.count, copied.listed, held.counts.exact d] at wrong
  omega

end

theorem Sound.switch {l : List Module} : Sound elf (l.foldl switchOne s) loads := by
  induction l generalizing s with
  | nil => exact sound
  | cons m l ih =>
    refine ih ?_
    have shared := sound.shared.switchOne (m := m)
    obtain ⟨modules, memory, same, -⟩ := switchOne_eq s m
    rw [same] at shared ⊢
    exact ⟨sound.held, sound.positive, shared⟩

theorem Sound.write {data : D} : Sound elf (write id data s) loads :=
  ⟨sound.held, sound.positive, sound.shared.write⟩

end

/-- No module of a loader that is cloned depends on another, and no client gives back what it does not hold. -/
def Careful (p : System D × (Nat → Nat → Nat)) : Label D → Prop
  | .unload loader handle => handle ∈ ids (modulesOf loader p.1) → 0 < p.2 loader handle
  | .clone loader _ => ∀ m ∈ modulesOf loader p.1, m.deps = []
  | _ => True

/-- The counts are those they should be after the call. -/
def Good (elf : Elf D) (p : System D × (Nat → Nat → Nat)) (a : Label D) : Prop :=
  ∀ q, (counted elf).step p a = some q → Counts q.1 q.2

theorem good_iff {p q : System D × (Nat → Nat → Nat)} (run : (counted elf).step p a = some q) :
    Good elf p a ↔ Counts q.1 q.2 :=
  ⟨fun good => good q run, fun counts _ again => some.inj (run.symm.trans again) ▸ counts⟩

theorem respond_step {p q : System D × (Nat → Nat → Nat)} (run : (counted elf).step p a = some q) :
    ∃ handle, respond elf p.1 a = some (q.1, handle) ∧ q.2 = note elf p.1 a p.2 := by
  obtain ⟨step, noted⟩ := Machine.ledgered_step run
  obtain ⟨⟨t, handle⟩, responded, rfl⟩ := map_eq_some_iff.mp step
  exact ⟨handle, responded, noted⟩

theorem sound_step {p q : System D × (Nat → Nat → Nat)} (sound : Sound elf p.1 p.2)
    (run : (counted elf).step p a = some q) :
    (Good elf p a ↔ Careful p a) ∧ (Careful p a → Sound elf q.1 q.2) := by
  rw [good_iff run]
  obtain ⟨handle, responded, noted⟩ := respond_step run
  have exactly (careful : Careful p a) (after : Sound elf q.1 q.2) :
      (Counts q.1 q.2 ↔ Careful p a) ∧ (Careful p a → Sound elf q.1 q.2) :=
    ⟨iff_of_true after.counts careful, fun _ => after⟩
  cases a with
  | create loader =>
    obtain ⟨absent, same⟩ := ite_none_left_eq_some.mp responded
    have after : q.1 = p.1.put loader [] := (congrArg Prod.fst (some.inj same)).symm
    refine exactly trivial ?_
    rw [noted, after]
    exact sound.create absent
  | load loader file =>
    obtain ⟨present, same⟩ := ite_none_right_eq_some.mp responded
    have after : q.1 = (Load elf loader file p.1).1 := (congrArg Prod.fst (some.inj same)).symm
    refine exactly trivial ?_
    rw [noted, after]
    exact sound.load present
  | unload loader handle =>
    obtain ⟨present, same⟩ := ite_none_right_eq_some.mp responded
    have after : q.1 = Unload elf loader handle p.1 := (congrArg Prod.fst (some.inj same)).symm
    rw [noted, after]
    by_cases inside : handle ∈ ids (modulesOf loader p.1)
    · by_cases owned : 0 < p.2 loader handle
      · have done := sound.unload present owned
        exact ⟨iff_of_true done.counts fun _ => owned, fun _ => done⟩
      · have bad := not_counts_unload sound present inside (Nat.eq_zero_of_not_pos owned)
        exact ⟨iff_of_false bad fun careful => owned (careful inside), fun careful => absurd (careful inside) owned⟩
    · have done := sound.unload_absent present inside
      exact ⟨iff_of_true done.counts fun there => absurd there inside, fun _ => done⟩
  | unloadAll loader =>
    obtain ⟨present, same⟩ := ite_none_right_eq_some.mp responded
    have after : q.1 = UnloadAll elf loader p.1 := (congrArg Prod.fst (some.inj same)).symm
    refine exactly trivial ?_
    rw [noted, after]
    exact sound.unloadAll present
  | clone loader clone =>
    obtain ⟨⟨present, absent⟩, same⟩ := ite_none_right_eq_some.mp responded
    have after : q.1 = Clone loader clone p.1 := (congrArg Prod.fst (some.inj same)).symm
    rw [noted, after]
    by_cases careful : Careful p (.clone loader clone)
    · have done := sound.clone present absent careful
      exact ⟨iff_of_true done.counts careful, fun _ => done⟩
    · obtain ⟨m, some⟩ := not_forall.mp careful
      obtain ⟨inside, some⟩ := Classical.not_imp.mp some
      exact ⟨iff_of_false (not_counts_clone sound present absent inside some) careful, fun wrong =>
        absurd wrong careful⟩
  | start loader =>
    obtain ⟨-, same⟩ := ite_none_right_eq_some.mp responded
    have after : q.1 = NotifyStartExecute loader p.1 := (congrArg Prod.fst (some.inj same)).symm
    refine exactly trivial ?_
    rw [noted, after]
    exact sound.switch
  | write loader id data =>
    have after : q.1 = write id data p.1 := (congrArg Prod.fst (some.inj responded)).symm
    refine exactly trivial ?_
    rw [noted, after]
    exact sound.write

/-- A run keeps all the counts exact if and only if it is careful. -/
theorem exact_iff_careful {p : System D × (Nat → Nat → Nat)} {k : Machine.Verdict}
    (reach : ((counted elf).judged Careful (Good elf)).Reach (p, k)) : k.good ↔ k.careful := by
  refine Machine.judged_iff (fun p : System D × (Nat → Nat → Nat) => Sound elf p.1 p.2) (fun p first => ?_)
    (fun _ _ _ sound run => sound_step sound run) reach
  obtain ⟨⟨unmapped, here⟩, none⟩ := first
  rw [here, none]
  exact sound_initial

/-- A program is loaded and unloaded. -/
theorem exact_after_unload : ∃ p : (System Nat × (Nat → Nat → Nat)) × Machine.Verdict,
    ((counted program).judged Careful (Good program)).replay ((initial fun _ => 0, fun _ _ => 0), ⟨True, True⟩)
      [.create 0, .load 0 "program", .unload 0 1] = some p ∧ p.2.good := by
  let M := (counted program).judged Careful (Good program)
  have run : M.replay ((initial fun _ => 0, fun _ _ => 0), ⟨True, True⟩) [.create 0, .load 0 "program",
    .unload 0 1] = some _ := rfl
  have first : M.Reach ((initial fun _ => 0, fun _ _ => 0), ⟨True, True⟩) := .start ⟨⟨⟨_, rfl⟩, rfl⟩, rfl⟩
  have reach := first.replay (fun _ _ => trivial) run
  refine ⟨_, run, (exact_iff_careful reach).mpr ⟨⟨⟨trivial, trivial⟩, trivial⟩, fun _ => ?_⟩⟩
  decide

/-- A loader that has loaded a program is cloned: the library says that two hold it in the clone, and only the
program does. -/
theorem not_exact : ¬ ∀ p, (counted program).Reach p → Counts p.1 p.2 := by
  intro always
  have run : (counted program).replay (initial fun _ => 0, fun _ _ => 0) [.create 0, .load 0 "program",
    .clone 0 1] = some _ := rfl
  have first : (counted program).Reach (initial fun _ => 0, fun _ _ => 0) := .start ⟨⟨_, rfl⟩, rfl⟩
  have counts := always _ (first.replay (fun _ _ => trivial) run)
  have wrong := (counts.modules 1 _ rfl).count 0
  exact absurd wrong (by decide)

end Dce.Loader
