import Dce.Loader.Counts

/- What the processes have in the data sections of their modules, whether it is there or in a buffer. -/

namespace Dce.Loader

open Counted List Option

variable {D : Type*} {elf : Elf D} {s s' : System D} {loader loader' id id' b c : Nat} {v v' : Section D}
    {own : Nat → Nat} {debts : List Nat}
  {m : Module} {gone : List Module}

/-- The buffer of a module of a loader. -/
def buffer (loader id : Nat) (s : System D) : Option Nat := valueOf id (modulesOf loader s)

def sectionOf (id : Nat) (s : System D) : Option (Section D) := valueOf id s.modules

/-- What the process that has the buffer `b` for the module `id` has in its data section: it is there if the buffer
is the current one, and in the buffer else. -/
def contents (id b : Nat) (s : System D) : D :=
  match sectionOf id s with
  | none => s.memory b
  | some v => if v.current_buffer = some b then v.data_buffer else s.memory b

/-- Every buffer is that of one module of one loader, and a module that has a current buffer has it from there. -/
structure Placed (elf : Elf D) (s : System D) : Prop where
  nodup : ∀ loader, (ids (modulesOf loader s)).Nodup
  fresh : ∀ loader id b, buffer loader id s = some b → b < s.nextBuffer
  apart : ∀ loader loader' id id' b, buffer loader id s = some b → buffer loader' id' s = some b →
    loader = loader' ∧ id = id'
  live : ∀ id v b, sectionOf id s = some v → v.current_buffer = some b → ∃ loader, buffer loader id s = some b
  template : ∀ id v, sectionOf id s = some v → v.template_buffer = elf.data id

section

theorem contents_of_none (found : sectionOf id s = none) : contents id b s = s.memory b := by rw [contents, found]

theorem contents_of_some (found : sectionOf id s = some v) :
    contents id b s = if v.current_buffer = some b then v.data_buffer else s.memory b := by rw [contents, found]

theorem contents_congr (same : sectionOf id s' = sectionOf id s) (memory : s'.memory b = s.memory b) :
    contents id b s' = contents id b s := by
  rw [contents, contents, same, memory]

theorem mem_of_buffer (held : buffer loader id s = some b) : loader ∈ s.m_modules := by
  by_contra absent
  have none : s.m_modules.lookup loader = none := AList.lookup_eq_none.mpr absent
  rw [buffer, modulesOf, none] at held
  cases held

theorem Shared.hasSection (shared : Shared elf (holders s) [] s) (held : buffer loader id s = some b) :
    ∃ v, sectionOf id s = some v := by
  have inside : id ∈ ids (modulesOf loader s) := valueOf_isSome.mp (by rw [← buffer, held]; rfl)
  exact isSome_iff_exists.mp (valueOf_isSome.mpr (shared.present (mem_of_buffer held) inside))

variable {memory : Nat → D} {shared : SharedModule D}

theorem save_of_ne (other : shared.value.current_buffer ≠ some b) : save shared memory b = memory b := by
  rw [save]
  cases here : shared.value.current_buffer with
  | none => rfl
  | some c => exact Function.update_of_ne (fun same => other (by rw [here, same])) _ _

theorem save_self (here : shared.value.current_buffer = some b) :
    save shared memory b = shared.value.data_buffer := by
  rw [save, here]
  exact Function.update_self ..

/-- Who has a module in its data section is saved when another takes it over: `c` is the buffer of the other. -/
theorem Placed.contents_taken (placed : Placed elf s) (found : sectionOf id s = some shared.value)
    (now : ∃ d t, sectionOf id s' = some ⟨t, d, some c⟩) (others : ∀ k, k ≠ id → sectionOf k s' = sectionOf k s)
    (memory : s'.memory = save shared s.memory) (held : buffer loader' id' s = some b)
    (different : id' = id → b ≠ c) :
    contents id' b s' = contents id' b s := by
  by_cases same : id' = id
  · subst same
    obtain ⟨d, t, now⟩ := now
    have elsewhere : ¬ some c = some b := fun wrong => different rfl (some.inj wrong).symm
    rw [contents_of_some now, contents_of_some found, memory]
    rw [if_neg elsewhere]
    split
    next here => exact save_self here
    next other => exact save_of_ne other
  · refine contents_congr (others id' same) ?_
    rw [memory]
    refine save_of_ne fun here => same ?_
    obtain ⟨owner, theirs⟩ := placed.live id _ b found here
    exact (placed.apart loader' owner id' id b held theirs).2

end

/-- What the section of a module is once the modules `gone` of a loader have been closed. -/
def cleared (gone : List Module) (id : Nat) (v : Section D) : Section D :=
  if ∃ m ∈ gone, m.id = id ∧ v.current_buffer = some m.value then { v with current_buffer := none } else v

theorem cleared_of (inside : m ∈ gone) (here : v.current_buffer = some m.value) :
    (cleared gone m.id v).current_buffer = none := by
  rw [cleared, if_pos ⟨m, inside, rfl, here⟩]

theorem cleared_frame : (cleared gone id v).template_buffer = v.template_buffer ∧
    (cleared gone id v).data_buffer = v.data_buffer := by
  rw [cleared]
  split <;> exact ⟨rfl, rfl⟩

theorem cleared_some (now : (cleared gone id v).current_buffer = some b) :
    v.current_buffer = some b ∧ cleared gone id v = v := by
  rw [cleared] at now ⊢
  split at now
  next => cases now
  next none => exact ⟨now, if_neg none⟩

theorem cleared_cons : cleared (m :: gone) id v = cleared gone id (cleared [m] id v) := by
  by_cases first : m.id = id ∧ v.current_buffer = some m.value
  · have alone : cleared [m] id v = { v with current_buffer := none } := if_pos ⟨m, mem_singleton.mpr rfl, first⟩
    rw [alone, cleared, if_pos ⟨m, mem_cons_self, first⟩]
    exact (ite_self _).symm
  · have alone : cleared [m] id v = v := if_neg fun some => by
      obtain ⟨m', inside, here⟩ := some
      exact first (mem_singleton.mp inside ▸ here)
    rw [alone]
    refine if_congr ⟨fun some => ?_, fun some => ?_⟩ rfl rfl
    · obtain ⟨m', inside, here⟩ := some
      rcases mem_cons.mp inside with rfl | later
      · exact absurd here first
      · exact ⟨m', later, here⟩
    · obtain ⟨m', inside, here⟩ := some
      exact ⟨m', mem_cons_of_mem _ inside, here⟩

theorem cleared_singleton : cleared [m] m.id v = if v.current_buffer = some m.value then
    { v with current_buffer := none } else v := by
  refine if_congr ⟨fun some => ?_, fun here => ⟨m, mem_singleton.mpr rfl, rfl, here⟩⟩ rfl rfl
  obtain ⟨m', inside, -, here⟩ := some
  exact mem_singleton.mp inside ▸ here

theorem sectionOf_reset : sectionOf id (resetCurrent m s) = (sectionOf id s).map (cleared [m] id) := by
  have step (n : SharedModule D) : (dropCurrent m.value n).value = cleared [m] m.id n.value := by
    rw [cleared_singleton, dropCurrent]
    split <;> rfl
  have whole : sectionOf id (resetCurrent m s) = if id = m.id then (sectionOf id s).map (cleared [m] m.id)
    else sectionOf id s :=
    valueOf_alter (fun n => by rw [dropCurrent]; split <;> rfl) step
  rw [whole]
  split
  next here => rw [here]
  next other =>
    have still : cleared [m] id = fun v : Section D => v := by
      funext v
      refine if_neg fun some => ?_
      obtain ⟨m', inside, same, -⟩ := some
      exact other (mem_singleton.mp inside ▸ same).symm
    rw [still]
    exact map_id'.symm

theorem Shared.sectionOf_unref (shared : Shared elf own (id :: debts) s)
    (found : sectionOf id' (UnrefSharedModule elf id s) = some v) :
    sectionOf id' s = some v := by
  have order : releaseLastWith (fun n handles => handles.erase n.id) (elf.rank id + 1) id (s.modules, s.handles) =
      releaseWith (fun n handles => handles.erase n.id) (elf.rank id + 1) id (s.modules, s.handles) :=
    releaseLastWith_eq shared.counts.acyclic
  have fewer : ((UnrefSharedModule elf id s).modules.map bare).Sublist (s.modules.map bare) := by
    simp only [UnrefSharedModule, order]
    exact sublist_releaseWith
  exact valueOf_of_sublist shared.counts.exact.nodup fewer found

theorem Shared.sectionOf_close (shared : Shared elf own (m.id :: debts) s)
    (found : sectionOf id (closeModule elf m s) = some v') :
    ∃ v, sectionOf id s = some v ∧ v' = cleared [m] id v := by
  have before : sectionOf id (resetCurrent m s) = some v' := shared.reset.sectionOf_unref found
  rw [sectionOf_reset] at before
  obtain ⟨v, here, same⟩ := map_eq_some_iff.mp before
  exact ⟨v, here, same.symm⟩

theorem Shared.sectionOf_closeAll (shared : Shared elf own (ids gone ++ debts) s)
    (found : sectionOf id (gone.foldl (fun s m => closeModule elf m s) s) = some v') :
    ∃ v, sectionOf id s = some v ∧ v' = cleared gone id v := by
  induction gone generalizing s with
  | nil => exact ⟨v', found, by simp [cleared]⟩
  | cons m gone ih =>
    obtain ⟨v, here, same⟩ := ih (Shared.close shared) found
    have one : Shared elf own (m.id :: (ids gone ++ debts)) s := shared
    obtain ⟨v₀, first, rfl⟩ := one.sectionOf_close here
    exact ⟨v₀, first, same.trans cleared_cons.symm⟩

end Dce.Loader
