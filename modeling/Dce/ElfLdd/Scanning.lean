import Dce.ElfLdd.Depths
import Mathlib.Data.Set.Finite.Lattice

/- The first loop of `Loop` comes to its end, and has scanned what is reached and not missing. -/

namespace Dce.ElfLdd

open Dependencies List
open OrderedSet (insert mem_insert mem_place place_perm)
open Relation (ReflTransGen TransGen)

variable {w : Nat} {host : Host w} {f p q : Path} {s : Scan} {todo : List Entry} {name : Entry} {libs : List Entry}

/-- What the files say of who needs whom. -/
def depsOf (host : Host w) (p : Path) : Option (List Path) := (libsOf host p).map fun libs => libs.map Prod.snd

theorem depsOf_eq (found : libsOf host p = some libs) : depsOf host p = some (libs.map Prod.snd) := by
  rw [depsOf, found]
  rfl

theorem needs_entry (found : libsOf host p = some libs) {i : Entry} (mem : i ∈ libs) : Needs (depsOf host) p i.2 :=
  ⟨_, depsOf_eq found, mem_map_of_mem mem⟩

/-- What holds before each turn. -/
structure Scanning (host : Host w) (f : Path) (s : Scan) : Prop where
  sound : ∀ x ∈ s.mapScanned, Reaches (depsOf host) f x.1 ∧ libsOf host x.1 = some x.2.m_libs ∧ x.2.m_fullName = x.1
  distinct : (keys s.mapScanned).Nodup
  scanned : ∀ p, p ∈ s.done ↔ p ∈ keys s.mapScanned
  reached : ∀ i ∈ s.todo, Reaches (depsOf host) f i.2
  closed : ∀ p ∈ s.done, ∀ libs, libsOf host p = some libs → ∀ i ∈ libs, i.2 ∈ s.done ∨ i ∈ s.todo ∨
    libsOf host i.2 = none
  root : f ∈ s.done ∨ (∃ i ∈ s.todo, i.2 = f) ∨ libsOf host f = none

section

variable {m : Scanned} {l : SharedLibrary} {x : Path × SharedLibrary}

theorem lookup_isSome_iff : (m.lookup p).isSome ↔ p ∈ keys m := find_isSome_iff

theorem mem_assign (mem : x ∈ assign p l m) : x = (p, l) ∨ x ∈ m := by
  unfold assign at mem
  split at mem
  · obtain ⟨y, inside, rfl⟩ := mem_map.mp mem
    split
    · exact .inl rfl
    · exact .inr inside
  · exact mem_place.mp mem

theorem keys_assign : q ∈ keys (assign p l m) ↔ q = p ∨ q ∈ keys m := by
  unfold assign
  split
  next there =>
    have same : keys (m.map fun x => if x.1 = p then (p, l) else x) = keys m := by
      unfold keys
      rw [map_map]
      refine map_congr_left fun x _ => ?_
      rw [Function.comp_apply]
      split
      next here =>
        exact here.symm
      · rfl
    rw [same]
    exact ⟨.inr, fun either => either.elim (fun here => here ▸ lookup_isSome_iff.mp there) id⟩
  · exact ((place_perm.map Prod.fst).mem_iff).trans mem_cons

theorem nodup_assign (distinct : (keys m).Nodup) : (keys (assign p l m)).Nodup := by
  unfold assign
  split
  · have same : keys (m.map fun x => if x.1 = p then (p, l) else x) = keys m := by
      unfold keys
      rw [map_map]
      refine map_congr_left fun x _ => ?_
      rw [Function.comp_apply]
      split
      next here =>
        exact here.symm
      · rfl
    rw [same]
    exact distinct
  next absent =>
    have perm : (keys (OrderedSet.place (fun a b => before a.1 b.1) (p, l) m)).Perm (p :: keys m) :=
      place_perm.map Prod.fst
    exact perm.nodup_iff.mpr (nodup_cons.mpr ⟨fun inside => absent (lookup_isSome_iff.mpr inside), distinct⟩)

end

theorem mem_addTodo {done : List Path} {i j : Entry} : j ∈ addTodo done todo i ↔ j ∈ todo ∨ j = i ∧ i.2 ∉ done := by
  unfold addTodo
  split
  next known =>
    exact ⟨.inl, fun either => either.elim id fun both => absurd known both.2⟩
  next unknown =>
    rw [mem_insert, or_comm]
    exact or_congr_right (and_iff_left unknown).symm

theorem mem_foldl_addTodo {done : List Path} {j : Entry} :
    j ∈ libs.foldl (addTodo done) todo ↔ j ∈ todo ∨ j ∈ libs ∧ j.2 ∉ done := by
  induction libs generalizing todo with
  | nil => simp
  | cons i libs ih =>
    rw [foldl_cons, ih, mem_addTodo, mem_cons]
    constructor
    · rintro ((old | ⟨rfl, unknown⟩) | ⟨later, unknown⟩)
      · exact .inl old
      · exact .inr ⟨.inl rfl, unknown⟩
      · exact .inr ⟨.inr later, unknown⟩
    · rintro (old | ⟨rfl | later, unknown⟩)
      · exact .inl (.inl old)
      · exact .inl (.inr ⟨rfl, unknown⟩)
      · exact .inr ⟨later, unknown⟩

theorem Scanning.turn (scanning : Scanning host f s) (next : s.todo = name :: todo) :
    Scanning host f (turn host name todo s) := by
  have here : Reaches (depsOf host) f name.2 := scanning.reached name (next ▸ mem_cons_self)
  have rest : ∀ i ∈ todo, Reaches (depsOf host) f i.2 :=
    fun i mem => scanning.reached i (next ▸ mem_cons_of_mem _ mem)
  unfold ElfLdd.turn
  cases found : libsOf host name.2 with
  | none =>
    refine ⟨scanning.sound, scanning.distinct, scanning.scanned, rest, fun p done libs scanned i mem => ?_, ?_⟩
    · rcases scanning.closed p done libs scanned i mem with known | waiting | missing
      · exact .inl known
      · rw [next] at waiting
        rcases mem_cons.mp waiting with rfl | waiting
        · exact .inr (.inr found)
        · exact .inr (.inl waiting)
      · exact .inr (.inr missing)
    · rcases scanning.root with known | ⟨i, waiting, rfl⟩ | missing
      · exact .inl known
      · rw [next] at waiting
        rcases mem_cons.mp waiting with rfl | waiting
        · exact .inr (.inr found)
        · exact .inr (.inl ⟨i, waiting, rfl⟩)
      · exact .inr (.inr missing)
  | some libs =>
    have grows : ∀ p, p ∈ s.done → p ∈ insert before name.2 s.done := fun p known => mem_insert.mpr (.inr known)
    refine ⟨fun x mem => ?_, nodup_assign scanning.distinct, fun p => ?_, fun i mem => ?_,
      fun p done libs' scanned i mem => ?_, ?_⟩
    · rcases mem_assign mem with rfl | old
      · exact ⟨here, found, rfl⟩
      · exact scanning.sound x old
    · rw [mem_insert, keys_assign, scanning.scanned]
    · rcases mem_foldl_addTodo.mp mem with old | ⟨new, -⟩
      · exact rest i old
      · exact here.tail (needs_entry found new)
    · rcases mem_insert.mp done with rfl | done
      · cases found.symm.trans scanned
        by_cases known : i.2 ∈ insert before name.2 s.done
        · exact .inl known
        · exact .inr (.inl (mem_foldl_addTodo.mpr (.inr ⟨mem, known⟩)))
      · rcases scanning.closed p done libs' scanned i mem with known | waiting | missing
        · exact .inl (grows _ known)
        · rw [next] at waiting
          rcases mem_cons.mp waiting with rfl | waiting
          · exact .inl (mem_insert.mpr (.inl rfl))
          · exact .inr (.inl (mem_foldl_addTodo.mpr (.inl waiting)))
        · exact .inr (.inr missing)
    · rcases scanning.root with known | ⟨i, waiting, rfl⟩ | missing
      · exact .inl (grows _ known)
      · rw [next] at waiting
        rcases mem_cons.mp waiting with rfl | waiting
        · exact .inl (mem_insert.mpr (.inl rfl))
        · exact .inr (.inl ⟨i, mem_foldl_addTodo.mpr (.inl waiting), rfl⟩)
      · exact .inr (.inr missing)

theorem countP_addTodo {done : List Path} {i : Entry} :
    (addTodo done todo i).countP (fun j => decide (j.2 ∈ done)) = todo.countP fun j => decide (j.2 ∈ done) := by
  unfold addTodo OrderedSet.insert
  split
  · rfl
  next unknown =>
    split
    · rfl
    · rw [place_perm.countP_eq, countP_cons_of_neg (by simpa using unknown)]

theorem countP_foldl_addTodo {done : List Path} :
    (libs.foldl (addTodo done) todo).countP (fun j => decide (j.2 ∈ done)) = todo.countP fun j =>
      decide (j.2 ∈ done) := by
  induction libs generalizing todo with
  | nil => rfl
  | cons i libs ih => rw [foldl_cons, ih, countP_addTodo]

theorem turn_lt {reached : Finset Path} (covers : ∀ p, Reaches (depsOf host) f p → p ∈ reached)
    (scanning : Scanning host f s)
    (next : s.todo = name :: todo) : distance reached (turn host name todo s) < distance reached s := by
  have here : name.2 ∈ reached := covers _ (scanning.reached name (next ▸ mem_cons_self))
  unfold distance
  rw [Prod.Lex.toLex_lt_toLex, Prod.Lex.toLex_lt_toLex, next]
  unfold turn
  cases found : libsOf host name.2 with
  | none =>
    by_cases known : name.2 ∈ s.done
    · exact .inr ⟨rfl, .inl (by rw [countP_cons_of_pos (by simpa using known)]; exact Nat.lt_succ_self _)⟩
    · exact .inr ⟨rfl, .inr ⟨by rw [countP_cons_of_neg (by simpa using known)], Nat.lt_succ_self _⟩⟩
  | some libs =>
    by_cases known : name.2 ∈ s.done
    · have same : insert before name.2 s.done = s.done := if_pos known
      rw [same, countP_foldl_addTodo, countP_cons_of_pos (by simpa using known)]
      exact .inr ⟨rfl, .inl (Nat.lt_succ_self _)⟩
    · refine .inl (Finset.card_lt_card (Finset.ssubset_iff_of_subset ?_ |>.mpr ⟨name.2, ?_, ?_⟩))
      · intro p inside
        obtain ⟨mem, new⟩ := Finset.mem_sdiff.mp inside
        refine Finset.mem_sdiff.mpr ⟨mem, fun old => new ?_⟩
        exact mem_toFinset.mpr (mem_insert.mpr (.inr (mem_toFinset.mp old)))
      · exact Finset.mem_sdiff.mpr ⟨here, fun old => known (mem_toFinset.mp old)⟩
      · exact fun inside => (Finset.mem_sdiff.mp inside).2 (mem_toFinset.mpr (mem_insert.mpr (.inl rfl)))

theorem scan_ends (reached : Finset Path) (covers : ∀ p, Reaches (depsOf host) f p → p ∈ reached) (s : Scan)
    (scanning : Scanning host f s) :
    ∃ n s', (∀ k, n ≤ k → scanLoop host k s = some s') ∧ Scanning host f s' ∧ s'.todo = [] := by
  cases next : s.todo with
  | nil =>
    refine ⟨1, s, fun k positive => ?_, scanning, next⟩
    obtain ⟨k, rfl⟩ := Nat.exists_eq_add_of_le' positive
    rw [scanLoop, next]
  | cons name todo =>
    have nearer := turn_lt covers scanning next
    obtain ⟨n, s', result, after, ended⟩ := scan_ends reached covers _ (scanning.turn next)
    refine ⟨n + 1, s', fun k enough => ?_, after, ended⟩
    obtain ⟨k, rfl⟩ := Nat.exists_eq_add_of_le' (Nat.le_of_add_left_le enough)
    have step : scanLoop host (k + 1) s = scanLoop host k (turn host name todo s) := by simp only [scanLoop, next]
    exact step.trans (result k (by omega))
termination_by distance reached s
decreasing_by exact nearer

theorem Scanning.initial (host : Host w) (short f : Path) : Scanning host f ⟨[(short, f)], [], []⟩ := by
  refine ⟨nofun, nodup_nil, fun p => .rfl, fun i mem => ?_, nofun, .inr (.inl ⟨_, mem_singleton_self _, rfl⟩)⟩
  rw [mem_singleton.mp mem]
  exact .refl

theorem Scanning.complete (scanning : Scanning host f s) (ended : s.todo = []) (reach : Reaches (depsOf host) f p) :
    p ∈ keys s.mapScanned ∨ libsOf host p = none := by
  induction reach with
  | refl =>
    rcases scanning.root with done | ⟨i, waiting, -⟩ | missing
    · exact .inl ((scanning.scanned f).mp done)
    · rw [ended] at waiting
      cases waiting
    · exact .inr missing
  | @tail q r _ needs ih =>
    obtain ⟨l, whole, mem⟩ := needs
    obtain ⟨libs, found, rfl⟩ := Option.map_eq_some_iff.mp whole
    obtain ⟨i, inside, rfl⟩ := mem_map.mp mem
    rcases ih with here | missing
    · rcases scanning.closed q ((scanning.scanned q).mpr here) libs found i inside with done | waiting | missing
      · exact .inl ((scanning.scanned _).mp done)
      · rw [ended] at waiting
        cases waiting
      · exact .inr missing
    · cases found.symm.trans missing

theorem find_mem {m : Scanned} {l : SharedLibrary} (there : m.find p = some l) : (p, l) ∈ m := by
  unfold Scanned.find at there
  induction m with
  | nil => cases there
  | cons x m ih =>
    obtain ⟨k, l'⟩ := x
    rw [lookup_cons] at there
    by_cases same : p = k
    · subst same
      rw [beq_self_eq_true] at there
      exact Option.some.inj there ▸ mem_cons_self
    · rw [beq_false_of_ne same] at there
      exact mem_cons_of_mem _ (ih there)

theorem Scanning.agree (scanning : Scanning host f s) (ended : s.todo = []) :
    Agree (depsOf host) (graph s.mapScanned) f := by
  intro p reach
  rcases scanning.complete ended reach with here | missing
  · obtain ⟨l, there⟩ := Option.isSome_iff_exists.mp (find_isSome_iff.mpr here)
    obtain ⟨-, found, -⟩ := scanning.sound _ (find_mem there)
    rw [graph_libs there, depsOf_eq found]
  · have absent : s.mapScanned.find p = none := by
      cases there : s.mapScanned.find p with
      | none => rfl
      | some l =>
        obtain ⟨-, found, -⟩ := scanning.sound _ (find_mem there)
        cases found.symm.trans missing
    rw [graph, absent, depsOf, missing]
    rfl

end Dce.ElfLdd
