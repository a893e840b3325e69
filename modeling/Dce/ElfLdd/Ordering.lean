import Dce.ElfLdd.Scanning

/- The list of what is loaded is complete and in order, or the failure is reported, unless the depths are sought of a
library that is missing. -/

namespace Dce.ElfLdd

open Dependencies List Option
open Relation (ReflTransGen TransGen)

variable {w : Nat} {host : Host w} {f p q short : Path} {s : Scan} {m : Scanned} {depth : Depths}
    {d : Dependency} {j k : Nat}

/-- Each library once that the file leads to, after all that it depends on. -/
structure InOrder (host : Host w) (f : Path) (deps : List Dependency) : Prop where
  once : ∀ p, Reaches (depsOf host) f p → (deps.map Dependency.found).count p = 1
  only : ∀ d ∈ deps, Reaches (depsOf host) f d.found
  after : deps.Pairwise fun d e => ¬ Needs (depsOf host) d.found e.found

/-- The list is in order where nothing is missing or needs itself; else there is a report. -/
structure Right (host : Host w) (f : Path) (out : Outcome) : Prop where
  present : out ≠ .crashed
  sorted : ¬ Sick (depsOf host) f → ∃ deps, out = .deps deps ∧ InOrder host f deps
  reported : Sick (depsOf host) f → out = .missing ∨ out = .loop

/-- `Loop` returns, and what it returns is right. -/
def Sorts (host : Host w) (short f : Path) : Prop :=
  ∃ n out, (∀ k, n ≤ k → loop host k short f = some out) ∧ Right host f out

section

theorem mem_tri : d ∈ tri m depth j ↔ ∃ x ∈ m, depth x.1 = some j ∧ d = ⟨x.2.m_sName, x.2.m_fullName⟩ := by
  unfold tri
  rw [List.mem_map]
  constructor
  · rintro ⟨x, mem, rfl⟩
    obtain ⟨inside, numbered⟩ := mem_filter.mp mem
    exact ⟨x, inside, of_decide_eq_true numbered, rfl⟩
  · rintro ⟨x, inside, numbered, rfl⟩
    exact ⟨x, mem_filter.mpr ⟨inside, decide_eq_true numbered⟩, rfl⟩

theorem le_foldl_max {l : List Nat} : j ≤ l.foldl max j ∧ ∀ i ∈ l, i ≤ l.foldl max j := by
  induction l generalizing j with
  | nil => exact ⟨le_refl j, nofun⟩
  | cons c l ih =>
    obtain ⟨start, rest⟩ := ih (j := max j c)
    refine ⟨(Nat.le_max_left j c).trans start, fun i mem => ?_⟩
    rcases mem_cons.mp mem with rfl | later
    · exact (Nat.le_max_right j i).trans start
    · exact rest i later

theorem le_maxi {x : Path × SharedLibrary} (mem : x ∈ m) (known : depth x.1 = some k) : k ≤ maxi m depth := by
  refine le_foldl_max.2 k (mem_map.mpr ⟨x, mem, ?_⟩)
  rw [known, getD_some]

variable (scanning : Scanning host f s) (agree : Agree (depsOf host) (graph s.mapScanned) f)
  (graded : Graded (graph s.mapScanned) depth)

section

include agree graded

/-- A library does not need one that has a number as great as its own. -/
theorem not_needs (reach : Reaches (depsOf host) f p) (here : depth p = some j) (there : depth q = some k)
    (le : j ≤ k) :
    ¬ Needs (depsOf host) p q := by
  rintro ⟨l, whole, mem⟩
  obtain ⟨l', whole', below⟩ := graded p j here
  obtain rfl := some.inj (whole'.symm.trans ((agree p reach).trans whole))
  obtain ⟨i, known, lt⟩ := below q mem
  cases there.symm.trans known
  exact absurd lt (not_lt.mpr le)

end

include scanning

theorem found_of_mem_tri (mem : d ∈ tri s.mapScanned depth j) : Reaches (depsOf host) f d.found ∧
    depth d.found = some j := by
  obtain ⟨x, inside, numbered, rfl⟩ := mem_tri.mp mem
  obtain ⟨reach, -, full⟩ := scanning.sound x inside
  rw [full]
  exact ⟨reach, numbered⟩

include agree graded

/-- The libraries of one depth are different and do not need each other, and those of a greater depth come later. -/
theorem pairwise_tri (n : Nat) :
    ((List.range n).flatMap (tri s.mapScanned depth)).Pairwise fun d e => d.found ≠ e.found ∧
    ¬ Needs (depsOf host) d.found e.found := by
  refine pairwise_flatMap.mpr ⟨fun j _ => ?_, pairwise_lt_range.imp fun {i j} lt d first e second => ?_⟩
  · refine pairwise_map.mpr ?_
    have distinct : s.mapScanned.Pairwise fun x y => x.1 ≠ y.1 := pairwise_map.mp scanning.distinct
    refine (pairwise_filter.mpr (distinct.imp_of_mem ?_))
    intro x y one other away numbered numbered'
    obtain ⟨reach, -, full⟩ := scanning.sound x one
    obtain ⟨-, -, full'⟩ := scanning.sound y other
    rw [full, full']
    exact ⟨away, not_needs agree graded reach (of_decide_eq_true numbered) (of_decide_eq_true numbered') (le_refl j)⟩
  · obtain ⟨reach, here⟩ := found_of_mem_tri scanning first
    obtain ⟨-, there⟩ := found_of_mem_tri scanning second
    refine ⟨fun same => ?_, not_needs agree graded reach here there lt.le⟩
    rw [same, there] at here
    exact absurd (some.inj here) lt.ne'

theorem inOrder (ended : s.todo = []) (healthy : ¬ Sick (depsOf host) f)
    (known : ∀ p, Reaches (depsOf host) f p → (depth p).isSome) :
    InOrder host f ((List.range (maxi s.mapScanned depth + 1)).flatMap (tri s.mapScanned depth)) := by
  have pairs := pairwise_tri scanning agree graded (maxi s.mapScanned depth + 1)
  refine ⟨fun p reach => ?_, fun d mem => ?_, pairs.imp fun both => both.2⟩
  · have distinct := pairwise_map.mpr (pairs.imp fun both => both.1)
    refine count_eq_one_of_mem distinct (mem_map.mpr ?_)
    have here : p ∈ keys s.mapScanned := by
      rcases scanning.complete ended reach with here | missing
      · exact here
      · refine absurd ⟨p, reach, .inl ?_⟩ healthy
        rw [Missing, depsOf, missing]
        rfl
    obtain ⟨x, inside, rfl⟩ := mem_map.mp here
    obtain ⟨k, numbered⟩ := isSome_iff_exists.mp (known x.1 reach)
    obtain ⟨-, -, full⟩ := scanning.sound x inside
    refine ⟨⟨x.2.m_sName, x.2.m_fullName⟩, mem_flatMap.mpr ⟨k, ?_, mem_tri.mpr ⟨x, inside, numbered, rfl⟩⟩, full⟩
    exact mem_range.mpr (Nat.lt_succ_of_le (le_maxi inside numbered))
  · obtain ⟨j, -, inside⟩ := mem_flatMap.mp mem
    exact (found_of_mem_tri scanning inside).1

end

section

theorem graded_none : Graded (graph m) fun _ => none := nofun

theorem room_nil : Room m (m.length + 1) [] p := ⟨nodup_nil, nofun, nofun, Nat.lt_succ_self _⟩

variable (scanning : Scanning host f s) (ended : s.todo = [])
include scanning ended

theorem sort_right (walks : ∀ p, TransGen (Follows (depsOf host)) f p → ¬ Missing (depsOf host) p) :
    Right host f (sort f s.mapScanned) := by
  have agree := scanning.agree ended
  have alike : graph s.mapScanned f = depsOf host f := agree f .refl
  unfold sort
  cases there : s.mapScanned.find f with
  | none =>
    have absent : Missing (depsOf host) f := by
      rw [Missing, ← alike, graph, there]
      rfl
    exact ⟨(by rintro ⟨⟩), fun healthy => absurd ⟨f, .refl, .inl absent⟩ healthy, fun _ => .inl rfl⟩
  | some l =>
    have present : ¬ Missing (graph s.mapScanned) f := by
      rw [Missing, graph_libs there]
      rintro ⟨⟩
    by_cases sick : Sick (depsOf host) f
    · have onward : ∀ r, ReflTransGen (Follows (graph s.mapScanned)) f r → ¬ Missing (graph s.mapScanned) r := by
        intro r walk
        have same := agree.follows_all.mp walk
        rcases Relation.reflTransGen_iff_eq_or_transGen.mp same with rfl | further
        · exact present
        · have reach := reaches_of_follows further.to_reflTransGen
          rw [Missing, agree r reach]
          exact walks r further
      obtain ⟨depth, gives_up⟩ :=
        calcDepth_gives_up (s.mapScanned.length + 1) graded_none (agree.sick_iff.mpr sick) onward
      rw [gives_up]
      exact ⟨(by rintro ⟨⟩), fun healthy => absurd sick healthy, fun _ => .inr rfl⟩
    · obtain ⟨b, depth, call, extends_, numbered, enough⟩ :=
        calcDepth_healthy (s.mapScanned.length + 1) graded_none (fun ill => sick (agree.sick_iff.mp ill))
      obtain rfl := enough ⟨[], room_nil⟩
      rw [call]
      refine ⟨(by rintro ⟨⟩), fun _ => ⟨_, rfl, inOrder scanning agree extends_.graded ended sick fun p reach => ?_⟩,
        fun ill => absurd ill sick⟩
      obtain ⟨n, here⟩ := isSome_iff_exists.mp (numbered rfl)
      obtain ⟨k, known, -⟩ := extends_.graded.reaches here (agree.reaches_iff.mpr reach)
      rw [known]
      rfl

theorem sort_crashes (walk : TransGen (Follows (depsOf host)) f p) (missing : Missing (depsOf host) p) :
    sort f s.mapScanned = .crashed := by
  have agree := scanning.agree ended
  have reach : Reaches (depsOf host) f p := reaches_of_follows walk.to_reflTransGen
  obtain ⟨n, steps⟩ := exists_walk (agree.follows_all.mpr walk.to_reflTransGen)
  have absent : Missing (graph s.mapScanned) p := (agree p reach).trans missing
  have crashes := calcDepth_crashes graded_none steps absent room_nil nofun
  obtain ⟨q, first, -⟩ := TransGen.head'_iff.mp walk
  obtain ⟨libs, whole, -⟩ := first.needs
  obtain ⟨l, there, -⟩ := map_eq_some_iff.mp ((agree f .refl).trans whole)
  unfold sort
  rw [there]
  rw [crashes]

end

/-- `Loop` of a file that leads to finitely many others. -/
theorem sorts_iff (finite : {p | Reaches (depsOf host) f p}.Finite) :
    Sorts host short f ↔ ∀ p, TransGen (Follows (depsOf host)) f p → ¬ Missing (depsOf host) p := by
  obtain ⟨n, s, result, scanning, ended⟩ :=
    scan_ends finite.toFinset (fun p reach => finite.mem_toFinset.mpr reach) _ (.initial host short f)
  have out : ∀ k, n ≤ k → loop host k short f = some (sort f s.mapScanned) := by
    intro k enough
    rw [loop, result k enough]
    rfl
  constructor
  · rintro ⟨n', out', returns, right⟩ p walk missing
    have same : some out' = some (sort f s.mapScanned) :=
      (returns _ (Nat.le_max_right n n')).symm.trans (out _ (Nat.le_max_left n n'))
    exact right.present ((some.inj same).trans (sort_crashes scanning ended walk missing))
  · exact fun walks => ⟨n, _, out, sort_right scanning ended walks⟩

def elf (needed : List Path) : ElfFile 64 :=
  ⟨some .ELFCLASS64, [], [(List.range needed.length).map fun i => ⟨.DT_NEEDED, BitVec.ofNat 64 i⟩], fun a =>
    needed.getD a.toNat []⟩

def program : Path := "/bin/ping".toList

def library : Path := "/lib64/libc.so".toList

/-- A program that needs one library, which needs others that are not there. -/
def installed (others : List Path) : Host 64 where
  LD_LIBRARY_PATH := none
  opendir p := p = "/lib64/".toList
  stat p := p = library
  file p := if p = program then some (elf ["libc.so".toList]) else if p = library then some (elf others) else none

theorem depsOf_program : depsOf (installed []) program = some [library] := by decide +kernel

theorem depsOf_library : depsOf (installed []) library = some [] := rfl

theorem depsOf_broken : depsOf (installed ["ld.so".toList]) program = some [library] := by decide +kernel

theorem depsOf_missing : depsOf (installed ["ld.so".toList]) library = none := rfl

/-- Only these two are reached. -/
theorem reached_installed {others : List Path} (first : depsOf (installed others) program = some [library])
    (second : ∀ p, ¬ Needs (depsOf (installed others)) library p) {p : Path}
    (reach : Reaches (depsOf (installed others)) program p) :
    p ∈ [program, library] := by
  induction reach with
  | refl => exact mem_cons_self
  | tail _ needs ih =>
    rcases mem_pair.mp ih with rfl | rfl
    · obtain ⟨l, whole, mem⟩ := needs
      cases whole.symm.trans first
      exact mem_cons_of_mem _ mem
    · exact absurd needs (second _)

theorem finite_installed {others : List Path} (first : depsOf (installed others) program = some [library])
    (second : ∀ p, ¬ Needs (depsOf (installed others)) library p) :
    {p | Reaches (depsOf (installed others)) program p}.Finite :=
  (finite_toSet [program, library]).subset fun _ reach => reached_installed first second reach

theorem library_needs_nothing (p : Path) : ¬ Needs (depsOf (installed [])) library p := by
  rintro ⟨l, whole, mem⟩
  cases whole.symm.trans depsOf_library
  cases mem

theorem broken_needs_nothing (p : Path) : ¬ Needs (depsOf (installed ["ld.so".toList])) library p := by
  rintro ⟨l, whole, -⟩
  cases whole.symm.trans depsOf_missing

theorem sorts_installed : Sorts (installed []) "ping".toList program := by
  refine (sorts_iff (finite_installed depsOf_program library_needs_nothing)).mpr fun p walk missing => ?_
  rcases mem_pair.mp (reached_installed depsOf_program library_needs_nothing
    (reaches_of_follows walk.to_reflTransGen)) with
    rfl | rfl
  · cases missing.symm.trans depsOf_program
  · cases missing.symm.trans depsOf_library

/-- The library is found, but one that it needs is not. -/
theorem not_sorts : ¬ ∀ (host : Host 64) (short f : Path), {p | Reaches (depsOf host) f p}.Finite →
    Sorts host short f := by
  intro all
  obtain ⟨n, out, returns, right⟩ := all _ "ping".toList _ (finite_installed depsOf_broken broken_needs_nothing)
  have crashes : loop (installed ["ld.so".toList]) (n + 4) "ping".toList program = some .crashed := rfl
  exact right.present (some.inj ((returns (n + 4) (Nat.le_add_right n 4)).symm.trans crashes))

end Dce.ElfLdd
