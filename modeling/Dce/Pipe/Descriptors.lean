import Dce.Pipe.Steps
import Mathlib.Data.List.Nodup

/- The descriptors of a process and the ends of its pipe. -/

namespace Dce.Pipe

open Coroutine Function List

variable {T β : Type*} {p q : Process T β} {fu : FileUsage T} {t u : T} {fd : Nat} {e : End}

/-- `GetFdCount` counts the descriptors of an end, which lives as long as it has one. -/
structure Counted (p : Process T β) : Prop where
  nodup : (p.openFiles.map FileUsage.fd).Nodup
  count : ∀ e, (p.ends e).fdCount = p.openFiles.countP fun fu => fu.file = e
  alive : ∀ e, (p.ends e).alive = true ↔ 0 < (p.ends e).fdCount

def Linked (p : Process T β) : Prop := (p.ends .read).peer = true

/-- The ends of a pipe are linked both ways or not at all, and while they are linked each
of them has a descriptor that is not closing. -/
structure Files (p : Process T β) : Prop extends Counted p where
  symm : (p.ends .read).peer = (p.ends .write).peer
  opened : Linked p → ∀ e, ∃ fu ∈ p.openFiles, fu.file = e ∧ fu.closing = false
  safe : p.fault = false

/-- `u` is a user of `fd`, a descriptor of the end `e`. -/
def Uses (p : Process T β) (u : T) (fd : Nat) (e : End) : Prop :=
  ∃ fu ∈ p.openFiles, fu.fd = fd ∧ fu.file = e ∧ u ∈ fu.users

theorem Counted.unique (counted : Counted p) {other : FileUsage T} (mem : fu ∈ p.openFiles)
    (also : other ∈ p.openFiles) (same : other.fd = fu.fd) : other = fu :=
  inj_on_of_nodup_map counted.nodup also mem same

theorem Counted.alive_of_mem (counted : Counted p) (mem : fu ∈ p.openFiles) : (p.ends fu.file).alive = true := by
  rw [counted.alive, counted.count, countP_pos_iff]
  exact ⟨fu, mem, by simp⟩

theorem Uses.alive (counted : Counted p) (uses : Uses p u fd e) : (p.ends e).alive = true := by
  obtain ⟨fu, mem, -, rfl, -⟩ := uses
  exact counted.alive_of_mem mem

theorem Files.linked_iff (files : Files p) (e : End) : (p.ends e).peer = true ↔ Linked p := by
  cases e with
  | read => rfl
  | write => rw [Linked, files.symm]

theorem Files.alive_of_linked (files : Files p) (linked : Linked p) (e : End) : (p.ends e).alive = true := by
  obtain ⟨fu, mem, rfl, -⟩ := files.opened linked e
  exact files.alive_of_mem mem

theorem Files.of_same (files : Files p) (ends : q.ends = p.ends) (opened : q.openFiles = p.openFiles)
    (fault : q.fault = p.fault) : Files q where
  nodup := by rw [opened]; exact files.nodup
  count := by rw [ends, opened]; exact files.count
  alive := by rw [ends]; exact files.alive
  symm := by rw [ends]; exact files.symm
  opened := by rw [Linked, ends, opened]; exact files.opened
  safe := by rw [fault]; exact files.safe

theorem countP_drop {files : List (FileUsage T)} (nodup : (files.map FileUsage.fd).Nodup)
    (mem : ∃ old ∈ files, old.fd = fu.fd ∧ old.file = fu.file) (e : End) :
    (files.filter fun other => other.fd ≠ fu.fd).countP (fun other => other.file = e) =
      (files.countP fun other => other.file = e) - if fu.file = e then 1 else 0 := by
  induction files with
  | nil => simp at mem
  | cons first rest ih =>
    rw [map_cons, nodup_cons] at nodup
    obtain ⟨absent, nodup⟩ := nodup
    by_cases here : first.fd = fu.fd
    · have kept : (rest.filter fun other => other.fd ≠ fu.fd) = rest :=
        filter_eq_self.mpr fun other inside => by
          simpa using fun same => absent (mem_map.mpr ⟨other, inside, same.trans here.symm⟩)
      have file : first.file = fu.file := by
        obtain ⟨old, inside, same, file⟩ := mem
        rcases mem_cons.mp inside with rfl | inside
        · exact file
        · exact absurd (mem_map.mpr ⟨old, inside, same.trans here.symm⟩) absent
      rw [filter_cons_of_neg (by simpa using here), kept, countP_cons, file]
      by_cases same : fu.file = e
      · simp [same]
      · simp [same]
    · have inside : ∃ old ∈ rest, old.fd = fu.fd ∧ old.file = fu.file := by
        obtain ⟨old, inside, same, file⟩ := mem
        rcases mem_cons.mp inside with rfl | inside
        · exact absurd same here
        · exact ⟨old, inside, same, file⟩
      have smaller := ih nodup inside
      have positive : fu.file = e → 0 < rest.countP fun other => other.file = e := fun same => by
        obtain ⟨old, inside, -, file⟩ := inside
        exact countP_pos_iff.mpr ⟨old, inside, by simpa using file.trans same⟩
      rw [filter_cons_of_pos (by simpa using here), countP_cons, countP_cons, smaller]
      by_cases same : fu.file = e
      · have := positive same
        simp only [same, if_true]
        omega
      · simp [same]

variable {f : FileUsage T → FileUsage T} {changed : Nat}

theorem Counted.mapFd (counted : Counted p) (keeps : ∀ fu ∈ p.openFiles, fu.fd = fd →
      (f fu).fd = fu.fd ∧ (f fu).file = fu.file) :
    Counted (mapFd fd f p) where
  nodup := by
    have same : (p.openFiles.map fun fu => if fu.fd = fd then f fu else fu).map FileUsage.fd =
        p.openFiles.map FileUsage.fd := by
      rw [map_map]
      refine map_congr_left fun fu mem => ?_
      simp only [comp]
      split
      next here => exact (keeps fu mem here).1
      next => rfl
    exact (congrArg Nodup same).mpr counted.nodup
  count e := by
    refine (counted.count e).trans ?_
    simp only [Pipe.mapFd, countP_map]
    refine countP_congr fun fu mem => ?_
    simp only [comp]
    split
    next here => rw [(keeps fu mem here).2]
    next => rfl
  alive := counted.alive

theorem Counted.dropFile (counted : Counted p)
    (mem : ∃ old ∈ p.openFiles, old.fd = fu.fd ∧ old.file = fu.file) : Counted (dropFile fu p) where
  nodup := (counted.nodup.sublist ((filter_sublist).map _))
  count e := by
    have drop := countP_drop counted.nodup mem e
    have before := counted.count e
    by_cases same : fu.file = e
    · subst same
      simp only [Pipe.dropFile, setEnd, update_self]
      rw [drop, before, if_pos rfl]
    · simp only [Pipe.dropFile, setEnd, update_of_ne (Ne.symm same)]
      rw [drop, before, if_neg same, Nat.sub_zero]
  alive e := by
    by_cases same : e = fu.file
    · subst same
      simp only [Pipe.dropFile, setEnd, update_self, decide_eq_true_eq]
      omega
    · simpa [Pipe.dropFile, setEnd, same] using counted.alive e

theorem Files.dropFile (files : Files p) (mem : ∃ old ∈ p.openFiles, old.fd = fu.fd ∧ old.file = fu.file)
    (still : Linked p → ∃ other ∈ p.openFiles, other.fd ≠ fu.fd ∧ other.file = fu.file ∧
      other.closing = false) : Files (dropFile fu p) where
  toCounted := files.toCounted.dropFile mem
  symm := by simpa using files.symm
  opened linked e := by
    have before : Linked p := by simpa [Linked] using linked
    have kept : ∃ other ∈ p.openFiles, other.fd ≠ fu.fd ∧ other.file = e ∧ other.closing = false := by
      by_cases same : e = fu.file
      · rw [same]
        exact still before
      · obtain ⟨other, inside, file, stays⟩ := files.opened before e
        refine ⟨other, inside, fun fds => same ?_, file, stays⟩
        obtain ⟨old, also, fds', file'⟩ := mem
        rw [← file, files.unique also inside (fds.trans fds'.symm), file']
    obtain ⟨other, inside, away, file, stays⟩ := kept
    exact ⟨other, mem_filter.mpr ⟨inside, by simpa using away⟩, file, stays⟩
  safe := files.safe

theorem Uses.dropFile (uses : Uses p u fd e) (away : fd ≠ fu.fd) : Uses (dropFile fu p) u fd e := by
  obtain ⟨other, inside, rfl, file, user⟩ := uses
  exact ⟨other, mem_filter.mpr ⟨inside, by simpa using away⟩, rfl, file, user⟩

theorem Files.mapFd (files : Files p) (keeps : ∀ fu ∈ p.openFiles, fu.fd = fd →
      (f fu).fd = fu.fd ∧ (f fu).file = fu.file)
    (still : Linked p → ∀ fu ∈ p.openFiles, fu.fd = fd → fu.closing = false → (f fu).closing = false ∨
      ∃ other ∈ p.openFiles, other.fd ≠ fd ∧ other.file = fu.file ∧ other.closing = false) :
    Files (mapFd fd f p) where
  toCounted := files.toCounted.mapFd keeps
  symm := files.symm
  opened linked e := by
    have outside : ∀ other ∈ p.openFiles, other.fd ≠ fd → other ∈ (Pipe.mapFd fd f p).openFiles :=
      fun other inside away => mem_map.mpr ⟨other, inside, if_neg away⟩
    obtain ⟨fu, inside, here, stays⟩ := files.opened linked e
    by_cases same : fu.fd = fd
    · rcases still linked fu inside same stays with kept | ⟨other, inside', away, file', stays'⟩
      · exact ⟨f fu, mem_map.mpr ⟨fu, inside, if_pos same⟩, (keeps fu inside same).2.trans here, kept⟩
      · exact ⟨other, outside other inside' away, file'.trans here, stays'⟩
    · exact ⟨fu, outside fu inside same, here, stays⟩
  safe := files.safe

theorem Uses.mapFd (uses : Uses p u fd e) (keeps : ∀ fu ∈ p.openFiles, fu.fd = changed → u ∈ fu.users →
      (f fu).fd = fu.fd ∧ (f fu).file = fu.file ∧ u ∈ (f fu).users) :
    Uses (mapFd changed f p) u fd e := by
  obtain ⟨fu, inside, rfl, rfl, user⟩ := uses
  by_cases same : fu.fd = changed
  · exact ⟨f fu, mem_map.mpr ⟨fu, inside, if_pos same⟩, keeps fu inside same user⟩
  · exact ⟨fu, mem_map.mpr ⟨fu, inside, if_neg same⟩, rfl, rfl, user⟩

theorem Files.setEnd (files : Files p) (e : End) {pipe : PipeFd}
    (alive : pipe.alive = (p.ends e).alive) (peer : pipe.peer = (p.ends e).peer)
    (count : pipe.fdCount = (p.ends e).fdCount) : Files (setEnd e pipe p) := by
  have peers : ∀ other, ((Pipe.setEnd e pipe p).ends other).peer = (p.ends other).peer := by
    intro other
    by_cases same : other = e
    · subst same; simpa [Pipe.setEnd] using peer
    · simp [Pipe.setEnd, same]
  refine ⟨⟨files.nodup, fun other => ?_, fun other => ?_⟩, by rw [peers, peers]; exact files.symm,
    fun linked => files.opened ((peers .read).symm.trans linked), files.safe⟩
  · by_cases same : other = e
    · subst same; simpa [Pipe.setEnd, count] using files.count other
    · simpa [Pipe.setEnd, same] using files.count other
  · by_cases same : other = e
    · subst same; simpa [Pipe.setEnd, alive, count] using files.alive other
    · simpa [Pipe.setEnd, same] using files.alive other

theorem Files.dup (files : Files p) {new : Nat} (free : ∀ fu ∈ p.openFiles, fu.fd ≠ new) (e : End)
    (old : (p.ends e).alive = true) :
    Files (Pipe.setEnd e { p.ends e with fdCount := (p.ends e).fdCount + 1 }
      { p with openFiles := p.openFiles ++ [⟨new, e, [], false⟩] }) := by
  have peers : ∀ other, ((Pipe.setEnd e { p.ends e with fdCount := (p.ends e).fdCount + 1 }
      { p with openFiles := p.openFiles ++ [⟨new, e, [], false⟩] }).ends other).peer =
      (p.ends other).peer := by
    intro other
    by_cases same : other = e
    · subst same; simp [Pipe.setEnd]
    · simp [Pipe.setEnd, same]
  refine ⟨⟨?_, fun other => ?_, fun other => ?_⟩, by rw [peers, peers]; exact files.symm, fun linked other =>
    ?_, files.safe⟩
  · simp only [Pipe.setEnd, map_append]
    refine Nodup.append files.nodup (nodup_singleton new) fun fd old last => ?_
    obtain ⟨fu, inside, rfl⟩ := mem_map.mp old
    exact free fu inside (mem_singleton.mp last)
  · by_cases same : other = e
    · subst same; simp [Pipe.setEnd, files.count]
    · simp [Pipe.setEnd, same, Ne.symm same, files.count other]
  · by_cases same : other = e
    · subst same
      simp [Pipe.setEnd, old]
    · simpa [Pipe.setEnd, same] using files.alive other
  · obtain ⟨fu, inside, file, stays⟩ := files.opened ((peers .read).symm.trans linked) other
    exact ⟨fu, mem_append_left _ inside, file, stays⟩

variable [DecidableEq T]

theorem Files.decUsage (files : Files p) : Files (decUsage t fd p) := by
  unfold Pipe.decUsage
  split
  · exact files
  next fu found =>
    obtain ⟨mem, rfl⟩ := findFd_mem found
    dsimp only
    split
    next last =>
      refine files.dropFile ⟨fu, mem, rfl, rfl⟩ fun linked => ?_
      obtain ⟨other, inside, file, stays⟩ := files.opened linked fu.file
      refine ⟨other, inside, fun same => ?_, file, stays⟩
      rw [files.unique mem inside same] at stays
      simp [stays] at last
    next =>
      refine files.mapFd (fun old inside same => ?_) fun _ old inside same stays => .inl ?_
      · rw [files.unique mem inside same]
        exact ⟨rfl, rfl⟩
      · rw [files.unique mem inside same] at stays
        exact stays

theorem Uses.decUsage (uses : Uses p u fd e) (counted : Counted p) (other : u ≠ t) :
    Uses (decUsage t changed p) u fd e := by
  unfold Pipe.decUsage
  split
  · exact uses
  next fu found =>
    obtain ⟨mem, rfl⟩ := findFd_mem found
    dsimp only
    split
    next last =>
      refine uses.dropFile fun same => ?_
      obtain ⟨old, inside, same', -, user⟩ := uses
      rw [counted.unique mem inside (same'.trans same), ← mem_erase_of_ne other, last.1] at user
      cases user
    next =>
      refine uses.mapFd fun old inside same user => ?_
      cases counted.unique mem inside same
      exact ⟨rfl, rfl, (mem_erase_of_ne other).mpr user⟩

end Dce.Pipe
