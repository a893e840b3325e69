import Dce.Lib.Circular
import Dce.Processes.Fork

/- The searches of `AllocatePid` and `AllocateTid` for a number that is not in use. -/

namespace Dce.Processes

open List Option

variable {β : Type} {s s' : DceManager β} {process : Process} {pid tid : Nat}

/-- A pid that may be given out: 0 and 1 are kept back. -/
def FreePid (s : DceManager β) (pid : Nat) : Prop := 1 < pid ∧ pid < 2 ^ 16 ∧ s.m_processes pid = none

def FreeTid (process : Process) (tid : Nat) : Prop := tid < 2 ^ 16 ∧ ∀ thread ∈ process.threads, thread.tid ≠ tid

/-- The search gives a free pid, and only if there is none it ends in the fatal error. -/
def PidComplete (s : DceManager β) : Prop := Circular.Complete (FreePid s) ((AllocatePid s).map Prod.fst)

def TidComplete (process : Process) : Prop := Circular.Complete (FreeTid process) (AllocateTid process)

/-- The pid that the search would come to last, and leaves out. -/
def beforeCursor (s : DceManager β) : Nat := (s.m_nextPid + 0xffff) % 2 ^ 16

theorem AllocatePid_none : AllocatePid s = none ↔ ∀ pid, FreePid s pid → pid = beforeCursor s := by
  have tried : ∀ pid, pid ∈ (range 0xffff).map (fun i => (s.m_nextPid + i) % 2 ^ 16) ↔
      pid < 2 ^ 16 ∧ pid ≠ beforeCursor s := by
    intro pid
    have steps : 2 ^ 16 - 1 = 0xffff := by decide
    have round := Circular.mem_candidates_pred (n := 2 ^ 16) (x := pid) (c := s.m_nextPid) (Nat.two_pow_pos 16)
    rwa [steps] at round
  rw [AllocatePid, bind_eq_bind, bind_eq_none_iff]
  constructor
  · rintro nothing pid ⟨least, bound, unused⟩
    by_contra other
    cases found : ((range 0xffff).map fun i => (s.m_nextPid + i) % 2 ^ 16).find?
        fun candidatePid : Nat => 1 < candidatePid ∧ (s.m_processes candidatePid).isNone with
    | some candidatePid => cases nothing candidatePid found
    | none =>
      have used := find?_eq_none.mp found pid ((tried pid).mpr ⟨bound, other⟩)
      simp [least, unused] at used
  · intro only candidatePid found
    have both := find?_some found
    have mem := (tried candidatePid).mp (mem_of_find?_eq_some found)
    simp only [decide_eq_true_eq, isNone_iff_eq_none] at both
    exact absurd (only candidatePid ⟨both.1, mem.1, both.2⟩) mem.2

theorem AllocateTid_none : AllocateTid process = none ↔ ∀ tid, FreeTid process tid → tid = 0xffff := by
  rw [AllocateTid, find?_eq_none]
  constructor
  · rintro nothing tid ⟨bound, unused⟩
    by_contra other
    have used := nothing tid (mem_range.mpr (by omega))
    simp at used
    obtain ⟨thread, mem, same⟩ := used
    exact unused thread mem same
  · intro only tid mem
    have bound := mem_range.mp mem
    simp only [List.all_eq_true, decide_eq_true_eq, not_forall]
    by_contra unused
    have last := only tid ⟨by omega, fun thread here same => unused ⟨thread, here, not_not.mpr same⟩⟩
    omega

theorem AllocateTid_some (found : AllocateTid process = some tid) : FreeTid process tid := by
  have bound := mem_range.mp (mem_of_find?_eq_some found)
  have unused := find?_some found
  exact ⟨by omega, by simpa using unused⟩

theorem pidComplete_iff_other : PidComplete s ↔ (∃ pid, FreePid s pid ∧ pid ≠ beforeCursor s) ∨
    ∀ pid, ¬ FreePid s pid := by
  refine Circular.complete_iff (by rw [map_eq_none_iff, AllocatePid_none]) fun pid found => ?_
  obtain ⟨⟨pid, t⟩, run, rfl⟩ := map_eq_some_iff.mp found
  obtain ⟨least, bound, unused, -⟩ := AllocatePid_some run
  exact ⟨least, bound, unused⟩

theorem tidComplete_iff_other : TidComplete process ↔ (∃ tid, FreeTid process tid ∧ tid ≠ 0xffff) ∨
    ∀ tid, ¬ FreeTid process tid :=
  Circular.complete_iff AllocateTid_none fun _ => AllocateTid_some

/-- For every set of pids in use, every cursor and all threads of a process: the two searches are complete exactly if
the number that each leaves out is not the only one that is free. -/
theorem complete_iff_notLast (s : DceManager β) (process : Process) : PidComplete s ∧ TidComplete process ↔
      ((∃ pid, FreePid s pid ∧ pid ≠ beforeCursor s) ∨ ∀ pid, ¬ FreePid s pid) ∧
      ((∃ tid, FreeTid process tid ∧ tid ≠ 0xffff) ∨ ∀ tid, ¬ FreeTid process tid) :=
  and_congr pidComplete_iff_other tidComplete_iff_other

/-- Every pid but 2 is in use, and the cursor is behind it. -/
def onlyTwo : DceManager Unit where
  m_processes pid := if pid = 2 then none else some Process.new
  m_nextPid := 3
  files := .start

/-- Pid 2 is free and the search ends in the fatal error. -/
theorem not_complete : FreePid onlyTwo 2 ∧ AllocatePid onlyTwo = none ∧ ¬ PidComplete onlyTwo := by
  have free : FreePid onlyTwo 2 := ⟨by decide, by decide, rfl⟩
  have cursor : beforeCursor onlyTwo = 2 := by decide
  have only : ∀ pid, FreePid onlyTwo pid → pid = beforeCursor onlyTwo := by
    intro pid ⟨_, _, unused⟩
    by_contra other
    rw [cursor] at other
    simp [onlyTwo, other] at unused
  have stuck : AllocatePid onlyTwo = none := by rwa [AllocatePid_none]
  refine ⟨free, stuck, ?_⟩
  rw [pidComplete_iff_other, not_or, not_exists]
  exact ⟨fun pid ⟨unused, other⟩ => other (only pid unused), fun nothing => nothing 2 free⟩

end Dce.Processes
