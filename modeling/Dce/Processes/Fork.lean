import Dce.Descriptors.Steps
import Dce.Processes.Model

/- What a child that `Clone` makes has of its parent. -/

namespace Dce.Processes

open Descriptors Function List Option

open Descriptors (File FileUsage)

/-- A new entry for the open file of another. -/
def inherited (fu : FileUsage) : FileUsage := ⟨fu.file, 0, 0, 0, false⟩

section

variable {β : Type} {s : Descriptors.System β} {pid child : Nat}

theorem share_fdCount (fd : Int) (f h : File) :
    ((share child fd f s).files h).fdCount = (s.files h).fdCount + if f = h then 1 else 0 := by
  rw [share, newFileUsage, ref, incFdCount]
  dsimp only [setUsage]
  by_cases hf : f = h
  · subst hf
    rw [update_self, update_self, update_self, if_pos rfl]
  · rw [update_other (Ne.symm hf), update_other (Ne.symm hf), update_other (Ne.symm hf), if_neg hf, add_zero]

theorem foldl_share {f : System β → Int → System β}
    (skips : ∀ t fd, t.openFiles.lookup (pid, fd) = none → f t fd = t)
    (shares : ∀ t fd fu, t.openFiles.lookup (pid, fd) = some fu → f t fd = share child fd fu.file t)
    (ne : pid ≠ child) {l : List Int} (nodup : l.Nodup) (t : System β) :
    (∀ fd, (l.foldl f t).openFiles.lookup (child, fd) =
      if fd ∈ l ∧ t.openFiles.lookup (pid, fd) ≠ none then (t.openFiles.lookup (pid, fd)).map inherited
      else t.openFiles.lookup (child, fd)) ∧
    ∀ h, ((l.foldl f t).files h).fdCount = (t.files h).fdCount +
      l.countP fun fd => (t.openFiles.lookup (pid, fd)).map FileUsage.file = some h := by
  induction l generalizing t with
  | nil => exact ⟨fun fd => (if_neg nofun).symm, fun h => by simp⟩
  | cons fd l ih =>
    obtain ⟨notMem, nodup⟩ := nodup_cons.mp nodup
    rw [foldl_cons]
    obtain ⟨hlookup, hcount⟩ := ih nodup (f t fd)
    cases look : t.openFiles.lookup (pid, fd) with
    | none =>
      rw [skips t fd look] at hlookup hcount ⊢
      refine ⟨fun x => (hlookup x).trans ?_, fun h => (hcount h).trans ?_⟩
      · have hiff : (x ∈ l ∧ t.openFiles.lookup (pid, x) ≠ none) ↔
            x ∈ fd :: l ∧ t.openFiles.lookup (pid, x) ≠ none := by
          refine and_congr_left fun hsome => ⟨mem_cons_of_mem fd, fun hx => ?_⟩
          rcases mem_cons.mp hx with rfl | hx
          · exact absurd look hsome
          · exact hx
        simp only [hiff]
      · rw [countP_cons, look]
        simp
    | some fu =>
      have hother : ∀ x, (f t fd).openFiles.lookup (pid, x) = t.openFiles.lookup (pid, x) := fun x => by
        rw [shares t fd fu look]
        exact share_lookup fun same => ne (congrArg Prod.fst same)
      simp only [hother] at hlookup hcount
      refine ⟨fun x => (hlookup x).trans ?_, fun h => (hcount h).trans ?_⟩
      · by_cases hx : x = fd
        · subst hx
          rw [if_neg fun hboth => notMem hboth.1, if_pos ⟨mem_cons_self, by simp [look]⟩,
            shares t x fu look, share_lookup_self, look]
          rfl
        · have hkeep : (f t fd).openFiles.lookup (child, x) = t.openFiles.lookup (child, x) := by
            rw [shares t fd fu look]
            exact share_lookup fun same => hx (congrArg Prod.snd same)
          simp [hkeep, hx]
      · rw [countP_cons, look, shares t fd fu look]
        rw [share_fdCount]
        by_cases hf : fu.file = h
        · simp only [map_some, hf, decide_true]
          push_cast
          omega
        · simp [hf]

theorem clone_descriptors (ne : pid ≠ child) (absent : ∀ fd, s.openFiles.lookup (child, fd) = none) :
    (∀ fd, (clone pid child s).openFiles.lookup (child, fd) = (s.openFiles.lookup (pid, fd)).map inherited) ∧
    ∀ h, ((clone pid child s).files h).fdCount = (s.files h).fdCount +
      (fdsOf pid s).countP fun fd => (s.openFiles.lookup (pid, fd)).map FileUsage.file = some h := by
  have shared : ∀ f : System β → Int → System β, (∀ t fd, t.openFiles.lookup (pid, fd) = none → f t fd = t) →
      (∀ t fd fu, t.openFiles.lookup (pid, fd) = some fu → f t fd = share child fd fu.file t) →
      (∀ fd, ((fdsOf pid s).foldl f s).openFiles.lookup (child, fd) = (s.openFiles.lookup (pid, fd)).map inherited) ∧
      ∀ h, (((fdsOf pid s).foldl f s).files h).fdCount = (s.files h).fdCount +
        (fdsOf pid s).countP fun fd => (s.openFiles.lookup (pid, fd)).map FileUsage.file = some h := by
    intro f skips shares
    obtain ⟨hlookup, hcount⟩ := foldl_share skips shares ne (nodup_fdsOf pid s) s
    refine ⟨fun fd => (hlookup fd).trans ?_, hcount⟩
    by_cases hfd : s.openFiles.lookup (pid, fd) = none
    · rw [if_neg fun hboth => hboth.2 hfd, hfd, absent fd, map_none]
    · rw [if_pos ⟨mem_fdsOf.mpr hfd, hfd⟩]
  refine shared _ (fun t fd look => ?_) fun t fd fu look => ?_
  · rw [look]
  · rw [look]

end

section

variable {β : Type} {s s' : DceManager β} {parent child : Nat} {p : Process}

/-- What should hold of a parent before the call and its child after it. -/
structure Inherits (parent child : Nat) (p c : Process) (s s' : DceManager β) : Prop where
  descriptors : ∀ fd, s'.files.openFiles.lookup (child, fd) = (Descriptors.findOpen parent fd s.files).map inherited
  fdCounts : ∀ f, (s'.files.files f).fdCount = (s.files.files f).fdCount +
    (Descriptors.fdsOf parent s.files).countP fun fd =>
      (Descriptors.findOpen parent fd s.files).map FileUsage.file = some f
  ids : c.ids = p.ids
  cwd : c.cwd = p.cwd
  uMask : c.uMask = p.uMask
  nodeId : c.nodeId = p.nodeId
  signalHandlers : c.signalHandlers = p.signalHandlers

/-- The parent has what a new process has, and closes no descriptor. -/
structure Plain (parent : Nat) (p : Process) (s : DceManager β) : Prop where
  ids : p.ids = ⟨0, 0, 0, 0, 0, 0⟩
  uMask : p.uMask = 0
  nodeId : p.nodeId = 0
  signalHandlers : p.signalHandlers = SetDefaultSigHandler []
  descriptors : ∀ fd fu, s.files.openFiles.lookup (parent, fd) = some fu → fu.closing = false

theorem AllocatePid_some {pid : Nat} (halloc : AllocatePid s = some (pid, s')) :
    1 < pid ∧ pid < 2 ^ 16 ∧ s.m_processes pid = none ∧ s'.m_processes = s.m_processes ∧ s'.files = s.files := by
  rw [AllocatePid, bind_eq_bind, bind_eq_some_iff] at halloc
  obtain ⟨candidatePid, hfind, heq⟩ := halloc
  obtain ⟨rfl, rfl⟩ := Prod.mk.inj (some.inj heq)
  have hboth := find?_some hfind
  obtain ⟨i, -, rfl⟩ := List.mem_map.mp (List.mem_of_find?_eq_some hfind)
  simp only [decide_eq_true_eq, isNone_iff_eq_none] at hboth
  exact ⟨hboth.1, Nat.mod_lt _ (Nat.two_pow_pos 16), hboth.2, rfl, rfl⟩

theorem CreateThread_some {process more : Process} (hcreate : CreateThread process = some more) :
    ∃ tid, (∀ thread ∈ process.threads, thread.tid ≠ tid) ∧
      more = { process with threads := process.threads ++ [⟨tid, ∅, none⟩] } := by
  rw [CreateThread, bind_eq_bind, bind_eq_some_iff] at hcreate
  obtain ⟨tid, hfind, heq⟩ := hcreate
  cases heq
  have hall := find?_some hfind
  exact ⟨tid, by simpa using hall, rfl⟩

theorem find_range {n : Nat} {f : Nat → Bool} (first : f 0 = true) : (List.range (n + 1)).find? f = some 0 := by
  rw [range_succ_eq_map, find?_cons, first]

theorem AllocatePid_next (hlower : 1 < s.m_nextPid) (hupper : s.m_nextPid < 2 ^ 16)
    (hnone : s.m_processes s.m_nextPid = none) :
    AllocatePid s = some (s.m_nextPid, { s with m_nextPid := (s.m_nextPid + 1) % 2 ^ 16 }) := by
  have hmod : (s.m_nextPid + 0) % 2 ^ 16 = s.m_nextPid := Nat.mod_eq_of_lt hupper
  rw [AllocatePid, find?_map, find_range]
  · rw [map_some, bind_eq_bind, hmod]
    rfl
  · simp only [comp_apply, hmod, hlower, hnone, isNone_none, and_self, decide_true]

theorem CreateThread_first {process : Process} (hempty : process.threads = []) :
    CreateThread process = some { process with threads := [⟨0, ∅, none⟩] } := by
  rw [CreateThread, AllocateTid, find_range]
  · rw [bind_eq_bind, hempty]
    rfl
  · rw [hempty]
    rfl

theorem Clone_some (hp : s.m_processes parent = some p) (hclone : Clone parent s = some (child, s')) :
    ∃ tid, 1 < child ∧ child < 2 ^ 16 ∧ s.m_processes child = none ∧
      (∀ fd, s.files.openFiles.lookup (child, fd) = none) ∧ s'.files = clone parent child s.files ∧
      s'.m_processes = update (update s.m_processes parent
        (some { p with children := insert child p.children })) child (some { Process.new with
          name := p.name
          ppid := p.pid
          pgid := p.pgid
          pid := child
          signalHandlers := SetDefaultSigHandler []
          nextMid := p.nextMid
          nextSid := p.nextSid
          nextCid := p.nextCid
          cwd := p.cwd
          loaded := true
          threads := [⟨tid, ∅, none⟩] }) := by
  obtain ⟨process, hprocess, hrest⟩ := bind_eq_some_iff.mp hclone
  cases hprocess.symm.trans hp
  obtain ⟨⟨pid, s₁⟩, halloc, hrest⟩ := bind_eq_some_iff.mp hrest
  obtain ⟨clone, hcreate, hrest⟩ := bind_eq_some_iff.mp hrest
  obtain ⟨hlower, hupper, hnone, hprocesses, hfiles⟩ := AllocatePid_some halloc
  obtain ⟨tid, -, rfl⟩ := CreateThread_some hcreate
  dsimp only at hrest
  split at hrest
  case isFalse => cases hrest
  case isTrue hempty =>
    obtain ⟨rfl, rfl⟩ := Prod.mk.inj (some.inj hrest)
    refine ⟨tid, hlower, hupper, hnone, fun fd => ?_, ?_, ?_⟩
    · rw [← hfiles, AList.lookup_eq_none]
      exact fun hmem => hempty _ (AList.mem_keys.mp hmem) rfl
    · dsimp only [DceManager.set]
      rw [hfiles]
    · dsimp only [DceManager.set]
      rw [hprocesses]
      rfl

theorem Clone_next (hp : s.m_processes parent = some p) (hlower : 1 < s.m_nextPid) (hupper : s.m_nextPid < 2 ^ 16)
    (hnone : s.m_processes s.m_nextPid = none) (fresh : ∀ key ∈ s.files.openFiles.keys, key.1 ≠ s.m_nextPid) :
    Clone parent s = some (s.m_nextPid, {
      m_processes := update (update s.m_processes parent (some { p with children := insert s.m_nextPid p.children }))
        s.m_nextPid (some { Process.new with
          name := p.name
          ppid := p.pid
          pgid := p.pgid
          pid := s.m_nextPid
          signalHandlers := SetDefaultSigHandler []
          nextMid := p.nextMid
          nextSid := p.nextSid
          nextCid := p.nextCid
          cwd := p.cwd
          loaded := true
          threads := [⟨0, ∅, none⟩] })
      m_nextPid := (s.m_nextPid + 1) % 2 ^ 16
      files := clone parent s.m_nextPid s.files }) := by
  rw [Clone, hp, bind_eq_bind, bind_some, AllocatePid_next hlower hupper hnone, bind_eq_bind, bind_some]
  dsimp only
  rw [CreateThread_first rfl, bind_some]
  exact if_pos fresh

/-- A child inherits exactly from a parent that has what a new process has. -/
theorem inherits_iff (hp : s.m_processes parent = some p) (hclone : Clone parent s = some (child, s')) :
    ∃ c, s'.m_processes child = some c ∧ (Inherits parent child p c s s' ↔ Plain parent p s) := by
  obtain ⟨tid, -, -, hnone, habsent, hfiles, hprocesses⟩ := Clone_some hp hclone
  have hdiffer : parent ≠ child := by
    rintro rfl
    cases hnone.symm.trans hp
  obtain ⟨hlookup, hcount⟩ := clone_descriptors (s := s.files) hdiffer habsent
  refine ⟨_, by rw [hprocesses]; exact update_self .., fun inherits => ?_, fun plain => ?_⟩
  · refine ⟨inherits.ids.symm, inherits.uMask.symm, inherits.nodeId.symm, inherits.signalHandlers.symm,
      fun fd fu look => ?_⟩
    have hsame := inherits.descriptors fd
    rw [hfiles, hlookup fd, Descriptors.findOpen, look] at hsame
    cases hclosing : fu.closing with
    | false => rfl
    | true => simp [hclosing] at hsame
  · have hopen : ∀ fd, Descriptors.findOpen parent fd s.files = s.files.openFiles.lookup (parent, fd) := by
      intro fd
      rw [Descriptors.findOpen]
      cases look : s.files.openFiles.lookup (parent, fd) with
      | none => rfl
      | some fu => simp [plain.descriptors fd fu look]
    exact {
      descriptors := fun fd => by rw [hfiles, hlookup fd, hopen fd]
      fdCounts := fun f => by simp only [hfiles, hcount f, hopen]
      ids := plain.ids.symm
      cwd := rfl
      uMask := plain.uMask.symm
      nodeId := plain.nodeId.symm
      signalHandlers := plain.signalHandlers.symm }

end

/-- The process that `Start` makes first. -/
def firstProcess : Process := { Process.new with
  pid := 2
  name := "first"
  cwd := "/"
  signalHandlers := SetDefaultSigHandler []
  nextMid := 3
  nextSid := 3
  nextCid := 3
  uMask := 0o22
  threads := [⟨0, ∅, none⟩]
  loaded := true }

def oneProcess : DceManager Bool := ⟨update (fun _ => none) 2 (some firstProcess), 3, .start⟩

theorem reach_oneProcess : (machine Bool).Reach oneProcess := by
  let empty : DceManager Bool := ⟨fun _ => none, 2, .start⟩
  have reach : (machine Bool).Reach empty := .start rfl
  have hpid : AllocatePid empty = some (2, { empty with m_nextPid := 3 }) :=
    AllocatePid_next (by decide) (by decide) rfl
  have hthread : CreateThread { firstProcess with threads := [] } = some firstProcess := CreateThread_first rfl
  have hstart : Start "first" 0 0 0 0 0 empty = some (2, oneProcess) := by
    rw [Start, hpid, bind_eq_bind, bind_some]
    exact (congrArg (bind · _) hthread).trans rfl
  have hrespond : respond empty (.start "first" 0 0 0 0 0) = some (done oneProcess) := by
    rw [respond, hstart, map_some]
  exact .next (a := .start "first" 0 0 0 0 0) reach trivial (step_of_respond hrespond)

/-- The first process when it has forked, and its child. -/
def parentProcess : Process := { firstProcess with children := insert 3 ∅ }

def childProcess : Process := { Process.new with
  name := "first"
  ppid := 2
  pid := 3
  signalHandlers := SetDefaultSigHandler []
  nextMid := 3
  nextSid := 3
  nextCid := 3
  cwd := "/"
  loaded := true
  threads := [⟨0, ∅, none⟩] }

def forked : DceManager Bool :=
  ⟨update (update oneProcess.m_processes 2 (some parentProcess)) 3 (some childProcess), 4, clone 2 3 .start⟩

theorem clone_oneProcess : Clone 2 oneProcess = some (3, forked) :=
  Clone_next (s := oneProcess) rfl (by decide) (by decide) rfl nofun

theorem reach_forked : (machine Bool).Reach forked := by
  have hrespond : respond oneProcess (.fork 2 0) = some (done forked) := by
    rw [respond, if_pos ⟨_, rfl, rfl⟩, clone_oneProcess, map_some]
  exact .next (a := .fork 2 0) reach_oneProcess trivial (step_of_respond hrespond)

/-- It has an open file and no umask. -/
def servingProcess : Process := { firstProcess with uMask := 0 }

def serving : DceManager Bool := ⟨update (fun _ => none) 2 (some servingProcess), 3, install 2 0 .start⟩

theorem inherits_iff_first : ∃ s c, s.m_processes 3 = some c ∧ Inherits 2 3 servingProcess c serving s ∧
    s.files.openFiles.lookup (3, 0) = some ⟨.unixFd 0, 0, 0, 0, false⟩ := by
  have there : serving.m_processes 2 = some servingProcess := rfl
  have hclone := Clone_next there (by decide) (by decide) rfl (by decide)
  obtain ⟨c, hc, hiff⟩ := inherits_iff (s := serving) rfl hclone
  refine ⟨_, c, hc, hiff.mpr ⟨rfl, rfl, rfl, rfl, fun fd fu look => ?_⟩, rfl⟩
  have entries : serving.files.openFiles = (∅ : Table (Nat × Int) FileUsage).insert (2, 0) ⟨.unixFd 0, 0, 0,
    0, false⟩ := rfl
  rw [entries] at look
  by_cases first : ((2, fd) : Nat × Int) = (2, 0)
  · rw [first, AList.lookup_insert] at look
    cases look
    rfl
  · rw [AList.lookup_insert_ne first] at look
    cases look

/-- A process as `Start` makes it forks. -/
theorem started_loses_umask : ¬ ∀ (s : DceManager Bool) parent p child s', (machine Bool).Reach s →
    s.m_processes parent = some p → Clone parent s = some (child, s') →
    ∃ c, s'.m_processes child = some c ∧ Inherits parent child p c s s' := by
  intro h
  obtain ⟨c, hc, inherits⟩ := h oneProcess 2 firstProcess 3 forked reach_oneProcess rfl clone_oneProcess
  have hchild : forked.m_processes 3 = some childProcess := rfl
  cases hc.symm.trans hchild
  have hmask : 0 = 0o22 := inherits.uMask
  exact absurd hmask (by decide)

end Dce.Processes
