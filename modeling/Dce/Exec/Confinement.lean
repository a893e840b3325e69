import Dce.Exec.Canonical
import Mathlib.Data.List.TakeWhile

/- Which searches stay in the virtual root of the node. -/

namespace Dce.Exec

open SearchPath UnixPath List Option

/-- What should hold of a search: what the virtual root is asked for, and what is returned from there,
lies in it. -/
def Confined (here : Dir) (vroot : List Char) (l : Lookup) : Prop :=
  ∀ pp, (true, pp) ∈ l.examined ∨ l.found = some (true, pp) →
  resolve here (c_str (vroot ++ ['/'])) <:+ resolve here pp

/-- What `SeekFile` puts behind the virtual root. -/
def behind (p file cwd : List Char) : List Char :=
  if (c_str p).head? = some '/' then p ++ '/' :: file
  else if 0 < cwd.length ∧ 0 < p.length then cwd ++ '/' :: p ++ '/' :: file
  else if 0 < cwd.length then cwd ++ '/' :: file
  else file

/-- Behind the virtual root no `..` takes back more than was entered there, whichever path is tried. -/
def Descends (paths cwd file : List Char) : Prop :=
  ∀ i ∈ Split paths ':', ∀ p, CanonizePath i true = some p → Stays 0 (parts (c_str (behind p file cwd)))

/-- The path that is searched for a simple name. -/
def Environment.vpath (env : Environment) (vpath : List Char) : List Char :=
  if vpath.length = 0 then env.virtualPath
  else if 0 < env.virtualPath.length then vpath ++ ':' :: env.virtualPath
  else vpath

/-- An absolute name is put behind the root, a relative one behind the working directory, and a simple
one is searched along the path where there is one. -/
def ExecDescends (env : Environment) (file : List Char) : Option (List Char) → Prop
  | none => if (c_str file).head? = some '/' then Descends ['.'] [] file else Descends env.cwd [] file
  | some vpath =>
    if (c_str file).head? = some '/' then Descends ['.'] [] file
    else if '/' ∈ file then Descends env.cwd [] file
    else Descends (env.vpath vpath) env.cwd file

section

variable {s : SearchPath} {file cwd pp p : List Char} {checker : List Char → Bool} {l : List (List Char)} {v : Bool}

theorem candidate_eq (virt : s.m_virtual = true) (p file cwd : List Char) :
    s.candidate p file cwd = s.m_basePath ++ '/' :: behind p file cwd := by
  rw [candidate, behind]
  split
  next absolute =>
    have positive : 0 < p.length := by
      cases p with
      | nil => exact absurd absolute (by simp [c_str])
      | cons => exact Nat.succ_pos _
    rw [if_pos positive, append_assoc, cons_append]
  · split
    · simp only [append_assoc, cons_append]
    · split
      · rw [append_assoc, cons_append]
      · rfl

theorem mem_seek (h : (v, pp) ∈ (s.seek file cwd checker l).examined ∨
      (s.seek file cwd checker l).found = some (v, pp)) :
    v = s.m_virtual ∧ ∃ p ∈ l, CanonizePath (s.candidate p file cwd) false = some pp := by
  induction l with
  | nil => simp [seek] at h
  | cons q rest ih =>
    obtain ⟨canonical, hcanonical⟩ := CanonizePath_unprotected (s.candidate q file cwd)
    have hpositive : 0 < canonical.length := length_pos_iff.mpr (CanonizePath_ne_nil hcanonical)
    have here : (v, pp) = (s.m_virtual, canonical) →
        v = s.m_virtual ∧ ∃ p ∈ q :: rest, CanonizePath (s.candidate p file cwd) false = some pp := by
      intro heq
      obtain ⟨rfl, rfl⟩ := Prod.mk.inj heq
      exact ⟨rfl, q, mem_cons_self, hcanonical⟩
    rw [seek, hcanonical, getD_some] at h
    rw [if_pos hpositive] at h
    split at h
    · rcases h with examined | found
      · exact here (mem_singleton.mp examined)
      · exact here (some.inj found).symm
    · have later : (v, pp) ∈ (s.seek file cwd checker rest).examined ∨
        (s.seek file cwd checker rest).found = some (v, pp) →
          v = s.m_virtual ∧ ∃ p ∈ q :: rest, CanonizePath (s.candidate p file cwd) false = some pp := by
        intro h
        obtain ⟨hv, p, hp, hpp⟩ := ih h
        exact ⟨hv, p, mem_cons_of_mem _ hp, hpp⟩
      rcases h with examined | found
      · rcases mem_cons.mp examined with first | rest
        · exact here first
        · exact later (.inl rest)
      · exact later (.inr found)

theorem seek_all (hp : p ∈ l) (hpp : CanonizePath (s.candidate p file cwd) false = some pp) :
    (s.m_virtual, pp) ∈ (s.seek file cwd (fun _ => false) l).examined := by
  induction l with
  | nil => exact absurd hp not_mem_nil
  | cons q rest ih =>
    obtain ⟨canonical, hcanonical⟩ := CanonizePath_unprotected (s.candidate q file cwd)
    have hpositive : 0 < canonical.length := length_pos_iff.mpr (CanonizePath_ne_nil hcanonical)
    rw [seek, hcanonical, getD_some]
    rw [if_pos hpositive]
    rcases mem_cons.mp hp with rfl | hp
    · cases hcanonical.symm.trans hpp
      exact mem_cons_self
    · exact mem_cons_of_mem _ (ih hp)

theorem mem_paths {vroot paths : List Char} (rooted : vroot ≠ []) :
    p ∈ (new vroot paths true).m_paths ↔ ∃ i ∈ Split paths ':', CanonizePath i true = some p := by
  have hprot : decide (0 < vroot.length) = true := by simpa [length_pos_iff] using rooted
  rw [new]
  dsimp only
  rw [hprot, mem_filterMap]
  refine exists_congr fun i => and_congr_right fun _ => ?_
  rw [filter_eq_some_iff, decide_eq_true_eq, length_pos_iff]
  exact ⟨fun h => h.1, fun h => ⟨h, CanonizePath_ne_nil h⟩⟩

end

section

variable {a b : List Char}

theorem c_str_append_of_mem (hmem : Char.ofNat 0 ∈ a) : c_str (a ++ b) = c_str a := by
  rw [c_str, c_str, takeWhile_append, if_neg]
  intro hlength
  have hall := takeWhile_eq_self_iff.mp (List.takeWhile_prefix _ |>.eq_of_length hlength)
  cases hall _ hmem

theorem c_str_append (hmem : Char.ofNat 0 ∉ a) : c_str (a ++ b) = a ++ c_str b := by
  refine takeWhile_append_of_pos fun c hc => ?_
  rw [decide_eq_true_eq]
  rintro rfl
  exact hmem hc

theorem length_part_le {part : Part} (hmem : part ∈ parts a) : part.length ≤ a.length := by
  induction a generalizing part with
  | nil =>
    obtain rfl : part = [] := by simpa [parts] using hmem
    exact le_refl 0
  | cons c rest ih =>
    rw [parts, splitOn_cons_eq_if_modifyHead] at hmem
    split at hmem
    · rcases mem_cons.mp hmem with rfl | later
      · exact Nat.zero_le _
      · exact le_trans (ih later) (Nat.le_succ _)
    · cases hrest : rest.splitOn '/' with
      | nil => exact absurd hrest (splitOn_ne_nil _ _)
      | cons first others =>
        rw [hrest] at hmem
        rcases mem_cons.mp hmem with rfl | later
        · exact Nat.succ_le_succ (ih (by rw [parts, hrest]; exact mem_cons_self))
        · exact le_trans (ih (by rw [parts, hrest]; exact mem_cons_of_mem _ later)) (Nat.le_succ _)

end

section

variable {here : Dir} {vroot paths cwd file p pp : List Char} {checker : List Char → Bool}

theorem resolve_candidate (zero : Char.ofNat 0 ∉ vroot)
    (hpp : CanonizePath ((new vroot paths true).candidate p file cwd) false = some pp) :
    resolve here pp = walk (resolve here (c_str (vroot ++ ['/']))) (parts (c_str (behind p file cwd))) := by
  have hslash : c_str ('/' :: behind p file cwd) = '/' :: c_str (behind p file cwd) :=
    takeWhile_cons_of_pos (by decide)
  have hroot : c_str ['/'] = ['/'] := by decide
  rw [resolve_canonized here hpp, candidate_eq rfl]
  rw [new]
  rw [c_str_append zero, c_str_append zero, hslash, hroot, resolve_append]

theorem confined_of_descends (descends : Descends paths cwd file) :
    Confined here vroot ((new vroot paths true).SeekFile file cwd checker) := by
  intro pp h
  obtain ⟨-, p, hp, hpp⟩ := mem_seek h
  by_cases zero : Char.ofNat 0 ∈ vroot
  · -- nothing of what is put behind the root reaches the host
    have hsame : resolve here pp = resolve here (c_str (vroot ++ ['/'])) := by
      rw [resolve_canonized here hpp, candidate_eq rfl, c_str_append_of_mem zero]
      exact congrArg (resolve here) (c_str_append_of_mem zero)
    exact hsame ▸ suffix_rfl
  · rw [resolve_candidate zero hpp]
    by_cases rooted : vroot = []
    · have hroot : resolve here (c_str (vroot ++ ['/'])) = [] := by
        rw [rooted]
        rfl
      rw [hroot]
      exact nil_suffix
    · obtain ⟨i, hi, hcanonical⟩ := (mem_paths rooted).mp hp
      have stays : Stays ([] : Dir).length (parts (c_str (behind p file cwd))) := descends i hi p hcanonical
      exact stays.suffix

theorem descends_of_confined
    (confined : ∀ vroot here checker, Confined here vroot ((new vroot paths true).SeekFile file cwd checker)) :
    Descends paths cwd file := by
  intro i hi p hcanonical
  let tail := c_str (behind p file cwd)
  let root : Part := replicate (tail.length + 1) 'a'
  let vroot : List Char := '/' :: root
  have zero : Char.ofNat 0 ∉ vroot := by
    intro hmem
    rcases mem_cons.mp hmem with heq | hmem
    · exact absurd heq (by decide)
    · exact absurd (eq_of_mem_replicate hmem) (by decide)
  have inside : '/' ∉ root := fun hmem => absurd (eq_of_mem_replicate hmem) (by decide)
  have name : IsName root := by
    refine ⟨by simp [root], fun heq => ?_, fun heq => ?_, inside⟩
    · have hfirst : 'a' ∈ ['.'] := heq ▸ mem_replicate.mpr ⟨Nat.succ_ne_zero _, rfl⟩
      exact absurd hfirst (by decide)
    · have hfirst : 'a' ∈ ['.', '.'] := heq ▸ mem_replicate.mpr ⟨Nat.succ_ne_zero _, rfl⟩
      exact absurd hfirst (by decide)
  have unknown : root ∉ parts tail := by
    intro hmem
    have hlength := length_part_le hmem
    simp only [root, length_replicate] at hlength
    omega
  have hdir : resolve [] (c_str (vroot ++ ['/'])) = [root] := by
    have hparts : parts (vroot ++ ['/']) = [[], root, []] := by
      have hsplit : vroot ++ ['/'] = [] ++ '/' :: (root ++ '/' :: []) := rfl
      have hroot : parts root = [root] := splitOn_eq_singleton inside
      rw [hsplit, parts_append, parts_append, hroot]
      rfl
    rw [c_str_append zero]
    have hroot : c_str ['/'] = ['/'] := by decide
    rw [hroot, resolve, hparts]
    simp only [walk_cons, enter_name name, enter_same (.inl rfl)]
    simp
  obtain ⟨pp, hpp⟩ := CanonizePath_unprotected ((new vroot paths true).candidate p file cwd)
  have hp : p ∈ (new vroot paths true).m_paths := (mem_paths (by simp [vroot])).mpr ⟨i, hi, hcanonical⟩
  have hsuffix := confined vroot [] (fun _ => false) pp (.inl (seek_all hp hpp))
  rw [resolve_candidate zero hpp, hdir] at hsuffix
  have reached : root ∈ walk ([] ++ [root]) (parts tail) := hsuffix.subset (mem_singleton_self _)
  exact Stays.of_mem unknown reached

theorem seek_confined_iff :
    (∀ vroot here checker, Confined here vroot ((new vroot paths true).SeekFile file cwd checker)) ↔
      Descends paths cwd file :=
  ⟨descends_of_confined, fun descends _ _ _ => confined_of_descends descends⟩

theorem confined_orElse {first : Lookup} {altRoots cwd : List Char} :
    Confined here vroot (first.orElse ((new [] altRoots false).SeekFile file cwd checker)) ↔
    Confined here vroot first := by
  have real : ∀ pp, ¬ ((true, pp) ∈ ((new [] altRoots false).SeekFile file cwd checker).examined ∨
      ((new [] altRoots false).SeekFile file cwd checker).found = some (true, pp)) :=
    fun pp h => absurd (mem_seek h).1 (by simp [new])
  rw [Lookup.orElse]
  split
  · exact .rfl
  next absent =>
    have hnone : first.found = none := by simpa using absent
    refine forall_congr' fun pp => imp_congr_left ?_
    rw [mem_append, hnone]
    constructor
    · rintro ((examined | examined) | found)
      · exact .inl examined
      · exact absurd (.inl examined) (real pp)
      · exact absurd (.inr found) (real pp)
    · rintro (examined | found)
      · exact .inl (.inl examined)
      · cases found

theorem absolute_confined_iff {altRoots : List Char} :
    (∀ vroot here checker, Confined here vroot (SearchAbsoluteFile file vroot altRoots checker)) ↔ Descends
    ['.'] [] file := by
  simp only [SearchAbsoluteFile, confined_orElse]
  exact seek_confined_iff

theorem simple_confined_iff {vpath dcepath : List Char} :
    (∀ vroot here checker, Confined here vroot (SearchSimpleFile file vroot vpath cwd dcepath checker)) ↔
      Descends vpath cwd file := by
  simp only [SearchSimpleFile, confined_orElse]
  exact seek_confined_iff

theorem exec_confined_iff {env : Environment} {vpath : Option (List Char)} :
    (∀ vroot here checker, Confined here vroot (SearchExecFile { env with vroot := vroot } file vpath checker)) ↔
      ExecDescends env file vpath := by
  cases vpath with
  | none =>
    simp only [SearchExecFile, SearchFileWithoutPath, ExecDescends]
    split
    · exact absolute_confined_iff
    · exact seek_confined_iff
  | some vpath =>
    simp only [SearchExecFile, SearchFile, ExecDescends]
    split
    · exact absolute_confined_iff
    · split
      · exact seek_confined_iff
      · exact simple_confined_iff

end

/-- A search is confined to every virtual root, whatever files there are, exactly where it descends. -/
theorem confined_iff (paths cwd file : List Char) (env : Environment) (vpath : Option (List Char)) :
    ((∀ vroot here checker, Confined here vroot ((SearchPath.new vroot paths true).SeekFile file cwd checker)) ↔
      Descends paths cwd file) ∧
    ((∀ vroot here checker, Confined here vroot (SearchExecFile { env with vroot := vroot } file vpath checker)) ↔
      ExecDescends env file vpath) :=
  ⟨seek_confined_iff, exec_confined_iff⟩

/-- A process in `/` executes `../x`. -/
theorem relative_name_leaves : ¬ ∀ (env : Environment) (file : List Char) (vpath : Option (List Char)) (here : Dir)
    (checker : List Char → Bool), Confined here env.vroot (SearchExecFile env file vpath checker) := by
  intro h
  let env : Environment := ⟨['v'], ['/'], [], none, none⟩
  have hfound : (SearchExecFile env ['.', '.', '/', 'x'] none fun _ => true).found = some (true, ['x']) := by decide
  have hsuffix := h env ['.', '.', '/', 'x'] none [] (fun _ => true) ['x'] (.inr hfound)
  exact absurd hsuffix (by decide)

end Dce.Exec
