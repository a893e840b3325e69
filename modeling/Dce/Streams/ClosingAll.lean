import Dce.Streams.Model
import Mathlib.Data.List.Chain

/- `dce_fcloseall` counts up while the list gets shorter, and so passes over what follows each stream that it
closes. -/

namespace Dce.Streams

open Function List

open Descriptors (Errno)

section

variable (std : Nat → Prop) [DecidablePred std]

/-- What is closed of a list, and what is kept. -/
def skipping : List Nat → List Nat × List Nat
  | [] => ([], [])
  | [f] => if std f then ([], [f]) else ([f], [])
  | f :: g :: l =>
    if std f then ((skipping (g :: l)).1, f :: (skipping (g :: l)).2) else (f :: (skipping l).1, g :: (skipping l).2)

variable {std} {l : List Nat} {f : Nat}

theorem skipping_perm : ((skipping std l).1 ++ (skipping std l).2).Perm l := by
  fun_induction skipping std l with
  | case1 => exact .refl _
  | case2 f _ => exact .refl _
  | case3 f _ => exact .refl _
  | case4 f g l _ ih => exact perm_middle.trans (ih.cons f)
  | case5 f g l _ ih => exact ((perm_middle.trans (ih.cons g)).cons f)

theorem not_std_of_skipping (mem : f ∈ (skipping std l).1) : ¬ std f := by
  fun_induction skipping std l with
  | case1 => cases mem
  | case2 _ _ => cases mem
  | case3 g other => exact mem_singleton.mp mem ▸ other
  | case4 g h l _ ih => exact ih mem
  | case5 g h l other ih =>
    rcases mem_cons.mp mem with rfl | later
    · exact other
    · exact ih later

/-- Only standard streams are kept exactly where no two others follow each other. -/
theorem skipping_iff : (∀ f ∈ (skipping std l).2, std f) ↔ l.IsChain fun f g => std f ∨ std g := by
  fun_induction skipping std l with
  | case1 => exact ⟨fun _ => .nil, fun _ => nofun⟩
  | case2 f standard => exact ⟨fun _ => .singleton f, fun _ g mem => mem_singleton.mp mem ▸ standard⟩
  | case3 f _ => exact ⟨fun _ => .singleton f, fun _ => nofun⟩
  | case4 f g l standard ih =>
    rw [forall_mem_cons, ih, isChain_cons_cons]
    exact ⟨fun both => ⟨.inl standard, both.2⟩, fun both => ⟨standard, both.2⟩⟩
  | case5 f g l other ih =>
    rw [forall_mem_cons, ih, isChain_cons_cons, or_iff_right other]
    refine and_congr_right fun standard => ?_
    rw [isChain_cons]
    exact ⟨fun rest => ⟨fun _ _ => .inl standard, rest⟩, fun both => both.2⟩

end

section

variable {T β : Type*} {pid f : Nat} {w : World T β} {std : Option (Option Nat × Option Nat × Option Nat)}
    {kept rest : List Nat}

theorem std_iff (same : (w.processes pid).std = std) : (w.processes pid).Std f ↔ (Process.mk [] std).Std f := by
  subst same
  exact .rfl

theorem processes_hostFclose (pid f : Nat) (file : FILE) (status : Int → Option Errno) (w : World T β) :
    (hostFclose pid f file status w).processes = w.processes := by
  unfold hostFclose vtableClose
  split <;> rfl

theorem files_hostFclose (pid f : Nat) (file : FILE) (status : Int → Option Errno) (w : World T β) :
    (hostFclose pid f file status w).files = update w.files f none := by
  unfold hostFclose vtableClose
  split <;> rfl

theorem getElem_here (here : (w.processes pid).openStreams = kept ++ f :: rest) :
    ∃ inside : kept.length < (w.processes pid).openStreams.length,
    (w.processes pid).openStreams[kept.length] = f := by
  refine ⟨by simp [here], ?_⟩
  simp [here]

end

section

variable {T β : Type*} [DecidableEq T]

/-- The call goes on each time the host's `fclose` returns. What it has closed is the first part. -/
def closings (pid : Nat) (t : T) : Nat → (Nat → Bool × (Int → Option Errno)) → World T β × Result →
    List Nat × World T β × Result
  | 0, _, out => ([], out)
  | n + 1, answers, out =>
    match out.2, out.1.closing (pid, t) with
    | .flushes, some c =>
      let rest := closings pid t n (fun i => answers (i + 1)) (flushed pid t (answers 0).1 (answers 0).2 c out.1)
      (c.file :: rest.1, rest.2)
    | _, _ => ([], out)

/-- The streams of a process are open and listed once. -/
structure Listed (pid : Nat) (w : World T β) : Prop where
  distinct : (w.processes pid).openStreams.Nodup
  open_ : ∀ f ∈ (w.processes pid).openStreams, (w.files f).isSome

/-- The call returns, has closed each stream once that is not a standard one, and leaves only those listed. -/
structure Closes (pid : Nat) (w : World T β) (closed : List Nat) (out : World T β × Result) : Prop where
  returns : ∃ retval, out.2 = .status retval
  once : ∀ f ∈ (w.processes pid).openStreams, ¬ (w.processes pid).Std f → closed.count f = 1
  only : ∀ f ∈ closed, f ∈ (w.processes pid).openStreams ∧ ¬ (w.processes pid).Std f
  rest : ∀ f ∈ (out.1.processes pid).openStreams, (w.processes pid).Std f

/-- Whatever the host's `fclose` returns and the descriptors say. -/
def ClosesAll (pid : Nat) (t : T) (w : World T β) : Prop :=
  ∀ answers, ∃ n, ∀ k, n ≤ k →
    let out := closings pid t k answers (dceFcloseall pid t false 0 w)
    Closes pid w out.1 out.2

variable {pid f : Nat} {t : T} {w : World T β} {std : Option (Option Nat × Option Nat × Option Nat)}
    {kept rest : List Nat}
  {answers : Nat → Bool × (Int → Option Errno)}

theorem closings_status (n : Nat) (w : World T β) (retval : Int) :
    closings pid t n answers (w, .status retval) = ([], w, .status retval) := by
  cases n <;> rfl

theorem dceFcloseall_end {i : Nat} (ends : (w.processes pid).openStreams.length ≤ i) (error : Bool) :
    dceFcloseall pid t error i w = (w, .status (if error then -1 else 0)) := by
  rw [dceFcloseall, dif_neg (not_lt.mpr ends)]

section

variable (here : (w.processes pid).openStreams = kept ++ f :: rest)
include here

theorem dceFcloseall_std (standard : (w.processes pid).Std f) (error : Bool) :
    dceFcloseall pid t error kept.length w = dceFcloseall pid t error (kept.length + 1) w := by
  obtain ⟨inside, found⟩ := getElem_here here
  rw [dceFcloseall, dif_pos inside, found, if_pos standard]

theorem closings_other (distinct : (kept ++ f :: rest).Nodup)
    (other : ¬ (w.processes pid).Std f) (opened : (w.files f).isSome) (error : Bool) (n : Nat) :
    ∃ w' error', closings pid t (n + 1) answers (dceFcloseall pid t error kept.length w) =
        (let out := closings pid t n (fun i => answers (i + 1)) (dceFcloseall pid t error' (kept.length + 1) w');
          (f :: out.1, out.2)) ∧
      w'.processes pid = { w.processes pid with openStreams := kept ++ rest } ∧
      w'.files = update w.files f none := by
  obtain ⟨file, there⟩ := Option.isSome_iff_exists.mp opened
  obtain ⟨inside, found⟩ := getElem_here here
  have away : f ∉ kept := fun mem => (disjoint_of_nodup_append distinct) mem mem_cons_self
  have mem : f ∈ (w.processes pid).openStreams := here ▸ mem_append_right _ mem_cons_self
  let closing : World T β := (removeStream pid t f (some (kept.length + 1, error)) w).1
  have erased : (w.processes pid).openStreams.erase f = kept ++ rest := by
    rw [here, erase_append_right _ away, erase_cons_head]
  have processes : closing.processes pid = { w.processes pid with openStreams := kept ++ rest } := by
    simp [closing, removeStream, if_pos mem, setStreams, erased]
  have files : closing.files = w.files := by
    simp only [closing, removeStream, if_pos mem, setStreams]
  have waits : closing.closing (pid, t) = some ⟨f, some (kept.length + 1, error)⟩ := by
    simp [closing, removeStream, if_pos mem]
  have call : dceFcloseall pid t error kept.length w = (closing, .flushes) := by
    rw [dceFcloseall, dif_pos inside, found, if_neg other]
    simp only [closing, removeStream, if_pos mem]
  let closed := hostFclose pid f file (answers 0).2 { closing with closing := update closing.closing (pid, t) none }
  refine ⟨closed, error || (answers 0).1, ?_, ?_, ?_⟩
  · have flushes : flushed pid t (answers 0).1 (answers 0).2 ⟨f, some (kept.length + 1, error)⟩ closing =
        dceFcloseall pid t (error || (answers 0).1) (kept.length + 1) closed := by
      have still : closing.files f = some file := files ▸ there
      unfold flushed
      simp only [still]
      rfl
    rw [call, closings]
    rw [waits]
    dsimp only
    rw [flushes]
  · rw [processes_hostFclose]
    exact processes
  · rw [files_hostFclose]
    exact congrArg (update · f none) files

end

theorem closings_skipping (kept : List Nat) (here : (w.processes pid).openStreams = kept ++ rest)
    (distinct : (kept ++ rest).Nodup)
    (same : (w.processes pid).std = std) (opened : ∀ f ∈ rest, (w.files f).isSome) (error : Bool) {n : Nat}
    (enough : rest.length ≤ n) :
    ∃ w' retval, closings pid t n answers (dceFcloseall pid t error kept.length w) =
        ((skipping (Process.mk [] std).Std rest).1, w', .status retval) ∧
      (w'.processes pid).openStreams = kept ++ (skipping (Process.mk [] std).Std rest).2 := by
  fun_induction skipping (Process.mk [] std).Std rest generalizing kept w error n answers with
  | case1 =>
    rw [dceFcloseall_end (by rw [here, append_nil]) error, closings_status]
    exact ⟨w, _, rfl, here⟩
  | case2 f standard =>
    rw [dceFcloseall_std here ((std_iff same).mpr standard), dceFcloseall_end (by simp [here]) error,
      closings_status]
    exact ⟨w, _, rfl, here⟩
  | case3 f other =>
    obtain ⟨n, rfl⟩ := Nat.exists_eq_add_of_le' enough
    obtain ⟨w', error', call, process, -⟩ := closings_other here distinct (fun standard =>
      other ((std_iff same).mp standard)) (opened f mem_cons_self) error n
    have left : (w'.processes pid).openStreams = kept ++ [] := by rw [process]
    have ends : (w'.processes pid).openStreams.length ≤ kept.length + 1 := by simp [left]
    rw [dceFcloseall_end ends, closings_status] at call
    exact ⟨w', _, call, left⟩
  | case4 f g l standard ih =>
    have next : (w.processes pid).openStreams = (kept ++ [f]) ++ g :: l := by rw [here]; simp
    rw [dceFcloseall_std here ((std_iff same).mpr standard)]
    have whole : kept ++ f :: g :: l = (kept ++ [f]) ++ g :: l := by simp
    obtain ⟨w', retval, call, left⟩ :=
      ih _ next (whole ▸ distinct) same (fun x mem => opened x (mem_cons_of_mem _ mem)) error
      (Nat.le_of_succ_le enough)
    rw [length_append] at call
    exact ⟨w', retval, call, by rw [left, append_assoc]; rfl⟩
  | case5 f g l other ih =>
    obtain ⟨n, rfl⟩ := Nat.exists_eq_add_of_le' (Nat.le_of_add_left_le enough)
    obtain ⟨w₁, error', call, process, files⟩ :=
      closings_other here distinct (fun standard => other ((std_iff same).mp standard))
      (opened f mem_cons_self) error n
    have next : (w₁.processes pid).openStreams = (kept ++ [g]) ++ l := by rw [process]; simp
    have still : (kept ++ [g] ++ l).Nodup := by
      have shorter := distinct.sublist (Sublist.append_left (sublist_cons_self f (g :: l)) kept)
      simpa using shorter
    have away : ∀ x ∈ l, x ≠ f := by
      rintro x mem rfl
      have distinct := (nodup_append.mp distinct).2.1
      exact (nodup_cons.mp distinct).1 (mem_cons_of_mem _ mem)
    have others : ∀ x ∈ l, (w₁.files x).isSome := by
      intro x mem
      rw [files, update_of_ne (away x mem)]
      exact opened x (mem_cons_of_mem _ (mem_cons_of_mem _ mem))
    have fewer : l.length ≤ n := by
      simp only [length_cons] at enough
      omega
    obtain ⟨w', retval, later, left⟩ := ih _ next still (by rw [process]; exact same) others error' fewer
    rw [length_append, length_singleton] at later
    rw [later] at call
    exact ⟨w', retval, call, by rw [left, append_assoc]; rfl⟩

theorem closings_listed (listed : Listed pid w) (t : T) (answers : Nat → Bool × (Int → Option Errno)) {n : Nat}
    (enough : (w.processes pid).openStreams.length ≤ n) :
    ∃ w' retval, closings pid t n answers (dceFcloseall pid t false 0 w) =
        ((skipping (w.processes pid).Std (w.processes pid).openStreams).1, w', .status retval) ∧
      (w'.processes pid).openStreams = (skipping (w.processes pid).Std (w.processes pid).openStreams).2 :=
  closings_skipping [] rfl listed.distinct rfl listed.open_ false enough

/-- `dce_fcloseall` of a list of streams. -/
theorem closesAll_iff (listed : Listed pid w) :
    ClosesAll pid t w ↔ (w.processes pid).openStreams.IsChain fun f g => (w.processes pid).Std f ∨
    (w.processes pid).Std g := by
  let parts := skipping (w.processes pid).Std (w.processes pid).openStreams
  have perm : (parts.1 ++ parts.2).Perm (w.processes pid).openStreams := skipping_perm
  rw [← skipping_iff]
  constructor
  · intro closes f member
    obtain ⟨n, returns⟩ := closes fun _ => (false, fun _ => none)
    obtain ⟨w', retval, call, left⟩ :=
      closings_listed listed t (fun _ => (false, fun _ => none)) (Nat.le_max_right n _)
    have good := returns _ (Nat.le_max_left n (w.processes pid).openStreams.length)
    rw [call] at good
    exact good.rest f (by rw [left]; exact member)
  · intro kept answers
    refine ⟨(w.processes pid).openStreams.length, fun k enough => ?_⟩
    obtain ⟨w', retval, call, left⟩ := closings_listed listed t answers enough
    rw [call]
    refine ⟨⟨retval, rfl⟩, fun f member other => ?_, fun f member => ?_, fun f member => ?_⟩
    · have distinct := (perm.nodup_iff.mpr listed.distinct)
      have closed : f ∈ parts.1 := by
        rcases mem_append.mp (perm.mem_iff.mpr member) with closed | left
        · exact closed
        · exact absurd (kept f left) other
      exact count_eq_one_of_mem (nodup_append.mp distinct).1 closed
    · exact ⟨perm.mem_iff.mp (mem_append_left _ member), not_std_of_skipping member⟩
    · rw [left] at member
      exact kept f member

/-- A process with its standard streams and others. -/
def withStreams (others : List Nat) : World Nat Nat :=
  { World.start with
    files := fun f => some ⟨f, .dce⟩
    processes := fun _ => ⟨[0, 1, 2] ++ others, some (some 0, some 1, some 2)⟩ }

theorem listed_withStreams {others : List Nat} (distinct : ([0, 1, 2] ++ others).Nodup) :
    Listed 0 (withStreams others) :=
  ⟨distinct, fun _ _ => rfl⟩

theorem closesAll_opened : ClosesAll 0 0 (withStreams [3]) :=
  (closesAll_iff (listed_withStreams (by decide))).mpr (by decide)

/-- The second of two streams stays open. -/
theorem not_closesAll : Listed 0 (withStreams [3, 4]) ∧ ¬ ClosesAll 0 0 (withStreams [3, 4]) := by
  have listed : Listed 0 (withStreams [3, 4]) := listed_withStreams (by decide)
  refine ⟨listed, fun closes => ?_⟩
  obtain ⟨n, returns⟩ := closes fun _ => (false, fun _ => none)
  obtain ⟨w', retval, call, left⟩ := closings_listed listed 0 (fun _ => (false, fun _ => none)) (Nat.le_add_left 5 n)
  have good := (returns (n + 5) (Nat.le_add_right n 5)).rest 4
  rw [call] at good
  rw [left] at good
  exact absurd (good (by decide)) (by decide)

end

end Dce.Streams
