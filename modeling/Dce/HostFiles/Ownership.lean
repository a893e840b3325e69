import Dce.Descriptors.Atomicity
import Dce.Descriptors.Lifecycle
import Dce.HostFiles.Model

/- How often the descriptors of the host are closed while descriptors of processes come and go. -/

namespace Dce.HostFiles

open Descriptors

open Descriptors (System File UnixFd FileUsage Errno Each Books Elsewhere descriptors forget share nullifyUsage)

variable {β : Type*} {real : Nat → Prop} {s t : System β} {pid : Nat} {fd : Int} {fu : FileUsage}

/-- What holds of an object by the number of its descriptors: the one of the host is open as long as there are any,
and was closed once when there are none. -/
structure Owned (real : Nat → Prop) (f : File) (u : UnixFd β) (n : Nat) : Prop where
  held : ∀ k, f = .unixFd k → real k → 0 < n → u.closes + u.frees = 0
  gone : ∀ k, f = .unixFd k → real k → u.given = true → n = 0 → u.closes + u.frees = 1

/-- No entry is in use or was closed in use, and all are of objects that have no peers. -/
def Idle (s : System β) : Prop :=
  ∀ key fu, s.openFiles.lookup key = some fu → fu.count = 0 ∧ fu.closing = false ∧ ∃ n, fu.file = .unixFd n

/-- The invariant of the descriptors where `real` are the objects with a descriptor of the host. -/
structure Kept (real : Nat → Prop) (s : System β) : Prop where
  books : Books s
  owned : Each (Owned real) s
  idle : Idle s

/-- The entry is the last one of an object with a descriptor of the host. -/
def Last (real : Nat → Prop) (s : System β) (fu : FileUsage) : Prop :=
  ∃ n, fu.file = .unixFd n ∧ real n ∧ (s.files fu.file).fdCount = 1

theorem Idle.insert (idle : Idle s) (fu : FileUsage)
    (plain : fu.count = 0 ∧ fu.closing = false ∧ ∃ n, fu.file = .unixFd n)
    (same : ∀ key, key ≠ (pid, fd) → t.openFiles.lookup key = s.openFiles.lookup key)
    (here : t.openFiles.lookup (pid, fd) = some fu) : Idle t := by
  intro key other look
  by_cases mine : key = (pid, fd)
  · rw [mine, here] at look
    cases look
    exact plain
  · rw [same key mine] at look
    exact idle key other look

theorem Idle.forget (idle : Idle s) : Idle (forget pid fd s) := by
  intro key other look
  by_cases mine : key = (pid, fd)
  · rw [mine, forget_lookup_self] at look
    cases look
  · rw [forget_lookup mine] at look
    exact idle key other look

theorem Kept.install (kept : Kept real s) (absent : s.openFiles.lookup (pid, fd) = none) {real' : Nat → Prop}
    (same : ∀ n, n ≠ s.next → (real' n ↔ real n)) : Kept real' (Descriptors.install pid fd s) := by
  obtain ⟨fresh, none⟩ := (kept.books (.unixFd s.next)).unborn le_rfl
  have before : Each (Owned real') s := fun f => by
    by_cases new : f = .unixFd s.next
    · subst new
      rw [none, fresh]
      exact ⟨fun _ _ _ some => absurd some (lt_irrefl 0), fun _ _ _ given => Bool.noConfusion given⟩
    · obtain ⟨held, gone⟩ := kept.owned f
      refine ⟨fun k file there => held k file ?_, fun k file there => gone k file ?_⟩ <;>
        exact (same k fun old => new (by rw [file, old])).mp there
  refine ⟨kept.books.install absent, Each.install before absent fun _ => ?_, ?_⟩
  · rw [fresh, none]
    exact ⟨fun _ _ _ _ => rfl, fun _ _ _ _ zero => absurd zero (Nat.succ_ne_zero 0)⟩
  · refine kept.idle.insert ⟨.unixFd s.next, 0, 0, 0, false⟩ ⟨rfl, rfl, _, rfl⟩
      (fun key other => Descriptors.install_lookup other) ?_
    exact AList.lookup_insert _

theorem Kept.share (kept : Kept real s) (absent : s.openFiles.lookup (pid, fd) = none) {other : Nat × Int}
    (look : s.openFiles.lookup other = some fu) : Kept real (share pid fd fu.file s) := by
  have some : 0 < descriptors fu.file s := descriptors_pos look
  refine ⟨kept.books.share absent some, Each.share kept.owned absent fun owned => ?_, ?_⟩
  · exact ⟨fun k file there _ => owned.held k file there some, fun _ _ _ _ zero => absurd zero (Nat.succ_ne_zero _)⟩
  · exact kept.idle.insert ⟨fu.file, 0, 0, 0, false⟩ ⟨rfl, rfl, (kept.idle other fu look).2.2⟩
      (fun key other => share_lookup other) share_lookup_self

theorem Kept.forget (kept : Kept real s) : Kept real (forget pid fd s) := by
  refine ⟨kept.books.forget, Each.forget kept.owned fun fu look owned => ?_, kept.idle.forget⟩
  have counted := (kept.books fu.file).counted (descriptors_pos look)
  rw [descriptors_forget look, if_pos rfl] at counted
  refine ⟨fun k file there some => ?_, fun k file there _ zero => ?_⟩
  · have before := owned.held k file there (Nat.succ_pos _)
    show (s.files fu.file).closes + (if _ then _ else _) = 0
    rw [if_neg (by omega)]
    exact before
  · have before := owned.held k file there (Nat.succ_pos _)
    show (s.files fu.file).closes + (if _ then _ else _) = 1
    rw [if_pos (by omega)]
    omega

theorem Idle.last (idle : Idle s) (look : s.openFiles.lookup (pid, fd) = some fu)
    (last : (s.files fu.file).fdCount = 1)
    (status : Option Errno) :
    (Descriptors.dceClose pid fd status s).1 = Descriptors.forget pid fd (Descriptors.called fu.file s) := by
  obtain ⟨idle, -, n, file⟩ := idle (pid, fd) fu look
  rw [Descriptors.dceClose_last look last, file]
  exact if_pos idle

theorem Idle.more (idle : Idle s) (look : s.openFiles.lookup (pid, fd) = some fu)
    (more : (s.files fu.file).fdCount ≠ 1)
    (status : Option Errno) : (Descriptors.dceClose pid fd status s).1 = Descriptors.forget pid fd s := by
  rw [Descriptors.dceClose_more look more]
  exact if_pos (idle (pid, fd) fu look).1

theorem Kept.close (kept : Kept real s) (status : Option Errno)
    (more : ∀ fu, s.openFiles.lookup (pid, fd) = some fu → ¬ Last real s fu) :
    Kept real (Descriptors.dceClose pid fd status s).1 := by
  cases look : s.openFiles.lookup (pid, fd) with
  | none => rwa [Descriptors.dceClose_none look]
  | some fu =>
    obtain ⟨-, -, n, file⟩ := kept.idle (pid, fd) fu look
    by_cases last : (s.files fu.file).fdCount = 1
    · have plain : ¬ real n := fun there => more fu look ⟨n, file, there, last⟩
      have called : Kept real (Descriptors.called fu.file s) := by
        refine ⟨kept.books.called (kept.books.born (Descriptors.descriptors_pos look)), ?_, kept.idle⟩
        refine Each.update kept.owned fun _ => ⟨fun k same there => ?_, fun k same there => ?_⟩ <;>
          exact absurd (by rwa [File.unixFd.inj (file.symm.trans same)]) plain
      rw [kept.idle.last look last]
      exact called.forget
    · rw [kept.idle.more look last]
      exact kept.forget

/-- The descriptor of the host of the object `n` was closed twice. -/
def Twice (n : Nat) (s : System β) : Prop :=
  (s.files (.unixFd n)).given = true ∧ 1 ≤ (s.files (.unixFd n)).closes ∧ 1 ≤ (s.files (.unixFd n)).frees

theorem close_last (books : Books s) (idle : Idle s) (status : Option Errno) {n : Nat}
    (look : s.openFiles.lookup (pid, fd) = some fu) (file : fu.file = .unixFd n)
    (last : (s.files fu.file).fdCount = 1) :
    Twice n (Descriptors.dceClose pid fd status s).1 := by
  have look' : (Descriptors.called fu.file s).openFiles.lookup (pid, fd) = some fu := look
  obtain ⟨fdCount, ref, -, given⟩ := (books fu.file).counted (Descriptors.descriptors_pos look)
  rw [idle.last look last, Twice, Descriptors.forget_files look', ← file, Function.update_self]
  have called : (Descriptors.called fu.file s).files fu.file =
      { s.files fu.file with closes := (s.files fu.file).closes + 1 } := Descriptors.update_self _ _ _
  rw [called]
  refine ⟨given, Nat.le_add_left 1 _, ?_⟩
  show 1 ≤ if (s.files fu.file).ref - 1 = 0 then _ else _
  rw [if_pos (by omega)]
  exact Nat.le_add_left 1 _

theorem Twice.close {n : Nat} (twice : Twice n s) (idle : Idle s) (status : Option Errno) :
    Twice n (Descriptors.dceClose pid fd status s).1 := by
  have dropped : ∀ {t : System β}, t.openFiles = s.openFiles → Twice n t →
      Twice n (Descriptors.forget pid fd t) := by
    intro t same twice
    cases look : s.openFiles.lookup (pid, fd) with
    | none => rwa [Descriptors.forget_none (same ▸ look)]
    | some fu =>
      have look' : t.openFiles.lookup (pid, fd) = some fu := same ▸ look
      rw [Twice, Descriptors.forget_files look']
      by_cases mine : File.unixFd n = fu.file
      · rw [← mine, Function.update_self]
        refine ⟨twice.1, twice.2.1, ?_⟩
        show 1 ≤ if (t.files (.unixFd n)).ref - 1 = 0 then (t.files (.unixFd n)).frees + 1
          else (t.files (.unixFd n)).frees
        have freed := twice.2.2
        split <;> omega
      · rw [Function.update_of_ne mine]
        exact twice
  cases look : s.openFiles.lookup (pid, fd) with
  | none => rwa [Descriptors.dceClose_none look]
  | some fu =>
    by_cases last : (s.files fu.file).fdCount = 1
    · rw [idle.last look last]
      refine dropped rfl ?_
      by_cases mine : File.unixFd n = fu.file
      · rw [Twice, mine, Descriptors.called, Descriptors.update_self]
        rw [Twice, mine] at twice
        exact ⟨twice.1, Nat.le_succ_of_le twice.2.1, twice.2.2⟩
      · rw [Twice, Descriptors.called, Descriptors.update_other mine]
        exact twice
    · rw [idle.more look last]
      exact dropped rfl twice

/-- An entry is closed as its process exits. -/
def departed (pid : Nat) (t : System β) (fd : Int) : System β :=
  (Descriptors.dceClose pid fd none (nullifyUsage pid fd t)).1

section

variable (idle : Idle s)
include idle

theorem nullify_eq : (∀ key, (nullifyUsage pid fd s).openFiles.lookup key = s.openFiles.lookup key) ∧
      (nullifyUsage pid fd s).files = s.files ∧ ∀ f, descriptors f (nullifyUsage pid fd s) = descriptors f s := by
  unfold nullifyUsage
  cases look : s.openFiles.lookup (pid, fd) with
  | none => exact ⟨fun _ => rfl, rfl, fun _ => rfl⟩
  | some fu =>
    have count : fu.calls + fu.polls + fu.stale = 0 := (idle (pid, fd) fu look).1
    have same : fu.nullify = fu := by
      obtain ⟨file, calls, polls, stale, closing⟩ := fu
      simp only [FileUsage.nullify, FileUsage.mk.injEq, true_and, and_true]
      dsimp only at count
      omega
    refine ⟨fun key => ?_, rfl, fun f => descriptors_setUsage look rfl⟩
    by_cases mine : key = (pid, fd)
    · rw [mine, look]
      dsimp only
      rw [same]
      exact AList.lookup_insert _
    · exact AList.lookup_insert_ne mine

theorem Idle.nullify : Idle (nullifyUsage pid fd s) := fun key fu look =>
  idle key fu (by rwa [(nullify_eq idle).1] at look)

theorem departed_lookup (key : Nat × Int) :
    (departed pid s fd).openFiles.lookup key = if key = (pid, fd) then none else s.openFiles.lookup key := by
  unfold departed
  split
  next mine =>
    subst mine
    cases look : (nullifyUsage pid fd s).openFiles.lookup (pid, fd) with
    | none => rwa [dceClose_none look]
    | some fu => rw [dceClose_lookup_self look, if_pos (idle.nullify _ fu look).1]
  next other => rw [dceClose_lookup other, (nullify_eq idle).1]

theorem Idle.departed : Idle (departed pid s fd) := by
  intro key fu look
  rw [departed_lookup idle] at look
  split at look
  next => cases look
  next => exact idle key fu look

theorem exit_lookup (fd : Int) : (exit pid s).openFiles.lookup (pid, fd) = none := by
  have all : ∀ (l : List Int) (t : System β), Idle t → (∀ fd, t.openFiles.lookup (pid, fd) ≠ none → fd ∈ l) →
      ∀ fd, (l.foldl (departed pid) t).openFiles.lookup (pid, fd) = none := by
    intro l
    induction l with
    | nil => exact fun t _ listed fd => by_contra fun there => List.not_mem_nil (listed fd there)
    | cons first l ih =>
      refine fun t idle listed => ih _ idle.departed fun fd there => ?_
      rw [departed_lookup idle] at there
      split at there
      next => exact absurd rfl there
      next other => exact (List.mem_cons.mp (listed fd there)).resolve_left fun same => other (by rw [same])
  exact all _ s idle (fun fd there => mem_fdsOf.mpr there) fd

end

theorem Kept.exit (kept : Kept real s)
    (shared : ∀ fd fu n, s.openFiles.lookup (pid, fd) = some fu → fu.file = .unixFd n → real n →
      Elsewhere pid fu.file s) :
    Kept real (Descriptors.exit pid s) := by
  refine (Descriptors.exit_keeps (I := fun t => Kept real t ∧ ∀ fd fu n, t.openFiles.lookup (pid, fd) = some fu →
    fu.file = .unixFd n → real n → Elsewhere pid fu.file t) ⟨kept, shared⟩ fun t fd here => ?_).1
  obtain ⟨kept, shared⟩ := here
  obtain ⟨lookup, files, -⟩ := nullify_eq kept.idle
  have silent : Kept real (nullifyUsage pid fd t) := by
    refine ⟨kept.books.nullifyUsage pid fd, ?_, kept.idle.nullify⟩
    unfold Descriptors.nullifyUsage
    cases look : t.openFiles.lookup (pid, fd) with
    | none => exact kept.owned
    | some fu => exact Each.setUsage kept.owned look rfl
  refine ⟨silent.close none fun fu look last => ?_, fun other fu n look file there => ?_⟩
  · obtain ⟨n, file, there, last⟩ := last
    rw [lookup] at look
    rw [files] at last
    have two := (shared fd fu n look file there).two look
    have count := kept.books.counted (Descriptors.descriptors_pos look)
    omega
  · have after (key : Nat × Int) : (Descriptors.dceClose pid fd none
      (nullifyUsage pid fd t)).1.openFiles.lookup key =
        if key = (pid, fd) then none else t.openFiles.lookup key := departed_lookup kept.idle key
    rw [after] at look
    split at look
    next => cases look
    next =>
      refine (shared other fu n look file there).kept fun key away => ?_
      rw [after, if_neg fun same => away (by rw [same])]

theorem exit_twice (books : Books s) (idle : Idle s) {n : Nat} (there : 0 < descriptors (.unixFd n) s)
    (own : ∀ key fu, s.openFiles.lookup key = some fu → fu.file = .unixFd n → key.1 = pid) :
    Twice n (Descriptors.exit pid s) := by
  have kept : Books (Descriptors.exit pid s) ∧ Idle (Descriptors.exit pid s) ∧
      (∀ key fu, (Descriptors.exit pid s).openFiles.lookup key = some fu → fu.file = .unixFd n → key.1 = pid) ∧
      (0 < descriptors (.unixFd n) (Descriptors.exit pid s) ∨ Twice n (Descriptors.exit pid s)) := by
    refine Descriptors.exit_keeps (I := fun t => Books t ∧ Idle t ∧
      (∀ key fu, t.openFiles.lookup key = some fu → fu.file = .unixFd n → key.1 = pid) ∧
      (0 < descriptors (.unixFd n) t ∨ Twice n t)) ⟨books, idle, own, .inl there⟩ fun t fd here => ?_
    obtain ⟨books, idle, own, so_far⟩ := here
    obtain ⟨-, files, count⟩ := nullify_eq (s := t) idle
    have books' := books.nullifyUsage pid fd
    have idle' : Idle (nullifyUsage pid fd t) := idle.nullify
    refine ⟨books'.dceClose pid fd none, idle.departed, fun key fu look => ?_, ?_⟩
    · rw [show (Descriptors.dceClose pid fd none (nullifyUsage pid fd t)).1 = departed pid t fd from rfl,
        departed_lookup idle] at look
      split at look
      next => cases look
      next => exact own key fu look
    rcases so_far with there | twice
    · rw [← count] at there
      cases look : (nullifyUsage pid fd t).openFiles.lookup (pid, fd) with
      | none =>
        rw [Descriptors.dceClose_none look]
        exact .inl there
      | some fu =>
        have whole := books'.counted (Descriptors.descriptors_pos look)
        have left := Descriptors.descriptors_forget (h := .unixFd n) look
        by_cases last : ((nullifyUsage pid fd t).files fu.file).fdCount = 1
        · by_cases mine : fu.file = .unixFd n
          · exact .inr (close_last books' idle' none look mine last)
          · rw [idle'.last look last]
            have left := Descriptors.descriptors_forget (s := Descriptors.called fu.file (nullifyUsage pid fd t))
              (h := .unixFd n) look
            rw [if_neg mine, Nat.add_zero] at left
            exact .inl (left ▸ there)
        · rw [idle'.more look last]
          split at left
          next mine =>
            rw [mine] at whole last
            exact .inl (by omega)
          next => exact .inl (by omega)
    · have twice' : Twice n (nullifyUsage pid fd t) := by rwa [Twice, files]
      exact .inr (twice'.close idle' none)
  obtain ⟨-, -, own, there | twice⟩ := kept
  · obtain ⟨⟨p, fd⟩, fu, look, file⟩ := Table.tally_pos_iff.mp there
    obtain rfl : p = pid := own _ fu look (of_decide_eq_true file)
    rw [exit_lookup idle] at look
    cases look
  · exact twice

end Dce.HostFiles
