import Dce.Descriptors.Steps

/- What the calls that make descriptors leave behind, with and without an error. -/

namespace Dce.Descriptors

open List Option

open Pipe (End FifoBuffer pipeCapacity maxFds)

variable {β : Type*} {s t u : System β} {f h : File} {pid : Nat} {fd oldfd newfd : Int} {fu : FileUsage}

/-- An object that is still counted as used but that no descriptor leads to. -/
def Leaked (f : File) (s : System β) : Prop := 0 < (s.files f).ref ∧ descriptors f s = 0

/-- `FdCount` has changed with the table, and nothing is leaked or freed twice that was not before. -/
structure Follows (s : System β) (f : File) (u : UnixFd β) (n : Nat) : Prop where
  fdCount : u.fdCount - (s.files f).fdCount = n - descriptors f s
  leaked : 0 < u.ref → n = 0 → Leaked f s
  frees : 2 ≤ u.frees → 2 ≤ (s.files f).frees

def Followed (s t : System β) : Prop := Each (Follows s) t

/-- The table of `pid` has gained `fds`, each for an object that nothing is in progress on. -/
structure Gains (s : System β) (pid : Nat) (fds : List Int) (t : System β) : Prop where
  others : ∀ key, (∀ fd ∈ fds, key ≠ (pid, fd)) → t.openFiles.lookup key = s.openFiles.lookup key
  fresh : ∀ fd ∈ fds, s.openFiles.lookup (pid, fd) = none
  gained : ∀ fd ∈ fds, ∃ f, t.openFiles.lookup (pid, fd) = some ⟨f, 0, 0, 0, false⟩
  range : ∀ fd ∈ fds, 0 ≤ fd ∧ fd < maxFds

def Fits (s : System β) (pid : Nat) (t : System β) : Result β → Prop
  | .fds fds => Gains s pid fds t
  | _ => t.openFiles = s.openFiles

theorem fits_error (err : Errno) : Fits s pid t err.result ↔ t.openFiles = s.openFiles := by
  cases err <;> exact .rfl

/-- `newfd` leads where `oldfd` does, and the rest of the table is as before. -/
structure Moves (s : System β) (pid : Nat) (oldfd newfd : Int) (t : System β) : Prop where
  others : ∀ key, key ≠ (pid, newfd) → t.openFiles.lookup key = s.openFiles.lookup key
  moved : oldfd ≠ newfd → ∃ fu, s.openFiles.lookup (pid, oldfd) = some fu ∧
    t.openFiles.lookup (pid, newfd) = some ⟨fu.file, 0, 0, 0, false⟩
  kept : oldfd = newfd → t.openFiles = s.openFiles
  range : 0 ≤ newfd ∧ newfd < maxFds

/-- What a call has to leave behind in the table and the objects, whatever it returns. -/
def Atomic (s : System β) : Label β → System β → Result β → Prop
  | .open pid _, t, r | .socket pid _ _ _, t, r | .socketpair pid _ _ _ _, t, r | .pipe pid _, t, r
  | .dup pid _, t, r | .method pid _ (.accept _), t, r => Followed s t ∧ Fits s pid t r
  | .dup2 pid oldfd newfd _, t, r => Followed s t ∧ match r with
    | .fds fds => fds = [newfd] ∧ Moves s pid oldfd newfd t
    | _ => t.openFiles = s.openFiles
  | .truncate .., t, _ | .ifNametoindex .., t, _ | .ifIndextoname .., t, _ =>
    Followed s t ∧ t.openFiles = s.openFiles
  | _, _, _ => True

/-- The claims on a table, of the calls that are made along `C`. -/
structure Atomicity (C : System β → Label β → Prop) : Prop where
  call : ∀ s, (machine β).Reach s → ∀ a t r, respond s a = some (t, r) → (Atomic s a t r ↔ C s a)
  range : ∀ s, (machine β).ReachBy C s → ∀ key, s.openFiles.lookup key ≠ none → 0 ≤ key.2 ∧ key.2 < maxFds

def Free (pid : Nat) (fd : Int) (s : System β) : Prop :=
  0 ≤ fd ∧ fd < maxFds ∧ s.openFiles.lookup (pid, fd) = none

/-- The object behind a path can be had. -/
def Path.Opens (path : Path) : Prop := path = .random ∨ path = .real none

/-- The calls that meet no defect: no object is made that the table has no room for, a pair finds
room for both or for none, a descriptor that `dup2` replaces is not in use and closes without an error,
and nothing is opened that will not be closed. -/
def Spared (s : System β) : Label β → Prop
  | .socket pid domain type created => createSocket domain type created = true → ∃ fd, Free pid fd s
  | .socketpair pid domain type first second => createSocket domain type first = true →
    createSocket domain type second = true ∧ ∃ fd₀ fd₁, fd₀ ≠ fd₁ ∧ Free pid fd₀ s ∧ Free pid fd₁ s
  | .pipe pid null => null = false → (∃ fd, Free pid fd s) → ∃ fd₀ fd₁, fd₀ ≠ fd₁ ∧ Free pid fd₀ s ∧ Free pid fd₁ s
  | .dup2 pid oldfd newfd status => (findOpen pid oldfd s).isSome → newfd ≤ maxFds →
    (∀ fu, s.openFiles.lookup (pid, newfd) = some fu → fu.closing = false) →
    (0 ≤ newfd ∧ newfd < maxFds) ∧ (oldfd ≠ newfd → ∀ fu, s.openFiles.lookup (pid, newfd) = some fu →
      fu.count = 0 ∧ ((s.files fu.file).fdCount = 1 → Closes s status fu.file))
  | .truncate pid path _ _ => path.Opens → ∀ fd, ¬ Free pid fd s
  | .ifNametoindex _ linux created _ => linux = true → created = false
  | .ifIndextoname _ created _ => created = false
  | _ => True

theorem allocateFd_free (free : allocateFd pid s = some fd) : Free pid fd s :=
  ⟨(allocateFd_some free).2.1, (allocateFd_some free).2.2, (allocateFd_some free).1⟩

theorem not_free (full : allocateFd pid s = none) (fd : Int) : ¬ Free pid fd s :=
  fun free => allocateFd_none.mp full fd free.1 free.2.1 free.2.2

section

variable {v : UnixFd β}

theorem Follows.more {n : Nat} {w : UnixFd β} (follows : Follows s f v n) (fdCount : w.fdCount = v.fdCount + 1)
    (frees : w.frees = v.frees) : Follows s f w (n + 1) where
  fdCount := by
    have before := follows.fdCount
    omega
  leaked _ none := absurd none (Nat.succ_ne_zero n)
  frees := by
    rw [frees]
    exact follows.frees

theorem Follows.dropped {n k : Nat} (follows : Follows s f v (n + 1)) (booked : Booked k f v (n + 1)) :
    Follows s f v.dropped n := by
  obtain ⟨fdCount, ref, frees, -⟩ := booked.counted (Nat.succ_pos n)
  refine ⟨?_, fun some none => ?_, fun twice => ?_⟩
  · have before := follows.fdCount
    show v.fdCount - 1 - _ = _
    omega
  · have some : 0 < v.ref - 1 := some
    omega
  · have twice : 2 ≤ if v.ref - 1 = 0 then v.frees + 1 else v.frees := twice
    split at twice <;> omega

theorem followed_refl (s : System β) : Followed s s := fun _ => ⟨by omega, fun some none => ⟨some, none⟩, id⟩

section

variable (followed : Followed s t)
include followed

theorem Followed.of_same {g : UnixFd β → UnixFd β} (fdCount : ∀ v, (g v).fdCount = v.fdCount)
    (ref : ∀ v, (g v).ref = v.ref) (frees : ∀ v, (g v).frees = v.frees) : Followed s (update f g t) :=
  Each.update followed fun follows =>
    ⟨by rw [fdCount]; exact follows.fdCount, by rw [ref]; exact follows.leaked, by rw [frees]; exact follows.frees⟩

theorem Followed.called : Followed s (called f t) :=
  followed.of_same (fun _ => rfl) (fun _ => rfl) (fun _ => rfl)

theorem Followed.clearPeer : Followed s (clearPeer f t) :=
  followed.of_same (fun _ => rfl) (fun _ => rfl) (fun _ => rfl)

theorem Followed.closeFile (status : Option Errno) : Followed s (closeFile f status t).1 := by
  cases f with
  | unixFd n => exact followed.called
  | pipeFd n e =>
    show Followed s (pipeClose n e t).1
    unfold pipeClose
    dsimp only
    split
    · split
      · exact followed.called.clearPeer
      · split
        · exact followed.called.clearPeer.called.clearPeer.called
        · exact followed.called.clearPeer.called
    · exact followed.called

theorem Followed.install (absent : t.openFiles.lookup (pid, fd) = none) : Followed s (install pid fd t) :=
  Each.install followed absent fun follows => follows.more rfl rfl

theorem Followed.share (absent : t.openFiles.lookup (pid, fd) = none) : Followed s (share pid fd f t) :=
  Each.share followed absent fun follows => follows.more rfl rfl

theorem Followed.forget (books : Books t) : Followed s (forget pid fd t) :=
  Each.forget followed fun fu look follows => by
    have booked := books fu.file
    rw [descriptors_forget look, if_pos rfl] at booked
    exact follows.dropped booked

theorem Followed.release (books : Books t)
    (look : t.openFiles.lookup (pid, fd) = some fu) : Followed s (release pid fd fu t) := by
  unfold Descriptors.release
  split
  · exact followed.forget books
  · exact Each.setUsage followed look rfl

theorem Followed.dceClose (books : Books t) (status : Option Errno) : Followed s (dceClose pid fd status t).1 := by
  cases look : t.openFiles.lookup (pid, fd) with
  | none => rwa [dceClose_none look]
  | some fu =>
    by_cases last : (t.files fu.file).fdCount = 1
    · rw [dceClose_last look last]
      refine (followed.closeFile status).release (books.closeFile (books.born (descriptors_pos look)) status) ?_
      rwa [closeFile_openFiles]
    · rw [dceClose_more look last]
      exact followed.release books look

end

/-- An object that is made when the table is full is leaked. -/
theorem not_followed_lost (books : Books s) : ¬ Followed s
    { create (.unixFd s.next) s with next := s.next + 1 } := by
  intro followed
  obtain ⟨fresh, none⟩ := (books (.unixFd s.next)).unborn le_rfl
  have used : 0 < ((create (.unixFd s.next) s).files (.unixFd s.next)).ref := by simp [create]
  have leaked := ((followed (.unixFd s.next)).leaked used none).1
  rw [fresh] at leaked
  exact lt_irrefl 0 leaked

/-- The read end that is thrown away is freed twice. -/
theorem not_followed_broken (books : Books s) : ¬ Followed s (brokenPipe pid fd s) := by
  intro followed
  have twice : 2 ≤ ((brokenPipe pid fd s).files (.pipeFd s.next .read)).frees := by simp [brokenPipe, deadEnd]
  have before := (followed (.pipeFd s.next .read)).frees twice
  rw [books.fresh] at before
  exact absurd before (by decide : ¬ 2 ≤ 0)

theorem followed_madePipe (books : Books s) {fdRead fdWrite : Int}
    (free : s.openFiles.lookup (pid, fdRead) = none) (ne : fdWrite ≠ fdRead)
    (absent : s.openFiles.lookup (pid, fdWrite) = none) : Followed s (madePipe pid fdRead fdWrite s) := by
  refine Each.madePipe (followed_refl s) free ne absent (fun _ _ _ follows => follows) fun e follows => ?_
  rw [books.fresh] at follows
  exact follows.more rfl rfl

end

theorem gains_install (free : allocateFd pid s = some fd) : Gains s pid [fd] (install pid fd s) where
  others _ ne := install_lookup (ne fd mem_cons_self)
  fresh := forall_mem_singleton.mpr (allocateFd_some free).1
  gained := forall_mem_singleton.mpr ⟨_, AList.lookup_insert _⟩
  range := forall_mem_singleton.mpr (allocateFd_some free).2

theorem gains_share (free : allocateFd pid s = some fd) : Gains s pid [fd] (share pid fd f s) where
  others _ ne := share_lookup (ne fd mem_cons_self)
  fresh := forall_mem_singleton.mpr (allocateFd_some free).1
  gained := forall_mem_singleton.mpr ⟨_, share_lookup_self⟩
  range := forall_mem_singleton.mpr (allocateFd_some free).2

theorem Gains.trans {fd₀ fd₁ : Int} (first : Gains s pid [fd₀] t) (second : Gains t pid [fd₁] u) : Gains s pid
    [fd₀, fd₁] u := by
  have here : fd₀ ∈ [fd₀] := mem_cons_self
  have there : fd₁ ∈ [fd₁] := mem_cons_self
  have ne : (pid, fd₀) ≠ (pid, fd₁) := fun same => by
    obtain ⟨f, look⟩ := first.gained fd₀ here
    rw [same, second.fresh fd₁ there] at look
    cases look
  refine ⟨fun key away => ?_, ?_, ?_, ?_⟩
  · have notFirst := away fd₀ (by simp)
    have notSecond := away fd₁ (by simp)
    rw [second.others key (by simpa using notSecond), first.others key (by simpa using notFirst)]
  · have absent : s.openFiles.lookup (pid, fd₁) = none := by
      rw [← first.others (pid, fd₁) (by simpa using ne.symm), second.fresh fd₁ there]
    exact forall_mem_cons.mpr ⟨first.fresh fd₀ here, forall_mem_singleton.mpr absent⟩
  · obtain ⟨f, look⟩ := first.gained fd₀ here
    rw [← second.others (pid, fd₀) (by simpa using ne)] at look
    exact forall_mem_cons.mpr ⟨⟨f, look⟩, second.gained⟩
  · exact forall_mem_cons.mpr ⟨first.range fd₀ here, second.range⟩

theorem gains_madePipe {fdRead fdWrite : Int} (free : allocateFd pid s = some fdRead) (ne : fdWrite ≠ fdRead)
    (absent : s.openFiles.lookup (pid, fdWrite) = none) (range : 0 ≤ fdWrite ∧ fdWrite < maxFds) :
    Gains s pid [fdRead, fdWrite] (madePipe pid fdRead fdWrite s) := by
  have apart : (pid, fdRead) ≠ (pid, fdWrite) := by simpa using ne.symm
  refine ⟨fun key away => ?_, ?_, ?_, ?_⟩
  · have notFirst := away fdRead (by simp)
    have notSecond := away fdWrite (by simp)
    exact (AList.lookup_insert_ne notSecond).trans (AList.lookup_insert_ne notFirst)
  · exact forall_mem_cons.mpr ⟨(allocateFd_some free).1, forall_mem_singleton.mpr absent⟩
  · refine forall_mem_cons.mpr ⟨⟨.pipeFd s.next .read, ?_⟩, forall_mem_singleton.mpr ⟨_, AList.lookup_insert _⟩⟩
    exact (AList.lookup_insert_ne apart).trans (AList.lookup_insert _)
  · exact forall_mem_cons.mpr ⟨(allocateFd_some free).2, forall_mem_singleton.mpr range⟩

theorem openFiles_ne_of_lookup (key : Nat × Int) (ne : t.openFiles.lookup key ≠ s.openFiles.lookup key) :
    t.openFiles ≠ s.openFiles := fun same => ne (by rw [same])

theorem install_openFiles_ne (free : allocateFd pid s = some fd) : (install pid fd s).openFiles ≠ s.openFiles := by
  refine openFiles_ne_of_lookup (pid, fd) fun same => ?_
  rw [(allocateFd_some free).1] at same
  exact absurd ((AList.lookup_insert _).symm.trans same) nofun

section

variable {p : System β × Except Errno Int} {created : Bool} {domain : Domain}

theorem Makes.atomic {connectors : List (Nat × Bool)} (makes : Makes pid false connectors s p) :
    Followed s (fdResult p).1 ∧ Fits s pid (fdResult p).1 (fdResult p).2 := by
  cases makes with
  | fails err => exact ⟨followed_refl s, (fits_error err).mpr rfl⟩
  | made free => exact ⟨(followed_refl s).install (allocateFd_some free).1, gains_install free⟩
  | lost _ never => cases never
  | hangs err => exact ⟨(followed_refl s).called, (fits_error err).mpr rfl⟩

theorem dceSocket_refused {type : SocketType} (refused : createSocket domain type created = false) :
    dceSocket pid domain type created s = (s, .error .EINVAL) := by
  rw [dceSocket, refused]
  rfl

theorem dceSocket_lost {type : SocketType} (made : createSocket domain type created = true)
    (full : allocateFd pid s = none) :
    dceSocket pid domain type created s = ({ create (.unixFd s.next) s with next := s.next + 1 },
      .error .EMFILE) := by
  rw [dceSocket, made, full]
  rfl

theorem dceSocket_made {type : SocketType} (made : createSocket domain type created = true)
    (free : allocateFd pid s = some fd) :
    dceSocket pid domain type created s = (install pid fd s, .ok fd) := by
  rw [dceSocket, made, free]
  rfl

theorem socket_atomic_iff (books : Books s) {type : SocketType} (run : dceSocket pid domain type created s = p) :
    (Followed s (fdResult p).1 ∧ Fits s pid (fdResult p).1 (fdResult p).2) ↔
    Spared s (.socket pid domain type created) := by
  subst run
  cases made : createSocket domain type created with
  | false =>
    rw [dceSocket_refused made]
    exact ⟨fun _ made' => absurd (made.symm.trans made') Bool.false_ne_true, fun _ => ⟨followed_refl s, rfl⟩⟩
  | true =>
    cases free : allocateFd pid s with
    | none =>
      rw [dceSocket_lost made free]
      refine ⟨fun atomic => absurd atomic.1 (not_followed_lost books), fun spared => ?_⟩
      obtain ⟨fd, room⟩ := spared made
      exact absurd room (not_free free fd)
    | some fd =>
      rw [dceSocket_made made free]
      exact ⟨fun _ _ => ⟨fd, allocateFd_free free⟩,
        fun _ => ⟨(followed_refl s).install (allocateFd_some free).1, gains_install free⟩⟩

/-- The table has room for two more descriptors when the second one is found after the first. -/
theorem two_free_iff (free : allocateFd pid s = some fd)
    (table : ∀ key, key ≠ (pid, fd) → t.openFiles.lookup key = s.openFiles.lookup key)
    (taken : t.openFiles.lookup (pid, fd) ≠ none) :
    (∃ fd₀ fd₁, fd₀ ≠ fd₁ ∧ Free pid fd₀ s ∧ Free pid fd₁ s) ↔ allocateFd pid t ≠ none := by
  have still : ∀ x, x ≠ fd → (Free pid x t ↔ Free pid x s) := fun x ne => by
    rw [Free, Free, table (pid, x) (by simpa using ne)]
  constructor
  · rintro ⟨fd₀, fd₁, ne, free₀, free₁⟩ full
    by_cases first : fd₀ = fd
    · exact not_free full fd₁ ((still fd₁ (first ▸ ne.symm)).mpr free₁)
    · exact not_free full fd₀ ((still fd₀ first).mpr free₀)
  · intro room
    obtain ⟨x, free'⟩ := ne_none_iff_exists'.mp room
    have ne : x ≠ fd := fun same => taken (by rw [← same]; exact (allocateFd_some free').1)
    exact ⟨fd, x, ne.symm, allocateFd_free free, (still x ne).mp (allocateFd_free free')⟩

theorem socketpair_atomic_iff (books : Books s) {type : SocketType} {first second : Bool}
    {p : System β × Except Errno (Int × Int)} (run : dceSocketpair pid domain type first second s = p) :
    (Followed s (pairResult p).1 ∧ Fits s pid (pairResult p).1 (pairResult p).2) ↔
      Spared s (.socketpair pid domain type first second) := by
  subst run
  unfold dceSocketpair
  cases made : createSocket domain type first with
  | false =>
    rw [dceSocket_refused made]
    exact ⟨fun _ made' => absurd (made.symm.trans made') Bool.false_ne_true, fun _ => ⟨followed_refl s, rfl⟩⟩
  | true =>
    cases free : allocateFd pid s with
    | none =>
      rw [dceSocket_lost made free]
      refine ⟨fun atomic => absurd atomic.1 (not_followed_lost books), fun spared => ?_⟩
      obtain ⟨-, fd, -, -, room, -⟩ := spared made
      exact absurd room (not_free free fd)
    | some fd =>
      rw [dceSocket_made made free]
      dsimp only
      have absent := (allocateFd_some free).1
      have room := two_free_iff (t := install pid fd s) free (fun key => install_lookup)
        (by rw [show (install pid fd s).openFiles.lookup (pid, fd) = _ from AList.lookup_insert _]; simp)
      cases again : createSocket domain type second with
      | false =>
        rw [dceSocket_refused again]
        refine ⟨fun atomic => absurd atomic.2 (install_openFiles_ne free), fun spared => ?_⟩
        exact absurd (again.symm.trans (spared made).1) Bool.false_ne_true
      | true =>
        cases free' : allocateFd pid (install pid fd s) with
        | none =>
          rw [dceSocket_lost again free']
          refine ⟨fun atomic => absurd atomic.2 (install_openFiles_ne free), fun spared => ?_⟩
          exact absurd free' (room.mp (spared made).2)
        | some fd' =>
          rw [dceSocket_made again free']
          refine ⟨fun _ _ => ⟨again, room.mpr ?_⟩, fun _ => ⟨?_, ?_⟩⟩
          · rw [free']
            exact some_ne_none fd'
          · exact ((followed_refl s).install absent).install (allocateFd_some free').1
          · exact (gains_install free).trans (gains_install free')

theorem pipe_atomic_iff (books : Books s) {null : Bool} : (Followed s (pairResult (dcePipe pid null s)).1 ∧
      Fits s pid (pairResult (dcePipe pid null s)).1 (pairResult (dcePipe pid null s)).2) ↔
      Spared s (.pipe pid null) := by
  have pipes := dcePipe_pipes books pid null
  generalize dcePipe pid null s = p at pipes ⊢
  cases pipes with
  | fails err why =>
    refine ⟨fun _ notNull room => ?_, fun _ => ⟨followed_refl s, rfl⟩⟩
    obtain ⟨fd, free⟩ := room
    rcases why with isNull | full
    · exact absurd (notNull.symm.trans isNull) Bool.false_ne_true
    · exact absurd free (not_free full fd)
  | opened free ne absent start stop =>
    refine ⟨fun _ _ _ => ⟨_, _, ne.symm, allocateFd_free free, start, stop, absent⟩, fun _ => ⟨?_, ?_⟩⟩
    · exact followed_madePipe books (allocateFd_some free).1 ne absent
    · exact gains_madePipe free ne absent ⟨start, stop⟩
  | broken notNull free full =>
    refine ⟨fun atomic => absurd atomic.1 (not_followed_broken books), fun spared => ?_⟩
    obtain ⟨fd₀, fd₁, ne, free₀, free₁⟩ := spared notNull ⟨_, allocateFd_free free⟩
    have only : ∀ x, Free pid x s → x = _ := fun x room =>
      not_imp_comm.mp (full x room.1 room.2.1) (not_not.mpr room.2.2)
    exact absurd ((only fd₀ free₀).trans (only fd₁ free₁).symm) ne

theorem dup_atomic : Followed s (fdResult (dceDup pid oldfd s)).1 ∧
    Fits s pid (fdResult (dceDup pid oldfd s)).1 (fdResult (dceDup pid oldfd s)).2 := by
  unfold dceDup
  cases findOpen pid oldfd s with
  | none => exact ⟨followed_refl s, rfl⟩
  | some fu =>
    cases free : allocateFd pid s with
    | none => exact ⟨followed_refl s, rfl⟩
    | some fd => exact ⟨(followed_refl s).share (allocateFd_some free).1, gains_share free⟩

theorem dceClose_openFiles_ne (look : s.openFiles.lookup (pid, fd) = some fu) (opened : fu.closing = false)
    (status : Option Errno) : (dceClose pid fd status s).1.openFiles ≠ s.openFiles := by
  refine openFiles_ne_of_lookup (pid, fd) fun same => ?_
  rw [dceClose_lookup_self look, look] at same
  split at same
  · cases same
  · have closing := congrArg FileUsage.closing (some.inj same)
    rw [opened] at closing
    cases closing

section

variable {status : Option Errno}

theorem moves_share (look : s.openFiles.lookup (pid, oldfd) = some fu) (ne : oldfd ≠ newfd)
    (others : ∀ key, key ≠ (pid, newfd) → t.openFiles.lookup key = s.openFiles.lookup key)
    (range : 0 ≤ newfd ∧ newfd < maxFds) : Moves s pid oldfd newfd (share pid newfd fu.file t) where
  others key away := (share_lookup away).trans (others key away)
  moved _ := ⟨fu, look, share_lookup_self⟩
  kept same := absurd same ne
  range := range

/-- What `Atomic` asks of `dup2`. -/
def Dup2Atomic (s : System β) (pid : Nat) (oldfd newfd : Int) (p : System β × Except Errno Int) : Prop :=
  Atomic s (.dup2 pid oldfd newfd none) (fdResult p).1 (fdResult p).2

theorem dup2Atomic_error {err : Errno} :
    Dup2Atomic s pid oldfd newfd (t, .error err) ↔ Followed s t ∧ t.openFiles = s.openFiles := by
  cases err <;> exact .rfl

theorem dup2Atomic_fails (err : Errno) : Dup2Atomic s pid oldfd newfd (s, .error err) :=
  dup2Atomic_error.mpr ⟨followed_refl s, rfl⟩

theorem not_dup2Atomic {err : Errno} (changed : t.openFiles ≠ s.openFiles) :
    ¬ Dup2Atomic s pid oldfd newfd (t, .error err) := fun atomic => changed (dup2Atomic_error.mp atomic).2

theorem dup2Atomic_ok : Dup2Atomic s pid oldfd newfd (t, .ok newfd) ↔ Followed s t ∧ Moves s pid oldfd newfd t := by
  refine ⟨fun atomic => ⟨atomic.1, atomic.2.2⟩, fun holds => ⟨holds.1, rfl, holds.2⟩⟩

theorem dup2_atomic_iff (books : Books s) :
    Dup2Atomic s pid oldfd newfd (dceDup2 pid oldfd newfd status s) ↔ Spared s (.dup2 pid oldfd newfd status) := by
  cases found : findOpen pid oldfd s with
  | none =>
    have fails : dceDup2 pid oldfd newfd status s = (s, .error .EBADF) := by rw [dceDup2, found]
    rw [fails]
    refine ⟨fun _ opened => ?_, fun _ => dup2Atomic_fails _⟩
    rw [found] at opened
    cases opened
  | some old =>
    obtain ⟨look, opened⟩ := findOpen_some found
    have isSome : (findOpen pid oldfd s).isSome := by rw [found]; rfl
    by_cases beyond : (maxFds : Int) < newfd
    · have fails : dceDup2 pid oldfd newfd status s = (s, .error .EBADF) := by
        rw [dceDup2, found]
        exact if_pos beyond
      rw [fails]
      exact ⟨fun _ _ bound => absurd beyond (Int.not_lt.mpr bound), fun _ => dup2Atomic_fails _⟩
    · have bound := Int.not_lt.mp beyond
      by_cases same : oldfd = newfd
      · have same' : dceDup2 pid oldfd newfd status s = (s, .ok newfd) := by
          rw [dceDup2, found]
          dsimp only
          rw [if_neg beyond, if_pos same]
        rw [same', dup2Atomic_ok]
        refine ⟨fun atomic _ _ _ => ⟨atomic.2.range, fun ne => absurd same ne⟩, fun spared => ?_⟩
        have range := spared isSome bound fun fu look' => by
          rw [← same, look] at look'
          cases look'
          exact opened
        exact ⟨followed_refl s, ⟨fun _ _ => rfl, fun ne => absurd same ne, fun _ => rfl, range.1⟩⟩
      · cases target : s.openFiles.lookup (pid, newfd) with
        | none =>
          rw [dup2_direct found beyond same (findOpen_absent target), dupTo_free target, dup2Atomic_ok]
          refine ⟨fun atomic _ _ _ => ⟨atomic.2.range, fun _ fu look' => ?_⟩, fun spared => ⟨?_, ?_⟩⟩
          · rw [target] at look'
            cases look'
          · exact (followed_refl s).share target
          · have range := spared isSome bound fun fu look' => by
              rw [target] at look'
              cases look'
            exact moves_share look same (fun _ _ => rfl) range.1
        | some fu =>
          cases closing : fu.closing with
          | true =>
            rw [dup2_direct found beyond same (findOpen_of_closing target closing), dupTo_taken target]
            refine ⟨fun _ _ _ open' => ?_, fun _ => dup2Atomic_fails _⟩
            exact absurd (closing.symm.trans (open' fu target)) Bool.false_ne_true.symm
          | false =>
            have target' := findOpen_eq target closing
            have others := fun key (away : key ≠ (pid, newfd)) => @dceClose_lookup β s pid newfd key away status
            have followed : Followed s (dceClose pid newfd status s).1 := (followed_refl s).dceClose books status
            have changed := dceClose_openFiles_ne target closing status
            have self := dceClose_lookup_self target status
            have open' : ∀ fu', s.openFiles.lookup (pid, newfd) = some fu' → fu'.closing = false :=
              fun fu' look' => by
              rw [target] at look'
              cases look'
              exact closing
            by_cases closes : (dceClose pid newfd status s).2 = none
            · rw [dup2_closed found beyond same target' closes]
              by_cases idle : fu.count = 0
              · rw [if_pos idle] at self
                rw [dupTo_free self, dup2Atomic_ok]
                refine ⟨fun atomic _ _ _ => ⟨atomic.2.range, fun _ fu' look' => ?_⟩, fun spared => ⟨?_, ?_⟩⟩
                · rw [target] at look'
                  cases look'
                  exact ⟨idle, (dceClose_snd target status).mp closes⟩
                · exact followed.share self
                · exact moves_share look same others (spared isSome bound open').1
              · rw [if_neg idle] at self
                rw [dupTo_taken self]
                refine ⟨fun atomic => absurd atomic (not_dup2Atomic changed), fun spared => ?_⟩
                exact absurd ((spared isSome bound open').2 same fu target).1 idle
            · obtain ⟨err, fails⟩ := dup2_refused found beyond same target' closes
              rw [fails]
              refine ⟨fun atomic => absurd atomic (not_dup2Atomic changed), fun spared => ?_⟩
              exact absurd ((dceClose_snd target status).mpr ((spared isSome bound open').2 same fu target).2) closes

end

section

variable {path : Path}

theorem dceOpen_opened (opens : path.Opens) (free : allocateFd pid s = some fd) :
    dceOpen pid path s = (install pid fd s, .ok fd) := by
  unfold dceOpen
  rcases opens with rfl | rfl
  · rw [free]
  · rw [free]

theorem dceOpen_refused (refused : path.Opens → allocateFd pid s = none) : (dceOpen pid path s).1 = s := by
  unfold dceOpen
  cases path with
  | empty => rfl
  | random => rw [refused (.inl rfl)]
  | real opened =>
    cases opened with
    | none => rw [refused (.inr rfl)]
    | some err => cases allocateFd pid s <;> rfl

theorem truncate_atomic_iff {errno : Nat} {status : Option Errno} :
    (Followed s (dceTruncate pid path errno status s).1 ∧
      (dceTruncate pid path errno status s).1.openFiles = s.openFiles) ↔
      Spared s (.truncate pid path errno status) := by
  rw [dceTruncate_fst]
  cases free : allocateFd pid s with
  | none =>
    rw [dceOpen_refused fun _ => free]
    exact ⟨fun _ _ => not_free free, fun _ => ⟨followed_refl s, rfl⟩⟩
  | some fd =>
    by_cases opens : path.Opens
    · rw [dceOpen_opened opens free]
      refine ⟨fun atomic => absurd atomic.2 (install_openFiles_ne free), fun spared => ?_⟩
      exact absurd (allocateFd_free free) (spared opens fd)
    · rw [dceOpen_refused fun opens' => absurd opens' opens]
      exact ⟨fun _ opens' => absurd opens' opens, fun _ => ⟨followed_refl s, rfl⟩⟩

/-- A socket that is opened to be asked once stays. -/
theorem query_atomic_iff (books : Books s) {created : Bool} :
    (Followed s (dceSocket pid .other .SOCK_DGRAM created s).1 ∧
      (dceSocket pid .other .SOCK_DGRAM created s).1.openFiles = s.openFiles) ↔ created = false := by
  cases created with
  | false =>
    exact ⟨fun _ => rfl, fun _ => ⟨followed_refl s, rfl⟩⟩
  | true =>
    have made : createSocket .other .SOCK_DGRAM true = true := rfl
    refine ⟨fun atomic => ?_, fun never => by cases never⟩
    cases free : allocateFd pid s with
    | none =>
      rw [dceSocket_lost made free] at atomic
      exact absurd atomic.1 (not_followed_lost books)
    | some fd =>
      rw [dceSocket_made made free] at atomic
      exact absurd atomic.2 (install_openFiles_ne free)

end

end

theorem atomic_iff_spared (books : Books s) {a : Label β} {r : Result β} (run : respond s a = some (t, r)) :
    Atomic s a t r ↔ Spared s a := by
  have result : ∀ {p : System β × Result β} {A : System β → Result β → Prop},
      some p = some (t, r) → (A p.1 p.2 ↔ Spared s a) → (A t r ↔ Spared s a) := by
    rintro p A same holds
    cases same
    exact holds
  cases a with
  | «open» pid path =>
    exact result (A := Atomic s _) run ⟨fun _ => trivial, fun _ => (dceOpen_makes pid path s).atomic⟩
  | socket pid domain type created => exact result (A := Atomic s _) run (socket_atomic_iff books rfl)
  | socketpair pid domain type first second => exact result (A := Atomic s _) run (socketpair_atomic_iff books rfl)
  | pipe pid null => exact result (A := Atomic s _) run (pipe_atomic_iff books)
  | dup pid oldfd => exact result (A := Atomic s _) run ⟨fun _ => trivial, fun _ => dup_atomic⟩
  | dup2 pid oldfd newfd status => exact result (A := Atomic s _) run (dup2_atomic_iff books)
  | truncate pid path errno status =>
    refine result (A := Atomic s _) run ?_
    rw [statusResult_fst]
    exact truncate_atomic_iff
  | ifNametoindex pid linux created index =>
    refine result (A := Atomic s _) run ?_
    show (Followed s (dceIfNametoindex pid linux created index s).1 ∧
      (dceIfNametoindex pid linux created index s).1.openFiles = s.openFiles) ↔ _
    rw [dceIfNametoindex_fst]
    cases linux with
    | false => exact ⟨fun _ never => absurd never Bool.false_ne_true, fun _ => ⟨followed_refl s, rfl⟩⟩
    | true => exact (query_atomic_iff books).trans ⟨fun refused _ => refused, fun spared => spared rfl⟩
  | ifIndextoname pid created name =>
    refine result (A := Atomic s _) run ?_
    show (Followed s (dceIfIndextoname pid created name s).1 ∧
      (dceIfIndextoname pid created name s).1.openFiles = s.openFiles) ↔ _
    rw [dceIfIndextoname_fst]
    exact query_atomic_iff books
  | method pid fd method =>
    cases method with
    | accept waiting =>
      obtain ⟨fu, look, entered⟩ := bind_eq_some_iff.mp run
      split at entered
      next =>
        refine result (A := Atomic s _) entered ⟨fun _ => trivial, fun _ => ?_⟩
        cases fu.file with
        | unixFd n => exact (accept_makes pid waiting s).atomic
        | pipeFd n e => cases e <;> exact ⟨followed_refl s, rfl⟩
      next => cases entered
    | read | write | rewrite | setfl => exact ⟨fun _ => trivial, fun _ => trivial⟩
  | close | enter | leave | pollEnter | pollLeave | fork | exit | stop => exact ⟨fun _ => trivial, fun _ => trivial⟩

theorem within_of_spared (reach : (machine β).ReachBy Spared s) : Within (fun fd => 0 ≤ fd ∧ fd < maxFds) s := by
  refine reach.invariant' (I := Within fun fd => 0 ≤ fd ∧ fd < maxFds) (fun s first => ?_)
    fun s a t before within spared step => ?_
  · rw [first]
    exact fun key present => absurd rfl present
  · obtain ⟨⟨t, r⟩, run, rfl⟩ := map_eq_some_iff.mp step
    have books := books_of_reach before
    refine (within.keeps books (fun fd start stop => ⟨start, stop⟩) fun {pid oldfd newfd status} label => ?_).respond
      within (fun _ some => books.born some) run
    subst label
    have atomic := (dup2_atomic_iff books).mpr spared
    generalize dceDup2 pid oldfd newfd status s = p at atomic ⊢
    obtain ⟨t, err | fd⟩ := p
    · have same : t.openFiles = s.openFiles := (dup2Atomic_error.mp atomic).2
      exact within.fewer fun key present => by rwa [same] at present
    · obtain ⟨-, -, moves⟩ := atomic
      exact within.more moves.range moves.others

/-- A call leaves the table and the objects as it should exactly where it is spared. -/
theorem atomicity_spared : Atomicity (β := β) Spared where
  call _ reach _ _ _ run := atomic_iff_spared (books_of_reach reach) run
  range _ reach := within_of_spared reach

/-- `truncate` of a file that is there leaves a descriptor behind. -/
theorem not_atomicity : ¬ Atomicity (β := Nat) fun _ _ => True := by
  intro atomicity
  have reach : (machine Nat).Reach .start := .start rfl
  have free : allocateFd 0 (.start : System Nat) = some 0 :=
    allocateFd_least (n := 0) (by decide) rfl fun m less => absurd less (Nat.not_lt_zero m)
  have run : respond (.start : System Nat) (.truncate 0 .random 0 none) = some (install 0 0 .start, .status 0) := by
    rw [respond, dceTruncate, dceOpen_opened (.inl rfl) free]
    rfl
  exact install_openFiles_ne free ((atomicity.call _ reach _ _ _ run).mpr trivial).2

end Dce.Descriptors
