import Dce.Descriptors.Books

/- What the calls do to the descriptors, and that the counts follow them. -/

namespace Dce.Descriptors

open AList List Option

open Pipe (End FifoBuffer pipeCapacity maxFds)

variable {β : Type*} {s t : System β} {f h : File} {pid : Nat} {fd oldfd newfd : Int} {fu : FileUsage}
  {status : Option Errno}

variable {key : Nat × Int} {old : FileUsage} {child : Nat} {fdRead fdWrite : Int} {a : Label β} {r : Result β}

section

variable (differ : key ≠ (pid, fd))
include differ

theorem share_lookup : (share pid fd f s).openFiles.lookup key = s.openFiles.lookup key :=
  lookup_insert_ne differ

omit differ in
theorem share_lookup_self : (share pid fd f s).openFiles.lookup (pid, fd) = some ⟨f, 0, 0, 0, false⟩ :=
  lookup_insert _

theorem install_lookup : (install pid fd s).openFiles.lookup key = s.openFiles.lookup key :=
  lookup_insert_ne differ

theorem release_lookup : (release pid fd fu s).openFiles.lookup key = s.openFiles.lookup key := by
  unfold release
  split
  · exact forget_lookup differ
  · exact lookup_insert_ne differ

omit differ in
theorem release_lookup_self : (release pid fd fu s).openFiles.lookup (pid, fd) =
    if fu.count = 0 then none else some { fu with closing := true } := by
  unfold release
  split
  · exact forget_lookup_self
  · exact lookup_insert _

theorem dceClose_lookup (status : Option Errno) :
    (dceClose pid fd status s).1.openFiles.lookup key = s.openFiles.lookup key := by
  cases look : s.openFiles.lookup (pid, fd) with
  | none => rw [dceClose_none look]
  | some fu =>
    by_cases last : (s.files fu.file).fdCount = 1
    · rw [dceClose_last look last]
      rw [release_lookup differ, closeFile_openFiles]
    · rw [dceClose_more look last]
      exact release_lookup differ

end

/-- `Close ()` returns 0; at an end of a pipe it finds the other end. -/
def Closes (s : System β) (status : Option Errno) : File → Prop
  | .unixFd _ => status = none
  | .pipeFd n e => (s.files (.pipeFd n e)).peer = true ∧ (s.files (.pipeFd n e.other)).frees = 0

section

variable (look : s.openFiles.lookup (pid, fd) = some fu)
include look

theorem dceClose_lookup_self (status : Option Errno) : (dceClose pid fd status s).1.openFiles.lookup (pid, fd) =
      if fu.count = 0 then none else some { fu with closing := true } := by
  by_cases last : (s.files fu.file).fdCount = 1
  · rw [dceClose_last look last]
    exact release_lookup_self
  · rw [dceClose_more look last]
    exact release_lookup_self

omit look in
theorem pipeClose_snd (n : Nat) (e : End) (status : Option Errno) (s : System β) :
    (pipeClose n e s).2 = none ↔ Closes s status (.pipeFd n e) := by
  have same : ((called (.pipeFd n e) s).files (.pipeFd n e)).peer = (s.files (.pipeFd n e)).peer := by simp [called]
  have away : File.pipeFd n e.other ≠ .pipeFd n e := by cases e <;> simp [End.other]
  have there : ((clearPeer (.pipeFd n e) (called (.pipeFd n e) s)).files (.pipeFd n e.other)).frees =
      (s.files (.pipeFd n e.other)).frees := by simp [called, clearPeer, away]
  unfold pipeClose
  dsimp only
  rw [same, there]
  split
  next linked =>
    split
    next gone => exact ⟨nofun, fun closes => absurd closes.2 gone⟩
    next left =>
      refine ⟨fun _ => ⟨linked, not_not.mp left⟩, fun _ => ?_⟩
      split <;> rfl
  next unlinked => exact ⟨nofun, fun closes => absurd closes.1 unlinked⟩

omit look in
theorem closeFile_snd (f : File) (status : Option Errno) (s : System β) :
    (closeFile f status s).2 = none ↔ Closes s status f := by
  cases f with
  | unixFd n => exact .rfl
  | pipeFd n e => exact pipeClose_snd n e status s

theorem dceClose_snd (status : Option Errno) :
    (dceClose pid fd status s).2 = none ↔ ((s.files fu.file).fdCount = 1 → Closes s status fu.file) := by
  by_cases last : (s.files fu.file).fdCount = 1
  · rw [dceClose_last look last]
    exact (closeFile_snd _ _ _).trans ⟨fun closes _ => closes, fun closes => closes last⟩
  · rw [dceClose_more look last]
    exact ⟨fun _ one => absurd one last, fun _ => rfl⟩

theorem findOpen_eq (opened : fu.closing = false) : findOpen pid fd s = some fu := by
  simp [findOpen, look, opened]

theorem findOpen_of_closing (closing : fu.closing = true) : findOpen pid fd s = none := by
  simp [findOpen, look, closing]

end

theorem findOpen_absent (absent : s.openFiles.lookup (pid, fd) = none) : findOpen pid fd s = none := by
  simp [findOpen, absent]

/-- What `dce_dup` and a `dce_dup2` that closes nothing come to. -/
inductive Dups (pid : Nat) (s : System β) : System β × Except Errno Int → Prop
  | fails (err : Errno) : Dups pid s (s, .error err)
  | same (fd : Int) : Dups pid s (s, .ok fd)
  | shares {oldfd fd : Int} {fu : FileUsage} : findOpen pid oldfd s = some fu →
      s.openFiles.lookup (pid, fd) = none → Dups pid s (share pid fd fu.file s, .ok fd)

theorem dceDup_dups (pid : Nat) (oldfd : Int) (s : System β) : Dups pid s (dceDup pid oldfd s) := by
  unfold dceDup
  cases found : findOpen pid oldfd s with
  | none => exact .fails _
  | some fu =>
    cases free : allocateFd pid s with
    | none => exact .fails _
    | some fd => exact .shares found (allocateFd_some free).1

theorem dupTo_dups (found : findOpen pid oldfd s = some fu) : Dups pid s (dupTo pid newfd fu.file s) := by
  unfold dupTo
  split
  next => exact .fails _
  next absent => exact .shares found (not_isSome_iff_eq_none.mp absent)

/-- `dce_dup2` looks at its target. -/
structure Redirects (pid : Nat) (oldfd newfd : Int) (s : System β) : Prop where
  opened : (findOpen pid oldfd s).isSome
  bound : newfd ≤ maxFds
  differ : oldfd ≠ newfd

/-- What `dce_dup2` comes to. -/
inductive Dup2 (pid : Nat) (oldfd newfd : Int) (status : Option Errno) (s : System β) :
    System β × Except Errno Int → Prop
  | direct {r : System β × Except Errno Int} : Dups pid s r → Dup2 pid oldfd newfd status s r
  | refused {fu : FileUsage} (err : Errno) : Redirects pid oldfd newfd s → findOpen pid newfd s = some fu →
      Dup2 pid oldfd newfd status s ((dceClose pid newfd status s).1, .error err)
  | closed {fu : FileUsage} {r : System β × Except Errno Int} : Redirects pid oldfd newfd s →
      findOpen pid newfd s = some fu → Dups pid (dceClose pid newfd status s).1 r → Dup2 pid oldfd newfd status s r

theorem dceDup2_dup2 (pid : Nat) (oldfd newfd : Int) (status : Option Errno) (s : System β) :
    Dup2 pid oldfd newfd status s (dceDup2 pid oldfd newfd status s) := by
  unfold dceDup2
  cases found : findOpen pid oldfd s with
  | none => exact .direct (.fails _)
  | some fu =>
    dsimp only
    split
    next => exact .direct (.fails _)
    next bound =>
      split
      next => exact .direct (.same _)
      next ne =>
        have redirects : Redirects pid oldfd newfd s := ⟨by rw [found]; rfl, Int.not_lt.mp bound, ne⟩
        cases target : findOpen pid newfd s with
        | none => exact .direct (dupTo_dups found)
        | some old =>
          have kept : findOpen pid oldfd (dceClose pid newfd status s).1 = some fu := by
            rw [findOpen, dceClose_lookup (by simpa using ne)]
            exact found
          cases result : dceClose pid newfd status s with
          | mk t retval =>
            obtain rfl : (dceClose pid newfd status s).1 = t := by rw [result]
            cases retval with
            | some err => cases err <;> exact .refused _ redirects target
            | none => exact .closed redirects target (dupTo_dups kept)

section

variable (found : findOpen pid oldfd s = some old) (bound : ¬ (maxFds : Int) < newfd) (differ : oldfd ≠ newfd)
include found bound differ

theorem dup2_closed (target : findOpen pid newfd s = some fu) (closes : (dceClose pid newfd status s).2 = none) :
    dceDup2 pid oldfd newfd status s = dupTo pid newfd old.file (dceClose pid newfd status s).1 := by
  rw [dceDup2, found]
  dsimp only
  rw [if_neg bound, if_neg differ, target, isSome_some]
  generalize dceClose pid newfd status s = p at closes ⊢
  obtain ⟨t, r⟩ := p
  obtain rfl : r = none := closes
  rfl

theorem dup2_refused (target : findOpen pid newfd s = some fu) (fails : (dceClose pid newfd status s).2 ≠ none) :
    ∃ err, dceDup2 pid oldfd newfd status s = ((dceClose pid newfd status s).1, .error err) := by
  rw [dceDup2, found]
  dsimp only
  rw [if_neg bound, if_neg differ, target, isSome_some]
  generalize dceClose pid newfd status s = p at fails ⊢
  obtain ⟨t, r⟩ := p
  obtain ⟨err, rfl⟩ := ne_none_iff_exists'.mp fails
  cases err <;> exact ⟨_, rfl⟩

theorem dup2_direct (target : findOpen pid newfd s = none) :
    dceDup2 pid oldfd newfd status s = dupTo pid newfd old.file s := by
  rw [dceDup2, found]
  dsimp only
  rw [if_neg bound, if_neg differ, target, isSome_none, if_neg Bool.false_ne_true]

end

theorem dupTo_free (absent : s.openFiles.lookup (pid, fd) = none) :
    dupTo pid fd f s = (share pid fd f s, .ok fd) := by
  rw [dupTo, absent]
  rfl

theorem dupTo_taken (look : s.openFiles.lookup (pid, fd) = some fu) : dupTo pid fd f s = (s, .error .EBADF) := by
  rw [dupTo, look]
  rfl

theorem mem_fdsOf : fd ∈ fdsOf pid s ↔ s.openFiles.lookup (pid, fd) ≠ none := by
  rw [fdsOf, List.mem_insertionSort, List.mem_map]
  constructor
  · rintro ⟨⟨q, x⟩, mem, rfl⟩
    obtain ⟨present, own⟩ := mem_filter.mp mem
    obtain rfl : q = pid := by simpa using own
    exact lookup_eq_none.not.mpr (not_not.mpr (mem_keys.mpr present))
  · intro present
    have mem := not_not.mp (lookup_eq_none.not.mp present)
    exact ⟨(pid, fd), mem_filter.mpr ⟨mem_keys.mp mem, by simp⟩, rfl⟩

theorem nodup_fdsOf (pid : Nat) (s : System β) : (fdsOf pid s).Nodup := by
  refine (perm_insertionSort _ _).nodup_iff.mpr ?_
  refine Nodup.map_on ?_ (s.openFiles.keys_nodup.filter _)
  rintro ⟨p, x⟩ first ⟨q, y⟩ second same
  obtain ⟨-, own⟩ := mem_filter.mp first
  obtain ⟨-, also⟩ := mem_filter.mp second
  obtain rfl : p = pid := by simpa using own
  obtain rfl : q = p := by simpa using also
  exact Prod.ext rfl same

theorem clone_keeps {I : System β → Prop} (start : I s) (absent : ∀ fd, s.openFiles.lookup (child, fd) = none)
    (keep : ∀ t fd fu, I t → t.openFiles.lookup (pid, fd) = some fu → t.openFiles.lookup (child, fd) = none →
      I (share child fd fu.file t)) : I (clone pid child s) := by
  have copies : ∀ f : System β → Int → System β, (∀ t fd, t.openFiles.lookup (pid, fd) = none → f t fd = t) →
      (∀ t fd fu, t.openFiles.lookup (pid, fd) = some fu → f t fd = share child fd fu.file t) →
      ∀ (l : List Int) (t : System β), l.Nodup → I t → (∀ fd ∈ l, t.openFiles.lookup (child, fd) = none) →
      I (l.foldl f t) := by
    intro f skips shares l
    induction l with
    | nil => exact fun t _ here _ => here
    | cons fd l ih =>
      intro t nodup here free
      obtain ⟨notMem, nodup⟩ := nodup_cons.mp nodup
      rw [foldl_cons]
      cases look : t.openFiles.lookup (pid, fd) with
      | none =>
        rw [skips t fd look]
        exact ih t nodup here fun other mem => free other (mem_cons_of_mem _ mem)
      | some fu =>
        rw [shares t fd fu look]
        refine ih _ nodup (keep t fd fu here look (free fd mem_cons_self)) fun other mem => ?_
        have ne : (child, other) ≠ (child, fd) := fun same => by
          obtain rfl : other = fd := by simpa using same
          exact notMem mem
        rw [share_lookup ne]
        exact free other (mem_cons_of_mem _ mem)
  refine copies _ ?_ ?_ _ s (nodup_fdsOf pid s) start fun fd _ => absent fd
  · intro t fd look
    rw [look]
  · intro t fd fu look
    rw [look]

theorem exit_keeps {I : System β → Prop} (start : I s)
    (keep : ∀ t fd, I t → I (dceClose pid fd none (nullifyUsage pid fd t)).1) : I (exit pid s) :=
  List.foldlRecOn _ _ start fun t here fd _ => keep t fd here

theorem stop_keeps {I : System β → Prop} (start : I s) (keep : ∀ t fd, I t → I (forget pid fd t)) : I (stop pid s) :=
  List.foldlRecOn _ _ start fun t here fd _ => keep t fd here

theorem descriptors_madePipe (free : s.openFiles.lookup (pid, fdRead) = none)
    (ne : fdWrite ≠ fdRead) (absent : s.openFiles.lookup (pid, fdWrite) = none) :
    descriptors f (madePipe pid fdRead fdWrite s) = descriptors f s +
      (if .pipeFd s.next .read = f then 1 else 0) + if .pipeFd s.next .write = f then 1 else 0 := by
  have second : (pid, fdWrite) ∉ s.openFiles.insert (pid, fdRead) ⟨.pipeFd s.next .read, 0, 0, 0, false⟩ := by
    rw [← lookup_eq_none, lookup_insert_ne (by simpa using ne), absent]
  refine (Table.tally_insert second).trans ?_
  rw [Table.tally_insert (lookup_eq_none.mp free)]
  simp [descriptors]

theorem Each.madePipe {P Q : File → UnixFd β → Nat → Prop} (each : Each P s)
    (free : s.openFiles.lookup (pid, fdRead) = none) (ne : fdWrite ≠ fdRead)
    (absent : s.openFiles.lookup (pid, fdWrite) = none) (weaker : ∀ f u n, P f u n → Q f u n)
    (ends : ∀ e, P (.pipeFd s.next e) (s.files (.pipeFd s.next e)) (descriptors (.pipeFd s.next e) s) →
      Q (.pipeFd s.next e) newEnd (descriptors (.pipeFd s.next e) s + 1)) :
    Each Q (madePipe pid fdRead fdWrite s) := by
  intro f
  rw [descriptors_madePipe free ne absent]
  by_cases isWriter : f = .pipeFd s.next .write
  · subst isWriter
    simpa [Descriptors.madePipe] using ends .write (each _)
  · by_cases isReader : f = .pipeFd s.next .read
    · subst isReader
      simpa [Descriptors.madePipe] using ends .read (each _)
    · have same : (Descriptors.madePipe pid fdRead fdWrite s).files f = s.files f := by
        simp [Descriptors.madePipe, isWriter, isReader]
      rw [same, if_neg (Ne.symm isReader), if_neg (Ne.symm isWriter)]
      exact weaker _ _ _ (each f)

section

variable (books : Books s)
include books

section

variable (free : s.openFiles.lookup (pid, fdRead) = none)
include free

theorem Books.madePipe (ne : fdWrite ≠ fdRead) (absent : s.openFiles.lookup (pid, fdWrite) = none) :
    Books (madePipe pid fdRead fdWrite s) := by
  refine Each.madePipe books free ne absent (fun _ _ _ booked => booked.mono (Nat.le_succ _)) fun e booked => ?_
  rw [(booked.unborn le_rfl).2]
  exact ⟨fun _ => ⟨rfl, rfl, rfl, rfl⟩, fun later => absurd later (Nat.not_succ_le_self _)⟩

omit books in
theorem descriptors_brokenPipe : descriptors f (brokenPipe pid fdRead s) = descriptors f s := by
  have whole := Table.tally_erase (p := fun fu => decide (fu.file = f))
    (lookup_insert (b := (⟨.pipeFd s.next .read, 0, 0, 0, false⟩ : FileUsage)) (a := (pid, fdRead)) s.openFiles)
  rw [Table.tally_insert (lookup_eq_none.mp free)] at whole
  exact (Nat.add_right_cancel whole).symm

theorem Books.brokenPipe : Books (brokenPipe pid fdRead s) := by
  intro f
  rw [descriptors_brokenPipe free]
  by_cases isReader : f = .pipeFd s.next .read
  · subst isReader
    have none := ((books (.pipeFd s.next .read)).unborn le_rfl).2
    exact ⟨fun some => absurd none (by omega), fun later => absurd later (Nat.not_succ_le_self _)⟩
  · have same : (Descriptors.brokenPipe pid fdRead s).files f = s.files f := by
      simp [Descriptors.brokenPipe, isReader]
    rw [same]
    exact (books f).mono (Nat.le_succ _)

end

theorem Books.pipes (pid : Nat) (null : Bool) : Books (dcePipe pid null s).1 := by
  have pipes := dcePipe_pipes books pid null
  generalize dcePipe pid null s = p at pipes ⊢
  cases pipes with
  | fails => exact books
  | opened free ne absent => exact books.madePipe (allocateFd_some free).1 ne absent
  | broken _ free => exact books.brokenPipe (allocateFd_some free).1

theorem Books.dups {p : System β × Except Errno Int} (dups : Dups pid s p) : Books p.1 := by
  cases dups with
  | fails => exact books
  | same => exact books
  | shares found absent => exact books.share absent (descriptors_pos (findOpen_some found).1)

theorem Books.dup2 (pid : Nat) (oldfd newfd : Int) (status : Option Errno) :
    Books (dceDup2 pid oldfd newfd status s).1 := by
  have dup2 := dceDup2_dup2 pid oldfd newfd status s
  generalize dceDup2 pid oldfd newfd status s = p at dup2 ⊢
  cases dup2 with
  | direct dups => exact books.dups dups
  | refused => exact books.dceClose pid newfd status
  | closed _ _ dups => exact (books.dceClose pid newfd status).dups dups

theorem Books.nullifyUsage (pid : Nat) (fd : Int) : Books (nullifyUsage pid fd s) := by
  unfold Descriptors.nullifyUsage
  cases look : s.openFiles.lookup (pid, fd) with
  | none => exact books
  | some fu => exact books.usage look rfl

theorem Books.clone (absent : ∀ fd, s.openFiles.lookup (child, fd) = none) : Books (clone pid child s) :=
  clone_keeps books absent fun _ _ _ here look free => here.share free (descriptors_pos look)

theorem Books.exit (pid : Nat) : Books (exit pid s) :=
  exit_keeps books fun _ fd here => (here.nullifyUsage pid fd).dceClose pid fd none

theorem Books.stop (pid : Nat) : Books (stop pid s) :=
  stop_keeps books fun _ _ here => here.forget

theorem Books.decUsage (look : s.openFiles.lookup (pid, fd) = some fu) : Books (decUsage pid fd fu s) := by
  have used : Books (Descriptors.setUsage pid fd { fu with calls := fu.calls - 1 } s) := books.usage look rfl
  unfold Descriptors.decUsage
  dsimp only
  split
  · exact used.forget
  · exact used

end

theorem fdResult_fst (p : System β × Except Errno Int) : (fdResult p).1 = p.1 := by
  obtain ⟨s, err | fd⟩ := p <;> rfl

theorem pairResult_fst (p : System β × Except Errno (Int × Int)) : (pairResult p).1 = p.1 := by
  obtain ⟨s, err | fds⟩ := p <;> rfl

theorem statusResult_fst (p : System β × Option Errno) : (statusResult p).1 = p.1 := by
  obtain ⟨s, _ | err⟩ := p <;> rfl

section

variable (pid : Nat)

theorem dceSocketpair_fst (domain : Domain) (type : SocketType) (first second : Bool) (s : System β) :
    (dceSocketpair pid domain type first second s).1 = (dceSocket pid domain type first s).1 ∨
      (dceSocketpair pid domain type first second s).1 =
        (dceSocket pid domain type second (dceSocket pid domain type first s).1).1 := by
  unfold dceSocketpair
  obtain ⟨t, err | sv₀⟩ := dceSocket pid domain type first s
  · exact .inl rfl
  · right
    dsimp only
    obtain ⟨u, err | sv₁⟩ := dceSocket pid domain type second t <;> rfl

theorem dceTruncate_fst (path : Path) (errno : Nat) (status : Option Errno) (s : System β) :
    (dceTruncate pid path errno status s).1 = (dceOpen pid path s).1 := by
  unfold dceTruncate
  obtain ⟨t, err | fd⟩ := dceOpen pid path s <;> rfl

theorem dceIfNametoindex_fst (linux created : Bool) (index : Int) (s : System β) :
    (dceIfNametoindex pid linux created index s).1 = if linux then (dceSocket pid .other .SOCK_DGRAM created s).1
    else s := by
  unfold dceIfNametoindex
  split
  · obtain ⟨t, err | fd⟩ := dceSocket pid .other .SOCK_DGRAM created s <;> rfl
  · rfl

theorem dceIfIndextoname_fst (created : Bool) (name : Option (List β)) (s : System β) :
    (dceIfIndextoname pid created name s).1 = (dceSocket pid .other .SOCK_DGRAM created s).1 := by
  unfold dceIfIndextoname
  obtain ⟨t, err | fd⟩ := dceSocket pid .other .SOCK_DGRAM created s <;> rfl

theorem known_connectors {waiting : Waiting} (known : (Method.accept waiting : Method β).Known s) :
    ∀ connector ∈ waiting.connectors, connector.1 < s.next := by
  cases waiting with
  | fails | connection => exact forall_mem_nil _
  | queued connectors => exact known

/-- Only the buffer or the flags of an object change. -/
structure Inert (g : UnixFd β → UnixFd β) : Prop where
  fdCount : ∀ u, (g u).fdCount = u.fdCount
  ref : ∀ u, (g u).ref = u.ref
  peer : ∀ u, (g u).peer = u.peer
  given : ∀ u, (g u).given = u.given
  closes : ∀ u, (g u).closes = u.closes
  frees : ∀ u, (g u).frees = u.frees

theorem inert_buf (buf : FifoBuffer pipeCapacity β) : Inert fun u : UnixFd β => { u with buf := buf } :=
  ⟨fun _ => rfl, fun _ => rfl, fun _ => rfl, fun _ => rfl, fun _ => rfl, fun _ => rfl⟩

theorem inert_nonblock (nonblock : Bool) : Inert fun u : UnixFd β => { u with nonblock := nonblock } :=
  ⟨fun _ => rfl, fun _ => rfl, fun _ => rfl, fun _ => rfl, fun _ => rfl, fun _ => rfl⟩

theorem doRecvPacket_touches (n : Nat) (data : List β) (s : System β) : (doRecvPacket n data s).1 = s ∨
    ∃ g, Inert g ∧ (doRecvPacket n data s).1 = update (.pipeFd n .read) g s := by
  unfold doRecvPacket
  dsimp only
  split
  · exact .inl rfl
  · split
    · exact .inr ⟨_, inert_buf _, rfl⟩
    · split
      · exact .inl rfl
      · split <;> exact .inl rfl

theorem pipeRead_touches (n count : Nat) (s : System β) : (pipeRead n count s).1 = s ∨
    ∃ g, Inert g ∧ (pipeRead n count s).1 = update (.pipeFd n .read) g s := by
  unfold pipeRead
  dsimp only
  split
  · split
    · exact .inl rfl
    · exact .inr ⟨_, inert_buf _, rfl⟩
  · split
    · exact .inl rfl
    · split <;> exact .inl rfl

theorem pipeWrite_touches (n : Nat) (e : End) (data : List β) (s : System β) : (pipeWrite n e data s).1 = s ∨
    ∃ g, Inert g ∧ (pipeWrite n e data s).1 = update (.pipeFd n .read) g s := by
  unfold pipeWrite
  split
  · cases e with
    | read => exact .inl rfl
    | write => exact doRecvPacket_touches n data s
  · exact .inl rfl

theorem runMethod_touches (f : File) (method : Method β) (s : System β) : (runMethod pid f method s).1 = s ∨
      (∃ h g, h.number = f.number ∧ Inert g ∧ (runMethod pid f method s).1 = update h g s) ∨
      ∃ waiting, method = .accept waiting ∧ (runMethod pid f method s).1 = (accept pid waiting s).1 := by
  have among : ∀ {n : Nat} {e : End} {t : System β}, (t = s ∨ ∃ g, Inert g ∧ t = update (.pipeFd n .read) g s) →
      t = s ∨ (∃ h g, h.number = (File.pipeFd n e).number ∧ Inert g ∧ t = update h g s) ∨
        ∃ waiting, method = .accept waiting ∧ t = (accept pid waiting s).1 := by
    rintro n e t (same | ⟨g, inert, same⟩)
    · exact .inl same
    · exact .inr (.inl ⟨.pipeFd n .read, g, rfl, inert, same⟩)
  cases f with
  | unixFd n =>
    cases method with
    | accept waiting => exact .inr (.inr ⟨waiting, rfl, fdResult_fst _⟩)
    | read count | write data | rewrite data | setfl nonblock => exact .inl rfl
  | pipeFd n e =>
    cases method with
    | read count =>
      cases e with
      | read => exact among (pipeRead_touches n count s)
      | write => exact .inl rfl
    | write data => cases e <;> exact among (pipeWrite_touches n _ data s)
    | rewrite data =>
      cases e with
      | read => exact .inl rfl
      | write => exact among (doRecvPacket_touches n data s)
    | setfl nonblock => cases e <;> exact .inr (.inl ⟨_, _, rfl, inert_nonblock nonblock, rfl⟩)
    | accept waiting => cases e <;> exact .inl rfl

end

/-- What has to be shown of `I` for the step `a` from `s` to keep it, once for all calls of a kind. -/
structure Keeps (I : System β → Prop) (s : System β) (a : Label β) : Prop where
  makes : ∀ {pid loses connectors} {u : System β} {p}, I u → (∀ c ∈ connectors, c.1 < u.next) →
    (connectors ≠ [] → u = s ∧ ∃ fd waiting, a = .method pid fd (.accept waiting) ∧
      connectors = waiting.connectors) →
    Makes pid loses connectors u p → I p.1
  pipe : ∀ {pid null}, a = .pipe pid null → I (dcePipe pid null s).1
  dup : ∀ {pid oldfd fd fu}, findOpen pid oldfd s = some fu → allocateFd pid s = some fd → I (share pid fd fu.file s)
  dup2 : ∀ {pid oldfd newfd status}, a = .dup2 pid oldfd newfd status → I (dceDup2 pid oldfd newfd status s).1
  close : ∀ {pid fd status}, a = .close pid fd status → I (dceClose pid fd status s).1
  enters : ∀ {pid fd fu} {now : FileUsage}, findOpen pid fd s = some fu → now.file = fu.file →
    now.closing = fu.closing → I (setUsage pid fd now s)
  leave : ∀ {pid fd fu}, a = .leave pid fd → s.openFiles.lookup (pid, fd) = some fu → 0 < fu.calls →
    I (decUsage pid fd fu s)
  pollLeave : ∀ {pid fd fu}, a = .pollLeave pid fd → s.openFiles.lookup (pid, fd) = some fu → 0 < fu.polls →
    I (pollLeave pid fd fu s)
  touches : ∀ {f g}, f.number < s.next → Inert g → I (update f g s)
  fork : ∀ {pid child}, a = .fork pid child → (∀ fd, s.openFiles.lookup (child, fd) = none) → I (clone pid child s)
  exit : ∀ {pid}, a = .exit pid → I (exit pid s)
  stop : ∀ {pid}, a = .stop pid → I (stop pid s)

theorem Keeps.respond {I : System β → Prop} (keeps : Keeps I s a) (here : I s)
    (born : ∀ f, 0 < descriptors f s → f.number < s.next) (run : respond s a = some (t, r)) : I t := by
  have result : ∀ {p : System β × Result β}, some p = some (t, r) → I p.1 → I t := by
    rintro p same holds
    cases same
    exact holds
  have opens : ∀ {pid loses} {u : System β} {p}, I u → Makes pid loses [] u p → I p.1 := fun holds makes =>
    keeps.makes holds (forall_mem_nil _) (absurd rfl) makes
  cases a with
  | «open» pid path =>
    refine result run ?_
    rw [fdResult_fst]
    exact opens here (dceOpen_makes pid path s)
  | socket pid domain type created =>
    refine result run ?_
    rw [fdResult_fst]
    exact opens here (dceSocket_makes pid domain type created s)
  | socketpair pid domain type first second =>
    refine result run ?_
    rw [pairResult_fst]
    have one := opens here (dceSocket_makes pid domain type first s)
    rcases dceSocketpair_fst pid domain type first second s with same | same
    · rwa [same]
    · rw [same]
      exact opens one (dceSocket_makes pid domain type second _)
  | pipe pid null =>
    refine result run ?_
    rw [pairResult_fst]
    exact keeps.pipe rfl
  | dup pid oldfd =>
    refine result run ?_
    rw [dceDup]
    cases found : findOpen pid oldfd s with
    | none => exact here
    | some fu =>
      cases free : allocateFd pid s with
      | none => exact here
      | some fd => exact keeps.dup found free
  | dup2 pid oldfd newfd status =>
    refine result run ?_
    rw [fdResult_fst]
    exact keeps.dup2 rfl
  | truncate pid path errno status =>
    refine result run ?_
    rw [statusResult_fst, dceTruncate_fst]
    exact opens here (dceOpen_makes pid path s)
  | ifNametoindex pid linux created index =>
    refine result run ?_
    show I (dceIfNametoindex pid linux created index s).1
    rw [dceIfNametoindex_fst]
    split
    · exact opens here (dceSocket_makes pid .other .SOCK_DGRAM created s)
    · exact here
  | ifIndextoname pid created name =>
    refine result run ?_
    show I (dceIfIndextoname pid created name s).1
    rw [dceIfIndextoname_fst]
    exact opens here (dceSocket_makes pid .other .SOCK_DGRAM created s)
  | close pid fd status =>
    refine result run ?_
    rw [statusResult_fst]
    exact keeps.close rfl
  | enter pid fd =>
    refine result run ?_
    unfold incUsage
    cases found : findOpen pid fd s with
    | none => exact here
    | some fu => exact keeps.enters found rfl rfl
  | method pid fd method =>
    obtain ⟨fu, look, entered⟩ := bind_eq_some_iff.mp run
    split at entered
    next inside =>
      refine result entered ?_
      rcases runMethod_touches pid fu.file method s with same | ⟨h, g, near, inert, same⟩ | ⟨waiting, rfl, same⟩
      · rwa [same]
      · rw [same]
        exact keeps.touches (by rw [near]; exact born _ (descriptors_pos look)) inert
      · rw [same]
        exact keeps.makes here (known_connectors inside.2) (fun _ => ⟨rfl, fd, waiting, rfl, rfl⟩)
          (accept_makes pid waiting s)
    next => cases entered
  | leave pid fd =>
    obtain ⟨fu, look, left⟩ := bind_eq_some_iff.mp run
    split at left
    next inside => exact result left (keeps.leave rfl look inside)
    next => cases left
  | pollEnter pid fd again =>
    refine result run ?_
    unfold pollEnter
    cases found : findOpen pid fd s with
    | none => exact here
    | some fu => exact keeps.enters found rfl rfl
  | pollLeave pid fd =>
    obtain ⟨fu, look, left⟩ := bind_eq_some_iff.mp run
    split at left
    next inside => exact result left (keeps.pollLeave rfl look inside)
    next => cases left
  | fork pid child =>
    dsimp only [Descriptors.respond] at run
    split at run
    next free =>
      refine result run (keeps.fork rfl fun fd => ?_)
      by_contra present
      exact free _ (not_not.mp (lookup_eq_none.not.mp present)) rfl
    next => cases run
  | exit pid => exact result run (keeps.exit rfl)
  | stop pid => exact result run (keeps.stop rfl)

theorem Books.keeps (books : Books s) (a : Label β) : Keeps Books s a where
  makes here known _ makes := here.makes known makes
  pipe _ := books.pipes _ _
  dup found free := books.share (allocateFd_some free).1 (descriptors_pos (findOpen_some found).1)
  dup2 _ := books.dup2 _ _ _ _
  close _ := books.dceClose _ _ _
  enters found file _ := books.usage (findOpen_some found).1 file
  leave _ look _ := books.decUsage look
  pollLeave _ look _ := books.usage look rfl
  touches born inert := books.update born inert.fdCount inert.ref inert.frees inert.given
  fork _ absent := books.clone absent
  exit _ := books.exit _
  stop _ := books.stop _

theorem Books.respond (books : Books s) (run : respond s a = some (t, r)) : Books t :=
  (books.keeps a).respond books (fun _ some => books.born some) run

theorem books_start : Books (.start : System β) := by
  intro f
  exact ⟨fun some => absurd some (lt_irrefl 0), fun _ => ⟨rfl, rfl⟩⟩

theorem books_of_reach {C : System β → Label β → Prop} (reach : (machine β).ReachBy C s) : Books s := by
  refine reach.invariant (I := Books) (fun s first => ?_) fun s a t books _ step => ?_
  · rw [first]
    exact books_start
  · obtain ⟨⟨t, r⟩, run, rfl⟩ := map_eq_some_iff.mp step
    exact books.respond run

theorem dupTo_lookup (ne : key ≠ (pid, newfd)) :
    (dupTo pid newfd f s).1.openFiles.lookup key = s.openFiles.lookup key := by
  unfold dupTo
  split
  · rfl
  · exact share_lookup ne

theorem dceDup2_lookup (ne : key ≠ (pid, newfd)) :
    (dceDup2 pid oldfd newfd status s).1.openFiles.lookup key = s.openFiles.lookup key := by
  unfold dceDup2
  cases findOpen pid oldfd s with
  | none => rfl
  | some fu =>
    dsimp only
    split
    · rfl
    · split
      · rfl
      · split
        · have closed := dceClose_lookup (s := s) ne status
          generalize dceClose pid newfd status s = p at closed ⊢
          obtain ⟨t, _ | err⟩ := p
          · exact (dupTo_lookup ne).trans closed
          · cases err <;> exact closed
        · exact dupTo_lookup ne

theorem dceDup2_beyond (beyond : (maxFds : Int) < newfd) : (dceDup2 pid oldfd newfd status s).1 = s := by
  unfold dceDup2
  cases findOpen pid oldfd s with
  | none => rfl
  | some fu =>
    dsimp only
    rw [if_pos beyond]

section

variable {Q : Int → Prop}

/-- All descriptors satisfy `Q`. -/
def Within (Q : Int → Prop) (s : System β) : Prop := ∀ key, s.openFiles.lookup key ≠ none → Q key.2

section

variable (within : Within Q s)
include within

theorem Within.fewer (fewer : ∀ key, t.openFiles.lookup key ≠ none → s.openFiles.lookup key ≠ none) : Within Q t :=
  fun key present => within key (fewer key present)

theorem Within.more (here : Q fd)
    (more : ∀ key, key ≠ (pid, fd) → t.openFiles.lookup key = s.openFiles.lookup key) : Within Q t := by
  intro key present
  by_cases same : key = (pid, fd)
  · rw [same]
    exact here
  · rw [more key same] at present
    exact within key present

theorem Within.usage {old : FileUsage} (look : s.openFiles.lookup (pid, fd) = some old) :
    Within Q (setUsage pid fd fu s) := by
  refine within.more (within (pid, fd) ?_) fun key ne => lookup_insert_ne ne
  rw [look]
  exact some_ne_none old

theorem Within.forget : Within Q (forget pid fd s) := by
  refine within.fewer fun key present => ?_
  by_cases same : key = (pid, fd)
  · rw [same, forget_lookup_self] at present
    exact absurd rfl present
  · rwa [forget_lookup same] at present

theorem Within.dceClose (status : Option Errno) : Within Q (dceClose pid fd status s).1 := by
  refine within.fewer fun key present => ?_
  by_cases same : key = (pid, fd)
  · subst same
    intro absent
    rw [dceClose_none absent] at present
    exact present absent
  · rwa [dceClose_lookup same] at present

theorem Within.keeps (books : Books s) {a : Label β} (allocated : ∀ fd : Int, 0 ≤ fd → fd < maxFds → Q fd)
    (dup2 : ∀ {pid oldfd newfd status}, a = .dup2 pid oldfd newfd status →
      Within Q (dceDup2 pid oldfd newfd status s).1) : Keeps (Within Q) s a where
  makes here _ _ makes := by
    cases makes with
    | fails => exact here
    | made free =>
      obtain ⟨-, start, stop⟩ := allocateFd_some free
      exact here.more (allocated _ start stop) fun key ne => install_lookup ne
    | lost => exact here
    | hangs => exact here
  pipe {pid null} _ := by
    have pipes := dcePipe_pipes books pid null
    generalize dcePipe pid null s = p at pipes ⊢
    cases pipes with
    | fails => exact within
    | @opened fdRead fdWrite free ne absent start stop =>
      obtain ⟨-, start', stop'⟩ := allocateFd_some free
      have first : Within Q (Descriptors.setUsage pid fdRead ⟨.pipeFd s.next .read, 0, 0, 0, false⟩ s) :=
        within.more (allocated _ start' stop') fun key ne => lookup_insert_ne ne
      exact first.more (t := Descriptors.madePipe pid fdRead fdWrite s) (allocated _ start stop)
        fun key ne => lookup_insert_ne ne
    | @broken fdRead _ free _ =>
      refine within.fewer fun key present => ?_
      by_cases same : key = (pid, fdRead)
      · rw [same] at present
        exact absurd (lookup_erase _ _) present
      · exact fun absent => present ((lookup_erase_ne same).trans ((lookup_insert_ne same).trans absent))
  dup _ free := by
    obtain ⟨-, start, stop⟩ := allocateFd_some free
    exact within.more (allocated _ start stop) fun key ne => share_lookup ne
  dup2 := dup2
  close _ := within.dceClose _
  enters found _ _ := within.usage (findOpen_some found).1
  leave _ look _ := by
    unfold Descriptors.decUsage
    dsimp only
    split
    · exact (within.usage look).forget
    · exact within.usage look
  pollLeave _ look _ := within.usage look
  touches _ _ := within
  fork {pid child} _ absent := clone_keeps within absent fun t fd fu here look _ => by
    have range := here (pid, fd) (by rw [look]; exact some_ne_none fu)
    exact here.more range fun key ne => @share_lookup β t fu.file child fd key ne
  exit {pid} _ := exit_keeps within fun t fd here => by
    refine Within.dceClose ?_ none
    unfold Descriptors.nullifyUsage
    cases look : t.openFiles.lookup (pid, fd) with
    | none => exact here
    | some fu => exact here.usage look
  stop _ := stop_keeps within fun _ _ here => here.forget

end

/-- No descriptor is beyond what `dce_dup2` accepts. -/
theorem within_of_reach {C : System β → Label β → Prop} (reach : (machine β).ReachBy C s) :
    Within (fun fd => fd ≤ maxFds) s := by
  refine reach.invariant'
    (I := Within fun fd => fd ≤ maxFds) (fun s first => ?_) fun s a t before within _ step => ?_
  · rw [first]
    exact fun key present => absurd rfl present
  · obtain ⟨⟨t, r⟩, run, rfl⟩ := map_eq_some_iff.mp step
    have books := books_of_reach before
    refine (within.keeps books (fun fd _ stop => Int.le_of_lt stop) fun {pid oldfd newfd status} _ =>
      ?_).respond within
      (fun _ some => books.born some) run
    by_cases bound : newfd ≤ maxFds
    · exact within.more bound fun key ne => dceDup2_lookup ne
    · rw [dceDup2_beyond (Int.not_le.mp bound)]
      exact within

end

end Dce.Descriptors
