import Dce.Descriptors.Model

/- The counts of an object against the descriptors that it has. -/

namespace Dce.Descriptors

open Pipe (End FifoBuffer pipeCapacity maxFds)

variable {β : Type*} {s t : System β} {f h : File} {pid : Nat} {fd : Int} {fu : FileUsage}
  {P : File → UnixFd β → Nat → Prop}

/-- How many `FileUsage` of all processes refer to `f`. -/
def descriptors (f : File) (s : System β) : Nat := Table.tally (fun fu => decide (fu.file = f)) s.openFiles

theorem descriptors_pos (look : s.openFiles.lookup (pid, fd) = some fu) : 0 < descriptors fu.file s :=
  Table.tally_pos look (decide_eq_true rfl)

variable {old : FileUsage} {g : UnixFd β → UnixFd β} {k n : Nat} {u : UnixFd β}

theorem descriptors_setUsage (look : s.openFiles.lookup (pid, fd) = some old)
    (same : fu.file = old.file) : descriptors f (setUsage pid fd fu s) = descriptors f s :=
  Table.tally_replace look (by rw [same])

theorem descriptors_newFileUsage (absent : s.openFiles.lookup (pid, fd) = none) :
    descriptors h (newFileUsage pid fd f s) = descriptors h s + if f = h then 1 else 0 := by
  refine (Table.tally_insert (AList.lookup_eq_none.mp absent)).trans ?_
  simp [descriptors]

/-- What the deletion of a `FileUsage` makes of its object. -/
def UnixFd.dropped (u : UnixFd β) : UnixFd β :=
  { u with
    fdCount := u.fdCount - 1
    ref := u.ref - 1
    frees := if u.ref - 1 = 0 then u.frees + 1 else u.frees }

theorem unref_files (f : File) (s : System β) : (unref f (decFdCount f s)).files =
    Function.update s.files f (s.files f).dropped := by
  funext h
  unfold unref
  dsimp only
  by_cases same : h = f
  · subst same
    split
    next zero =>
      simp only [decFdCount, update_self] at zero
      simp [destroy, decFdCount, UnixFd.dropped, zero]
    next some =>
      simp only [decFdCount, update_self] at some
      simp [decFdCount, UnixFd.dropped, some]
  · split
    · simp [destroy, decFdCount, same]
    · simp [decFdCount, same]

theorem unref_openFiles (f : File) (s : System β) : (unref f s).openFiles = s.openFiles := by
  unfold unref
  dsimp only
  split <;> rfl

theorem unref_next (f : File) (s : System β) : (unref f s).next = s.next := by
  unfold unref
  dsimp only
  split <;> rfl

theorem forget_none (absent : s.openFiles.lookup (pid, fd) = none) : forget pid fd s = s := by
  rw [forget, absent]

theorem forget_files (look : s.openFiles.lookup (pid, fd) = some fu) :
    (forget pid fd s).files = Function.update s.files fu.file (s.files fu.file).dropped := by
  rw [forget, look]
  exact unref_files _ _

theorem forget_openFiles : (forget pid fd s).openFiles = s.openFiles.erase (pid, fd) := by
  unfold forget
  split
  next absent =>
    refine AList.ext ?_
    exact (List.kerase_of_notMem_keys (AList.mem_keys.not.mp (AList.lookup_eq_none.mp absent))).symm
  next => exact unref_openFiles _ _

theorem forget_next : (forget pid fd s).next = s.next := by
  unfold forget
  split
  · rfl
  · exact unref_next _ _

theorem descriptors_forget (look : s.openFiles.lookup (pid, fd) = some fu) :
    descriptors h s = descriptors h (forget pid fd s) + if fu.file = h then 1 else 0 := by
  refine (Table.tally_erase look).trans ?_
  rw [descriptors, forget_openFiles]
  simp

theorem forget_lookup {key : Nat × Int} (ne : key ≠ (pid, fd)) :
    (forget pid fd s).openFiles.lookup key = s.openFiles.lookup key := by
  rw [forget_openFiles, AList.lookup_erase_ne ne]

theorem forget_lookup_self : (forget pid fd s).openFiles.lookup (pid, fd) = none := by
  rw [forget_openFiles, AList.lookup_erase]

theorem findOpen_some (look : findOpen pid fd s = some fu) : s.openFiles.lookup (pid, fd) = some fu ∧
    fu.closing = false := by
  simpa [findOpen] using look

/-- What holds of every object, of its fields and of the number of its descriptors. -/
def Each (P : File → UnixFd β → Nat → Prop) (s : System β) : Prop := ∀ f, P f (s.files f) (descriptors f s)

section

variable (each : Each P s)
include each

theorem Each.mono {Q : File → UnixFd β → Nat → Prop} (weaker : ∀ f u n, P f u n → Q f u n) :
    Each Q s := fun f => weaker _ _ _ (each f)

theorem Each.update (keep : P f (s.files f) (descriptors f s) → P f (g (s.files f)) (descriptors f s)) :
    Each P (update f g s) := by
  intro h
  by_cases same : h = f
  · subst same
    rw [update_self]
    exact keep (each h)
  · rw [update_other same]
    exact each h

theorem Each.setUsage (look : s.openFiles.lookup (pid, fd) = some old)
    (same : fu.file = old.file) : Each P (setUsage pid fd fu s) := by
  intro h
  rw [descriptors_setUsage look same]
  exact each h

theorem Each.forget (keep : ∀ fu, s.openFiles.lookup (pid, fd) = some fu →
      P fu.file (s.files fu.file) (descriptors fu.file (forget pid fd s) + 1) →
      P fu.file (s.files fu.file).dropped (descriptors fu.file (forget pid fd s))) :
    Each P (forget pid fd s) := by
  cases look : s.openFiles.lookup (pid, fd) with
  | none => rwa [forget_none look]
  | some fu =>
    intro h
    have here := each h
    rw [descriptors_forget look] at here
    rw [forget_files look]
    by_cases same : fu.file = h
    · subst same
      rw [Function.update_self]
      exact keep fu look (by simpa using here)
    · rw [Function.update_of_ne (Ne.symm same)]
      simpa [same] using here

variable (absent : s.openFiles.lookup (pid, fd) = none)
include absent

theorem Each.share (keep : P f (s.files f) (descriptors f s) →
      P f { s.files f with fdCount := (s.files f).fdCount + 1, ref := (s.files f).ref + 1, given := true }
        (descriptors f s + 1)) : Each P (share pid fd f s) := by
  intro h
  have look : (ref f (incFdCount f s)).openFiles.lookup (pid, fd) = none := absent
  rw [Descriptors.share, descriptors_newFileUsage look]
  have count : descriptors h (ref f (incFdCount f s)) = descriptors h s := rfl
  rw [count]
  by_cases same : f = h
  · subst same
    simpa [Descriptors.newFileUsage, Descriptors.setUsage, ref, incFdCount] using keep (each f)
  · simpa [Descriptors.newFileUsage, Descriptors.setUsage, ref, incFdCount, same, Ne.symm same] using each h

theorem Each.install (keep : P (.unixFd s.next) (s.files (.unixFd s.next)) (descriptors (.unixFd s.next) s) →
      P (.unixFd s.next) { s.files (.unixFd s.next) with
        fdCount := (s.files (.unixFd s.next)).fdCount + 1, ref := 1, given := true }
        (descriptors (.unixFd s.next) s + 1)) : Each P (install pid fd s) := by
  intro h
  have look : (incFdCount (.unixFd s.next) { create (.unixFd s.next) s with next := s.next + 1 }).openFiles.lookup
      (pid, fd) = none := absent
  rw [Descriptors.install, descriptors_newFileUsage look]
  have count : descriptors h (incFdCount (.unixFd s.next) { create (.unixFd s.next) s with next := s.next + 1 }) =
      descriptors h s := rfl
  rw [count]
  by_cases same : .unixFd s.next = h
  · subst same
    simpa [Descriptors.newFileUsage, Descriptors.setUsage, incFdCount, create] using keep (each _)
  · simpa [Descriptors.newFileUsage, Descriptors.setUsage, incFdCount, create, Descriptors.update, same,
      Ne.symm same] using each h

end

/-- What a call that makes at most one object comes to: it fails, it makes the object and its
descriptor, or without a free descriptor it loses the object or closes one of `connectors`. -/
inductive Makes (pid : Nat) (loses : Bool) (connectors : List (Nat × Bool)) (s : System β) :
    System β × Except Errno Int → Prop
  | fails (err : Errno) : Makes pid loses connectors s (s, .error err)
  | made {fd : Int} : allocateFd pid s = some fd → Makes pid loses connectors s (install pid fd s, .ok fd)
  | lost (err : Errno) : loses = true → allocateFd pid s = none →
      Makes pid loses connectors s ({ create (.unixFd s.next) s with next := s.next + 1 }, .error err)
  | hangs {first : Nat × Bool} (err : Errno) : allocateFd pid s = none → first ∈ connectors →
      Makes pid loses connectors s (called (.unixFd first.1) s, .error err)

theorem dceOpen_makes (pid : Nat) (path : Path) (s : System β) : Makes pid false [] s (dceOpen pid path s) := by
  unfold dceOpen
  cases path with
  | empty => exact .fails _
  | random =>
    cases free : allocateFd pid s with
    | none => exact .fails _
    | some fd => exact .made free
  | real opened =>
    cases free : allocateFd pid s with
    | none => exact .fails _
    | some fd =>
      cases opened with
      | none => exact .made free
      | some err => exact .fails _

theorem dceSocket_makes (pid : Nat) (domain : Domain) (type : SocketType) (created : Bool) (s : System β) :
    Makes pid (createSocket domain type created) [] s (dceSocket pid domain type created s) := by
  unfold dceSocket
  split
  next some =>
    cases free : allocateFd pid s with
    | none => exact .lost _ some free
    | some fd => exact .made free
  next => exact .fails _

theorem acceptQueued_makes (pid : Nat) (connectors : List (Nat × Bool)) (s : System β) :
    Makes pid false connectors s (acceptQueued pid connectors s) := by
  suffices among : ∀ rest ⊆ connectors, Makes pid false connectors s (acceptQueued pid rest s) from
    among connectors (List.Subset.refl _)
  intro rest
  induction rest with
  | nil => exact fun _ => .fails _
  | cons connector rest ih =>
    intro among
    unfold acceptQueued
    cases free : allocateFd pid s with
    | none => exact .hangs _ free (among List.mem_cons_self)
    | some fd =>
      dsimp only
      split
      next => exact .made free
      next => exact ih fun other mem => among (List.mem_cons_of_mem _ mem)

/-- The sockets that an `Accept` may take from a queue. -/
def Waiting.connectors : Waiting → List (Nat × Bool)
  | .queued connectors => connectors
  | _ => []

theorem accept_makes (pid : Nat) (waiting : Waiting) (s : System β) :
    Makes pid false waiting.connectors s (accept pid waiting s) := by
  cases waiting with
  | fails err => exact .fails _
  | connection =>
    unfold accept
    cases free : allocateFd pid s with
    | none => exact .fails _
    | some fd => exact .made free
  | queued connectors => exact acceptQueued_makes pid connectors s

/-- An object that has descriptors is counted by them; the ones from `k` on are yet to be made. -/
structure Booked (k : Nat) (f : File) (u : UnixFd β) (n : Nat) : Prop where
  counted : 0 < n → u.fdCount = n ∧ u.ref = n ∧ u.frees = 0 ∧ u.given = true
  unborn : k ≤ f.number → u = blank ∧ n = 0

def Books (s : System β) : Prop := Each (Booked s.next) s

theorem Booked.mono {l : Nat} (le : k ≤ l) (booked : Booked k f u n) : Booked l f u n :=
  ⟨booked.counted, fun later => booked.unborn (le.trans later)⟩

theorem Booked.touch {v : UnixFd β} (booked : Booked k f u n) (born : f.number < k)
    (fdCount : v.fdCount = u.fdCount) (ref : v.ref = u.ref) (frees : v.frees = u.frees)
    (given : v.given = u.given) : Booked k f v n where
  counted := by
    rw [fdCount, ref, frees, given]
    exact booked.counted
  unborn later := absurd later (by omega)

theorem Booked.shared (booked : Booked k f u n) (some : 0 < n) :
    Booked k f { u with fdCount := u.fdCount + 1, ref := u.ref + 1, given := true } (n + 1) where
  counted _ := by
    obtain ⟨fdCount, ref, frees, -⟩ := booked.counted some
    refine ⟨?_, ?_, frees, rfl⟩
    · show u.fdCount + 1 = _
      omega
    · show u.ref + 1 = _
      omega
  unborn later := absurd (booked.unborn later).2 (by omega)

theorem Booked.dropped (booked : Booked k f u (n + 1)) : Booked k f u.dropped n where
  counted some := by
    obtain ⟨fdCount, ref, frees, given⟩ := booked.counted (by omega)
    refine ⟨?_, ?_, ?_, given⟩
    · show u.fdCount - 1 = _
      omega
    · show u.ref - 1 = _
      omega
    · show (if u.ref - 1 = 0 then u.frees + 1 else u.frees) = 0
      rw [if_neg (by omega), frees]
  unborn later := absurd (booked.unborn later).2 (by omega)

section

variable (books : Books s)
include books

theorem Books.born (some : 0 < descriptors f s) : f.number < s.next := by
  by_contra later
  have none := ((books f).unborn (by omega)).2
  omega

theorem Books.counted (some : 0 < descriptors f s) : (s.files f).fdCount = descriptors f s :=
  ((books f).counted some).1

theorem Books.usage (look : s.openFiles.lookup (pid, fd) = some old)
    (same : fu.file = old.file) : Books (setUsage pid fd fu s) := Each.setUsage books look same

theorem Books.forget : Books (forget pid fd s) := by
  have each : Each (Booked s.next) (Descriptors.forget pid fd s) :=
    Each.forget books fun _ _ booked => booked.dropped
  rwa [← @forget_next β s pid fd] at each

theorem Books.share (absent : s.openFiles.lookup (pid, fd) = none) (some : 0 < descriptors f s) :
    Books (share pid fd f s) :=
  Each.share books absent fun booked => booked.shared some

theorem Books.create : Books { create (.unixFd s.next) s with next := s.next + 1 } := by
  have later : Each (Booked (s.next + 1)) s := Each.mono books fun _ _ _ booked => booked.mono (Nat.le_succ _)
  have fresh := (books (.unixFd s.next)).unborn le_rfl
  have each : Each (Booked (s.next + 1)) (Descriptors.create (.unixFd s.next) s) :=
    Each.update later fun booked => ⟨fun some => absurd fresh.2 (ne_of_gt some),
      fun beyond => absurd beyond (Nat.not_succ_le_self _)⟩
  exact each

theorem Books.install (absent : s.openFiles.lookup (pid, fd) = none) : Books (install pid fd s) := by
  have later : Each (Booked (s.next + 1)) s := Each.mono books fun _ _ _ booked => booked.mono (Nat.le_succ _)
  obtain ⟨fresh, none⟩ := (books (.unixFd s.next)).unborn le_rfl
  refine Each.install later absent fun booked => ⟨fun _ => ?_, fun beyond => absurd beyond (Nat.not_succ_le_self _)⟩
  rw [fresh, none]
  exact ⟨rfl, rfl, rfl, rfl⟩

variable (born : f.number < s.next)
include born

theorem Books.update (fdCount : ∀ u, (g u).fdCount = u.fdCount) (ref : ∀ u, (g u).ref = u.ref)
    (frees : ∀ u, (g u).frees = u.frees) (given : ∀ u, (g u).given = u.given) : Books (update f g s) :=
  Each.update books fun booked => booked.touch born (fdCount _) (ref _) (frees _) (given _)

theorem Books.called : Books (called f s) :=
  books.update born (fun _ => rfl) (fun _ => rfl) (fun _ => rfl) (fun _ => rfl)

theorem Books.clearPeer : Books (clearPeer f s) :=
  books.update born (fun _ => rfl) (fun _ => rfl) (fun _ => rfl) (fun _ => rfl)

omit born in
theorem Books.makes {loses : Bool} {connectors : List (Nat × Bool)}
    {p : System β × Except Errno Int} (known : ∀ connector ∈ connectors, connector.1 < s.next)
    (makes : Makes pid loses connectors s p) : Books p.1 := by
  cases makes with
  | fails => exact books
  | made free => exact books.install (allocateFd_some free).1
  | lost => exact books.create
  | hangs err full mem => exact books.called (known _ mem)

theorem Books.closeFile (status : Option Errno) : Books (closeFile f status s).1 := by
  cases f with
  | unixFd n => exact books.called born
  | pipeFd n e =>
    have once : Books (Descriptors.called (.pipeFd n e) s) := books.called born
    show Books (pipeClose n e s).1
    unfold pipeClose
    dsimp only
    split
    next =>
      have alone := once.clearPeer (f := .pipeFd n e) born
      have other := alone.called (f := .pipeFd n e.other) born
      split
      next => exact alone
      next =>
        split
        · exact (other.clearPeer (f := .pipeFd n e.other) born).called born
        · exact other
    next => exact once

end

theorem closeFile_openFiles (f : File) (status : Option Errno) (s : System β) :
    (closeFile f status s).1.openFiles = s.openFiles := by
  cases f with
  | unixFd n => rfl
  | pipeFd n e =>
    show (pipeClose n e s).1.openFiles = _
    unfold pipeClose
    dsimp only
    split
    · split
      · rfl
      · split <;> rfl
    · rfl

/-- What `dce_close` does with the entry once `Close ()` has run or was not due. -/
def release (pid : Nat) (fd : Int) (fu : FileUsage) (s : System β) : System β :=
  if fu.count = 0 then forget pid fd s else setUsage pid fd { fu with closing := true } s

theorem dceClose_none (absent : s.openFiles.lookup (pid, fd) = none) (status : Option Errno) :
    dceClose pid fd status s = (s, some .EBADF) := by
  rw [dceClose, absent]

theorem dceClose_last (look : s.openFiles.lookup (pid, fd) = some fu) (last : (s.files fu.file).fdCount = 1)
    (status : Option Errno) : dceClose pid fd status s =
      (release pid fd fu (closeFile fu.file status s).1, (closeFile fu.file status s).2) := by
  rw [dceClose, look]
  simp only [last]
  rfl

theorem dceClose_more (look : s.openFiles.lookup (pid, fd) = some fu) (more : (s.files fu.file).fdCount ≠ 1)
    (status : Option Errno) : dceClose pid fd status s = (release pid fd fu s, none) := by
  rw [dceClose, look]
  simp only [more]
  rfl

theorem Books.release (books : Books s) (look : s.openFiles.lookup (pid, fd) = some fu) :
    Books (release pid fd fu s) := by
  unfold Descriptors.release
  split
  · exact books.forget
  · exact books.usage look rfl

theorem Books.dceClose (books : Books s) (pid : Nat) (fd : Int) (status : Option Errno) :
    Books (dceClose pid fd status s).1 := by
  cases look : s.openFiles.lookup (pid, fd) with
  | none => rwa [dceClose_none look]
  | some fu =>
    by_cases last : (s.files fu.file).fdCount = 1
    · rw [dceClose_last look last]
      refine (books.closeFile (books.born (descriptors_pos look)) status).release ?_
      rwa [closeFile_openFiles]
    · rw [dceClose_more look last]
      exact books.release look

/-- An end of a pipe that `dce_pipe` has made, and the read end that it has thrown away. -/
def newEnd : UnixFd β := ⟨1, 1, true, false, .new pipeCapacity β, true, 0, 0⟩

def deadEnd : UnixFd β := ⟨-1, 0, false, false, .new pipeCapacity β, true, 0, 2⟩

def madePipe (pid : Nat) (fdRead fdWrite : Int) (s : System β) : System β where
  files := Function.update (Function.update s.files (.pipeFd s.next .read) newEnd) (.pipeFd s.next .write) newEnd
  next := s.next + 1
  openFiles := (s.openFiles.insert (pid, fdRead) ⟨.pipeFd s.next .read, 0, 0, 0, false⟩).insert (pid, fdWrite)
    ⟨.pipeFd s.next .write, 0, 0, 0, false⟩

def brokenPipe (pid : Nat) (fdRead : Int) (s : System β) : System β where
  files := Function.update s.files (.pipeFd s.next .read) deadEnd
  next := s.next + 1
  openFiles := (s.openFiles.insert (pid, fdRead) ⟨.pipeFd s.next .read, 0, 0, 0, false⟩).erase (pid, fdRead)

/-- What `dce_pipe` comes to; with one free descriptor it deletes the read end twice. -/
inductive Pipes (pid : Nat) (null : Bool) (s : System β) : System β × Except Errno (Int × Int) → Prop
  | fails (err : Errno) : null = true ∨ allocateFd pid s = none → Pipes pid null s (s, .error err)
  | opened {fdRead fdWrite : Int} : allocateFd pid s = some fdRead → fdWrite ≠ fdRead →
      s.openFiles.lookup (pid, fdWrite) = none → 0 ≤ fdWrite → fdWrite < maxFds →
      Pipes pid null s (madePipe pid fdRead fdWrite s, .ok (fdRead, fdWrite))
  | broken {fdRead : Int} : null = false → allocateFd pid s = some fdRead →
      (∀ fd : Int, 0 ≤ fd → fd < maxFds → fd ≠ fdRead → s.openFiles.lookup (pid, fd) ≠ none) →
      Pipes pid null s (brokenPipe pid fdRead s, .error .EMFILE)

/-- `dce_pipe` between the two allocations. -/
def halfPipe (pid : Nat) (fdRead : Int) (s : System β) : System β :=
  newFileUsage pid fdRead (.pipeFd s.next .read) { create (.pipeFd s.next .read) s with next := s.next + 1 }

theorem finishPipe_eq (fresh : ∀ e, s.files (.pipeFd s.next e) = blank) (fdRead fdWrite : Int) :
    finishPipe pid s.next fdRead fdWrite (halfPipe pid fdRead s) = (madePipe pid fdRead fdWrite s,
      .ok (fdRead, fdWrite)) := by
  have files : (finishPipe pid s.next fdRead fdWrite (halfPipe pid fdRead s)).1.files =
      (madePipe pid fdRead fdWrite s).files := by
    funext f
    by_cases isWriter : f = .pipeFd s.next .write
    · subst isWriter
      simp [finishPipe, halfPipe, madePipe, newFileUsage, setUsage, incFdCount, create, fresh, blank, newEnd]
    · by_cases isReader : f = .pipeFd s.next .read
      · subst isReader
        simp [finishPipe, halfPipe, madePipe, newFileUsage, setUsage, incFdCount, create, fresh, blank, newEnd]
      · simp [finishPipe, halfPipe, madePipe, newFileUsage, setUsage, incFdCount, create, isWriter, isReader]
  exact Prod.ext (System.ext files rfl rfl) rfl

theorem brokenPipe_eq (fresh : s.files (.pipeFd s.next .read) = blank) (fdRead : Int) :
    destroy (.pipeFd s.next .read) (forget pid fdRead (halfPipe pid fdRead s)) = brokenPipe pid fdRead s := by
  have look : (halfPipe pid fdRead s).openFiles.lookup (pid, fdRead) =
      some ⟨.pipeFd s.next .read, 0, 0, 0, false⟩ := AList.lookup_insert _
  have files : (destroy (.pipeFd s.next .read) (forget pid fdRead (halfPipe pid fdRead s))).files =
      (brokenPipe pid fdRead s).files := by
    funext f
    rw [destroy, update, forget_files look]
    by_cases isReader : f = .pipeFd s.next .read
    · simp [halfPipe, brokenPipe, newFileUsage, setUsage, create, update, fresh, blank, deadEnd, UnixFd.dropped]
    · simp [halfPipe, brokenPipe, newFileUsage, setUsage, create, isReader]
  have openFiles : (destroy (.pipeFd s.next .read) (forget pid fdRead (halfPipe pid fdRead s))).openFiles =
      (brokenPipe pid fdRead s).openFiles := forget_openFiles
  have next : (destroy (.pipeFd s.next .read) (forget pid fdRead (halfPipe pid fdRead s))).next =
      (brokenPipe pid fdRead s).next := forget_next
  exact System.ext files next openFiles

theorem dcePipe_opened {fdRead fdWrite : Int} (fresh : ∀ e, s.files (.pipeFd s.next e) = blank)
    (first : allocateFd pid s = some fdRead) (second : allocateFd pid (halfPipe pid fdRead s) = some fdWrite) :
    dcePipe pid false s = (madePipe pid fdRead fdWrite s, .ok (fdRead, fdWrite)) := by
  rw [dcePipe, first]
  dsimp only
  rw [← halfPipe, second]
  exact finishPipe_eq fresh fdRead fdWrite

theorem Books.fresh (books : Books s) (e : End) : s.files (.pipeFd s.next e) = blank :=
  ((books (.pipeFd s.next e)).unborn le_rfl).1

theorem dcePipe_pipes (books : Books s) (pid : Nat) (null : Bool) : Pipes pid null s (dcePipe pid null s) := by
  unfold dcePipe
  split
  next isNull => exact .fails _ (.inl isNull)
  next notNull =>
    cases free : allocateFd pid s with
    | none => exact .fails _ (.inr free)
    | some fdRead =>
      dsimp only
      rw [← halfPipe]
      cases second : allocateFd pid (halfPipe pid fdRead s) with
      | none =>
        rw [brokenPipe_eq (books.fresh .read)]
        refine .broken (Bool.not_eq_true _ ▸ notNull) free fun fd start stop ne absent => ?_
        refine allocateFd_none.mp second fd start stop ?_
        exact (AList.lookup_insert_ne (by simp [ne])).trans absent
      | some fdWrite =>
        dsimp only
        obtain ⟨absent, start, stop⟩ := allocateFd_some second
        have ne : fdWrite ≠ fdRead := fun same => by
          subst same
          exact absurd ((AList.lookup_insert _).symm.trans absent) nofun
        rw [finishPipe_eq books.fresh]
        refine .opened free ne ?_ start stop
        exact (AList.lookup_insert_ne (by simp [ne])).symm.trans absent

end Dce.Descriptors
