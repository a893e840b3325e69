import Dce.Descriptors.Lifecycle

/- What closing the descriptors of a pipe in any order comes to. -/

namespace Dce.Descriptors

open List Option

open Pipe (End FifoBuffer pipeCapacity maxFds)

variable {β : Type*} {s t : System β} {f h : File} {pid n : Nat} {e : End} {fd oldfd newfd : Int} {fu : FileUsage}
  {status : Option Errno}

/-- Some process has a descriptor of `f` that it has not closed. -/
def Opened (f : File) (s : System β) : Prop :=
  ∃ key fu, s.openFiles.lookup key = some fu ∧ fu.file = f ∧ fu.closing = false

/-- The bytes that wait in a pipe. -/
def buffered (n : Nat) (s : System β) : List β := (s.files (.pipeFd n .read)).buf.contents

/-- What a step has to return: a descriptor of a pipe is closed without an error and can be the target
of `dup2`, and a reader gets the bytes that are left, and then the end of the file, once no descriptor
to write is open. -/
def Right (s : System β) : Label β → System β → Result β → Prop
  | .close pid fd _, _, r => ∀ fu, findOpen pid fd s = some fu → fu.file.isPipe = true → r = .status 0
  | .dup2 pid oldfd newfd _, _, r => ∀ fu, findOpen pid newfd s = some fu → fu.file.isPipe = true →
    (findOpen pid oldfd s).isSome → r = .fds [newfd]
  | .method pid fd (.read count), t, r => ∀ fu n, s.openFiles.lookup (pid, fd) = some fu →
    fu.file = .pipeFd n .read → 0 < count → ¬ Opened (.pipeFd n .write) s →
    ∃ data, r = .bytes data ∧ data ++ buffered n t = buffered n s ∧ (data = [] → buffered n s = [])
  | _, _, _ => True

/-- What should hold of the steps that `C` has. -/
def PipesClose (C : System β → Label β → Prop) : Prop :=
  ∀ s, (machine β).Reach s → ∀ a t r, respond s a = some (t, r) → (Right s a t r ↔ C s a)

/-- `Close ()` of the last descriptor of an end finds the other end. -/
def Linked (s : System β) (f : File) : Prop := (s.files f).fdCount = 1 → Closes s none f

/-- The steps that meet no defect. The last descriptor of an end is closed, also by `dup2`, before
`Close ()` has run for one of the two ends, and while the other end is there; a descriptor that `dup2`
replaces is not in use; nothing is read from an empty pipe that no one can write to, nor from one whose
write end went without `Close ()`. -/
def Gentle (s : System β) : Label β → Prop
  | .close pid fd _ => ∀ fu, findOpen pid fd s = some fu → fu.file.isPipe = true → Linked s fu.file
  | .dup2 pid oldfd newfd _ => oldfd ≠ newfd → (findOpen pid oldfd s).isSome → ∀ fu, findOpen pid newfd s = some fu →
    fu.file.isPipe = true → fu.count = 0 ∧ Linked s fu.file
  | .method pid fd (.read count) => ∀ fu n, s.openFiles.lookup (pid, fd) = some fu → fu.file = .pipeFd n .read →
    0 < count → ¬ Opened (.pipeFd n .write) s → buffered n s ≠ [] ∧
      ((s.files (.pipeFd n .read)).peer = true → (s.files (.pipeFd n .write)).frees = 0)
  | _ => True

/-- No process inherits a descriptor of a pipe that was closed in use. -/
def Inherits (s : System β) : Label β → Prop
  | .fork pid _ => ∀ fd fu, s.openFiles.lookup (pid, fd) = some fu → fu.file.isPipe = true → fu.closing = false
  | _ => True

theorem statusResult_zero (p : System β × Option Errno) : (statusResult p).2 = .status 0 ↔ p.2 = none := by
  obtain ⟨u, _ | err⟩ := p
  · exact ⟨fun _ => rfl, fun _ => rfl⟩
  · cases err <;> exact ⟨nofun, nofun⟩

theorem fdResult_fds (p : System β × Except Errno Int) : (fdResult p).2 = .fds [fd] ↔ p.2 = .ok fd := by
  obtain ⟨u, err | fd'⟩ := p
  · cases err <;> exact ⟨nofun, nofun⟩
  · simp [fdResult]

theorem closes_iff (isPipe : f.isPipe = true) (status : Option Errno) : Closes s status f ↔ Closes s none f := by
  cases f with
  | unixFd n => cases isPipe
  | pipeFd n e => exact .rfl

theorem dceClose_linked (look : s.openFiles.lookup (pid, fd) = some fu) (isPipe : fu.file.isPipe = true)
    (status : Option Errno) : (dceClose pid fd status s).2 = none ↔ Linked s fu.file := by
  rw [dceClose_snd look, closes_iff isPipe]
  exact .rfl

theorem close_right (pid : Nat) (fd : Int) (status : Option Errno) (s t : System β) :
    Right s (.close pid fd status) t (statusResult (dceClose pid fd status s)).2 ↔
    Gentle s (.close pid fd status) := by
  refine forall_congr' fun fu => forall_congr' fun found => forall_congr' fun isPipe => ?_
  rw [statusResult_zero, dceClose_linked (findOpen_some found).1 isPipe]

theorem dup2_fds {old : FileUsage} (found : findOpen pid oldfd s = some old) (bound : newfd ≤ maxFds)
    (ne : oldfd ≠ newfd) (target : findOpen pid newfd s = some fu) :
    (fdResult (dceDup2 pid oldfd newfd status s)).2 = .fds [newfd] ↔ (dceClose pid newfd status s).2 = none ∧
    fu.count = 0 := by
  have inside : ¬ (maxFds : Int) < newfd := Int.not_lt.mpr bound
  have left := dceClose_lookup_self (findOpen_some target).1 status
  by_cases closes : (dceClose pid newfd status s).2 = none
  · rw [dup2_closed found inside ne target closes]
    by_cases idle : fu.count = 0
    · rw [if_pos idle] at left
      rw [dupTo_free left]
      exact ⟨fun _ => ⟨closes, idle⟩, fun _ => rfl⟩
    · rw [if_neg idle] at left
      rw [dupTo_taken left]
      exact ⟨nofun, fun both => absurd both.2 idle⟩
  · obtain ⟨err, fails⟩ := dup2_refused found inside ne target closes
    rw [fails, fdResult_fds]
    exact ⟨nofun, fun both => absurd both.1 closes⟩

theorem dup2_same {old : FileUsage} (found : findOpen pid oldfd s = some old) (bound : oldfd ≤ maxFds) :
    dceDup2 pid oldfd oldfd status s = (s, .ok oldfd) := by
  rw [dceDup2, found]
  dsimp only
  rw [if_neg (Int.not_lt.mpr bound), if_pos rfl]

theorem dup2_right (within : Within (fun fd => fd ≤ maxFds) s) (pid : Nat) (oldfd newfd : Int)
    (status : Option Errno) (t : System β) :
    Right s (.dup2 pid oldfd newfd status) t (fdResult (dceDup2 pid oldfd newfd status s)).2 ↔
      Gentle s (.dup2 pid oldfd newfd status) := by
  have bound : ∀ fu, findOpen pid newfd s = some fu → newfd ≤ maxFds := fun fu target =>
    within (pid, newfd) (by rw [(findOpen_some target).1]; exact some_ne_none fu)
  constructor
  · intro right ne found fu target isPipe
    obtain ⟨old, found'⟩ := isSome_iff_exists.mp found
    obtain ⟨closes, idle⟩ := (dup2_fds found' (bound fu target) ne target).mp (right fu target isPipe found)
    exact ⟨idle, (dceClose_linked (findOpen_some target).1 isPipe status).mp closes⟩
  · intro gentle fu target isPipe found
    obtain ⟨old, found'⟩ := isSome_iff_exists.mp found
    by_cases same : oldfd = newfd
    · subst same
      rw [dup2_same found' (bound fu target)]
      rfl
    · obtain ⟨idle, linked⟩ := gentle same found fu target isPipe
      exact (dup2_fds found' (bound fu target) same target).mpr
        ⟨(dceClose_linked (findOpen_some target).1 isPipe status).mpr linked, idle⟩

theorem pipeRead_bytes {count : Nat} (positive : 0 < count) :
    (∃ data, (pipeRead n count s).2 = .bytes data ∧ data ++ buffered n (pipeRead n count s).1 = buffered n s ∧
      (data = [] → buffered n s = [])) ↔ buffered n s ≠ [] ∧
      ((s.files (.pipeFd n .read)).peer = true → (s.files (.pipeFd n .write)).frees = 0) := by
  obtain ⟨rest, data⟩ := FifoBuffer.read_spec (s.files (.pipeFd n .read)).buf count
  have length : ((s.files (.pipeFd n .read)).buf.read count).2.length = min count (buffered n s).length := by
    rw [data, length_take]
    rfl
  unfold pipeRead
  dsimp only
  split
  next some =>
    have waits : buffered n s ≠ [] := ne_nil_of_length_pos (by omega)
    split
    next gone =>
      refine ⟨?_, fun there => absurd (there.2 gone.1) gone.2⟩
      rintro ⟨_, same, -⟩
      cases same
    next there =>
      refine ⟨fun _ => ⟨waits, fun peer => not_not.mp fun gone => there ⟨peer, gone⟩⟩,
        fun _ => ⟨_, rfl, ?_, fun empty => absurd (congrArg List.length empty) some⟩⟩
      rw [buffered, update_self]
      rw [rest, data]
      exact take_append_drop _ _
  · have empty : buffered n s = [] := eq_nil_of_length_eq_zero (by omega)
    refine ⟨?_, fun waits => absurd empty waits.1⟩
    split
    · rintro ⟨_, same, -⟩
      cases same
    · split <;> rintro ⟨_, same, -⟩ <;> cases same

theorem read_right {count : Nat} {r : Result β} (run : respond s (.method pid fd (.read count)) = some (t, r)) :
    Right s (.method pid fd (.read count)) t r ↔ Gentle s (.method pid fd (.read count)) := by
  obtain ⟨fu, look, entered⟩ := bind_eq_some_iff.mp run
  split at entered
  next =>
    refine forall_congr' fun fu' => forall_congr' fun n => forall_congr' fun look' => forall_congr' fun file =>
      forall_congr' fun positive => forall_congr' fun _ => ?_
    cases look.symm.trans look'
    have same : pipeRead n count s = (t, r) := by
      rw [file] at entered
      exact some.inj entered
    have bytes := pipeRead_bytes (s := s) (n := n) positive
    rw [same] at bytes
    exact bytes
  next => cases entered

/-- Both ends of a pipe are open only while they are linked. -/
structure Piped (s : System β) : Prop where
  books : Books s
  linked : ∀ n e, Opened (.pipeFd n e) s → Opened (.pipeFd n e.other) s → (s.files (.pipeFd n e)).peer = true

theorem opened_of_findOpen (found : findOpen pid fd s = some fu) : Opened fu.file s :=
  ⟨(pid, fd), fu, (findOpen_some found).1, rfl, (findOpen_some found).2⟩

theorem opened_lt (books : Books s) (opened : Opened f s) : f.number < s.next := by
  obtain ⟨⟨pid, fd⟩, fu, look, rfl, -⟩ := opened
  exact books.born (descriptors_pos look)

theorem Opened.of_entry (others : ∀ key, key ≠ (pid, fd) → t.openFiles.lookup key = s.openFiles.lookup key)
    (here : ∀ fu, t.openFiles.lookup (pid, fd) = some fu → fu.file = f → fu.closing = false → Opened f s)
    (opened : Opened f t) : Opened f s := by
  obtain ⟨key, fu, look, same, open'⟩ := opened
  by_cases changed : key = (pid, fd)
  · rw [changed] at look
    exact here fu look same open'
  · rw [others key changed] at look
    exact ⟨key, fu, look, same, open'⟩

theorem Opened.of_usage {now : FileUsage} (here : now.file = f → now.closing = false → Opened f s)
    (opened : Opened f (setUsage pid fd now s)) : Opened f s := by
  refine opened.of_entry (fun key ne => AList.lookup_insert_ne ne) fun fu look => ?_
  cases (AList.lookup_insert _).symm.trans look
  exact here

theorem Opened.of_forget (opened : Opened f (forget pid fd s)) : Opened f s := by
  refine opened.of_entry (fun key ne => forget_lookup ne) fun fu look => ?_
  rw [forget_lookup_self] at look
  cases look

theorem Opened.of_share (here : h = f → Opened h s) (opened : Opened f (share pid fd h s)) : Opened f s :=
  Opened.of_usage (s := s) (fun same _ => same ▸ here same) opened

theorem Opened.of_install (opened : Opened (.pipeFd n e) (install pid fd s)) : Opened (.pipeFd n e) s :=
  Opened.of_usage (s := s) (fun same _ => by cases same) opened

theorem Piped.of_less (piped : Piped s) (books : Books t)
    (peer : ∀ n e, Opened (.pipeFd n e) t → (s.files (.pipeFd n e)).peer = true →
      (t.files (.pipeFd n e)).peer = true)
    (opened : ∀ n e, Opened (.pipeFd n e) t → Opened (.pipeFd n e) s) : Piped t where
  books := books
  linked n e here there := peer n e here (piped.linked n e (opened n e here) (opened n e.other there))

theorem Piped.usage (piped : Piped s) (look : s.openFiles.lookup (pid, fd) = some fu) {now : FileUsage}
    (same : now.file = fu.file) (closing : now.closing = false → fu.closing = false) :
    Piped (setUsage pid fd now s) :=
  piped.of_less (piped.books.usage look same) (fun _ _ _ linked => linked) fun _ _ opened =>
    opened.of_usage fun file open' => ⟨(pid, fd), fu, look, same.symm.trans file, closing open'⟩

theorem update_peer {g : UnixFd β → UnixFd β} (same : ∀ u, (g u).peer = u.peer) (f h : File) (s : System β) :
    ((update f g s).files h).peer = (s.files h).peer := by
  by_cases here : h = f
  · rw [here, update_self, same]
  · rw [update_other here]

section

variable (h : File)

theorem forget_peer : ((forget pid fd s).files h).peer = (s.files h).peer := by
  cases look : s.openFiles.lookup (pid, fd) with
  | none => rw [forget_none look]
  | some fu =>
    rw [forget_files look]
    exact update_peer (g := UnixFd.dropped) (fun _ => rfl) fu.file h s

theorem called_peer : ((called f s).files h).peer = (s.files h).peer :=
  update_peer (g := fun u => { u with closes := u.closes + 1 }) (fun _ => rfl) f h s

theorem create_peer : ((create f s).files h).peer = (s.files h).peer :=
  update_peer (g := fun u => { u with ref := 1 }) (fun _ => rfl) f h s

theorem newFileUsage_peer : ((newFileUsage pid fd f s).files h).peer = (s.files h).peer :=
  update_peer (g := fun u => { u with given := true }) (fun _ => rfl) f h s

theorem share_peer : ((share pid fd f s).files h).peer = (s.files h).peer := by
  rw [share, newFileUsage_peer, ref, update_peer, incFdCount, update_peer] <;> exact fun _ => rfl

theorem install_peer : ((install pid fd s).files h).peer = (s.files h).peer := by
  rw [install, newFileUsage_peer, incFdCount, update_peer]
  · exact create_peer h
  · exact fun _ => rfl

theorem Piped.forget (piped : Piped s) : Piped (forget pid fd s) :=
  piped.of_less piped.books.forget (fun _ _ _ linked => (forget_peer _).trans linked) fun _ _ opened =>
    opened.of_forget

theorem Piped.share (piped : Piped s) (absent : s.openFiles.lookup (pid, fd) = none) (some : 0 < descriptors f s)
    (opened : f.isPipe = true → Opened f s) : Piped (share pid fd f s) :=
  piped.of_less (piped.books.share absent some) (fun _ _ _ linked => (share_peer _).trans linked)
    fun _ _ here => here.of_share fun same => opened (by rw [same]; rfl)

theorem Piped.install (piped : Piped s) (absent : s.openFiles.lookup (pid, fd) = none) : Piped (install pid fd s) :=
  piped.of_less (piped.books.install absent) (fun _ _ _ linked => (install_peer _).trans linked) fun _ _ here =>
    here.of_install

theorem release_peer : ((release pid fd fu s).files h).peer = (s.files h).peer := by
  unfold release
  split
  · exact forget_peer h
  · rfl

end

theorem closeFile_peer (ne : f.isPipe = true → h.number ≠ f.number) (status : Option Errno) :
    ((closeFile f status s).1.files h).peer = (s.files h).peer := by
  cases f with
  | unixFd m => exact called_peer h
  | pipeFd m e =>
    have away : ∀ e', h ≠ .pipeFd m e' := by
      rintro e' rfl
      exact ne rfl rfl
    have here := away e
    have there := away e.other
    show ((pipeClose m e s).1.files h).peer = _
    unfold pipeClose
    dsimp only
    split
    · split
      · simp [called, clearPeer, here]
      · split <;> simp [called, clearPeer, here, there]
    · simp [called, here]

theorem dceClose_peer (look : s.openFiles.lookup (pid, fd) = some fu)
    (ne : (s.files fu.file).fdCount = 1 → fu.file.isPipe = true → h.number ≠ fu.file.number)
    (status : Option Errno) : ((dceClose pid fd status s).1.files h).peer = (s.files h).peer := by
  by_cases last : (s.files fu.file).fdCount = 1
  · rw [dceClose_last look last]
    exact (release_peer h).trans (closeFile_peer (ne last) status)
  · rw [dceClose_more look last]
    exact release_peer h

theorem Opened.of_close (opened : Opened f (dceClose pid fd status s).1) :
    ∃ key fu, key ≠ (pid, fd) ∧ s.openFiles.lookup key = some fu ∧ fu.file = f ∧ fu.closing = false := by
  obtain ⟨key, fu, look, same, open'⟩ := opened
  have ne : key ≠ (pid, fd) := by
    rintro rfl
    cases before : s.openFiles.lookup (pid, fd) with
    | none =>
      rw [dceClose_none before] at look
      rw [before] at look
      cases look
    | some old =>
      rw [dceClose_lookup_self before] at look
      split at look
      · cases look
      · cases look
        cases open'
  rw [dceClose_lookup ne] at look
  exact ⟨key, fu, ne, look, same, open'⟩

/-- No other descriptor of the end is there if the last one is closed. -/
theorem not_opened_last (books : Books s) (look : s.openFiles.lookup (pid, fd) = some fu)
    (last : (s.files fu.file).fdCount = 1) : ¬ Opened fu.file (dceClose pid fd status s).1 := by
  intro opened
  obtain ⟨key, other, ne, look', same, -⟩ := opened.of_close
  have two : 2 ≤ descriptors fu.file s :=
    Table.two_le_tally ne.symm look look' (decide_eq_true rfl) (decide_eq_true same)
  have count := books.counted (descriptors_pos look)
  omega

section

variable (piped : Piped s)
include piped

theorem Piped.dceClose (pid : Nat) (fd : Int) (status : Option Errno) : Piped (dceClose pid fd status s).1 := by
  cases look : s.openFiles.lookup (pid, fd) with
  | none => rwa [dceClose_none look]
  | some fu =>
    refine ⟨piped.books.dceClose pid fd status, fun n e here there => ?_⟩
    rw [dceClose_peer look]
    · obtain ⟨key, one, -, first⟩ := here.of_close
      obtain ⟨key', two, -, second⟩ := there.of_close
      exact piped.linked n e ⟨key, one, first⟩ ⟨key', two, second⟩
    · intro last isPipe same
      have gone : ¬ Opened fu.file (Descriptors.dceClose pid fd status s).1 := not_opened_last piped.books look last
      cases file : fu.file with
      | unixFd m =>
        rw [file] at isPipe
        cases isPipe
      | pipeFd m e' =>
        rw [file] at same gone
        obtain rfl : n = m := same
        cases e <;> cases e' <;> contradiction

theorem Piped.dups {p : System β × Except Errno Int} (dups : Dups pid s p) : Piped p.1 := by
  cases dups with
  | fails => exact piped
  | same => exact piped
  | shares found absent =>
    exact piped.share absent (descriptors_pos (findOpen_some found).1) fun _ => opened_of_findOpen found

theorem Piped.dup2 (pid : Nat) (oldfd newfd : Int) (status : Option Errno) :
    Piped (dceDup2 pid oldfd newfd status s).1 := by
  have dup2 := dceDup2_dup2 pid oldfd newfd status s
  generalize dceDup2 pid oldfd newfd status s = p at dup2 ⊢
  cases dup2 with
  | direct dups => exact piped.dups dups
  | refused => exact piped.dceClose pid newfd status
  | closed _ _ dups => exact (piped.dceClose pid newfd status).dups dups

theorem Piped.madePipe {fdRead fdWrite : Int} (free : s.openFiles.lookup (pid, fdRead) = none)
    (ne : fdWrite ≠ fdRead) (absent : s.openFiles.lookup (pid, fdWrite) = none) :
    Piped (madePipe pid fdRead fdWrite s) := by
  refine ⟨piped.books.madePipe free ne absent, fun n e here there => ?_⟩
  by_cases fresh : n = s.next
  · subst fresh
    cases e <;> simp [Descriptors.madePipe, newEnd]
  · have older : ∀ e', Opened (.pipeFd n e') (Descriptors.madePipe pid fdRead fdWrite s) →
        Opened (.pipeFd n e') s := by
      intro e' opened
      have both : Opened (.pipeFd n e') (setUsage pid fdWrite ⟨.pipeFd s.next .write, 0, 0, 0, false⟩
          (setUsage pid fdRead ⟨.pipeFd s.next .read, 0, 0, 0, false⟩ s)) := opened
      refine (both.of_usage fun same _ => ?_).of_usage fun same _ => ?_
      · cases same
        exact absurd rfl fresh
      · cases same
        exact absurd rfl fresh
    have linked := piped.linked n e (older e here) (older e.other there)
    simpa [Descriptors.madePipe, fresh] using linked

theorem Piped.brokenPipe {fdRead : Int} (free : s.openFiles.lookup (pid, fdRead) = none) :
    Piped (brokenPipe pid fdRead s) := by
  have older : ∀ n e, Opened (.pipeFd n e) (Descriptors.brokenPipe pid fdRead s) → Opened (.pipeFd n e) s := by
    intro n e opened
    refine opened.of_entry (fun key away => (AList.lookup_erase_ne away).trans (AList.lookup_insert_ne away))
      fun fu look => ?_
    cases (AList.lookup_erase _ _).symm.trans look
  refine piped.of_less (piped.books.brokenPipe free) (fun n e here linked => ?_) older
  have born : n < s.next := opened_lt piped.books (older n e here)
  simpa [Descriptors.brokenPipe, ne_of_lt born] using linked

theorem Piped.nullifyUsage (pid : Nat) (fd : Int) : Piped (nullifyUsage pid fd s) := by
  unfold Descriptors.nullifyUsage
  cases look : s.openFiles.lookup (pid, fd) with
  | none => exact piped
  | some fu => exact piped.usage look rfl id

theorem Piped.decUsage (look : s.openFiles.lookup (pid, fd) = some fu) : Piped (decUsage pid fd fu s) := by
  have used : Piped (setUsage pid fd { fu with calls := fu.calls - 1 } s) := piped.usage look rfl id
  unfold Descriptors.decUsage
  dsimp only
  split
  · exact used.forget
  · exact used

theorem Piped.clone {child : Nat} (absent : ∀ fd, s.openFiles.lookup (child, fd) = none)
    (inherits : ∀ fd fu, s.openFiles.lookup (pid, fd) = some fu → fu.file.isPipe = true → fu.closing = false) :
    Piped (clone pid child s) := by
  refine (clone_keeps (I := fun t => Piped t ∧ ∀ fd fu, t.openFiles.lookup (pid, fd) = some fu →
    fu.file.isPipe = true → fu.closing = false) ⟨piped, inherits⟩ absent fun t fd fu here look free => ⟨?_, ?_⟩).1
  · exact here.1.share free (descriptors_pos look) fun isPipe => ⟨(pid, fd), fu, look, rfl, here.2 fd fu look isPipe⟩
  · intro other old look' isPipe
    by_cases same : (pid, other) = (child, fd)
    · rw [same, share_lookup_self] at look'
      cases look'
      rfl
    · rw [share_lookup same] at look'
      exact here.2 other old look' isPipe

theorem Piped.keeps {a : Label β} (inherits : Inherits s a) : Keeps Piped s a where
  makes here known _ makes := by
    have books := here.books.makes known makes
    cases makes with
    | fails => exact here
    | made free => exact here.install (allocateFd_some free).1
    | lost => exact here.of_less books (fun _ _ _ linked => (create_peer _).trans linked) fun _ _ opened => opened
    | hangs => exact here.of_less books (fun _ _ _ linked => (called_peer _).trans linked) fun _ _ opened => opened
  pipe {pid null} _ := by
    have pipes := dcePipe_pipes piped.books pid null
    generalize dcePipe pid null s = p at pipes ⊢
    cases pipes with
    | fails => exact piped
    | opened free ne absent => exact piped.madePipe (allocateFd_some free).1 ne absent
    | broken _ free => exact piped.brokenPipe (allocateFd_some free).1
  dup found free := piped.share (allocateFd_some free).1 (descriptors_pos (findOpen_some found).1) fun _ =>
    opened_of_findOpen found
  dup2 _ := piped.dup2 _ _ _ _
  close _ := piped.dceClose _ _ _
  enters found file closing := piped.usage (findOpen_some found).1 file fun open' => closing.symm.trans open'
  leave _ look _ := piped.decUsage look
  pollLeave _ look _ := piped.usage look rfl id
  touches born inert := piped.of_less (piped.books.update born inert.fdCount inert.ref inert.frees inert.given)
    (fun _ _ _ linked => (update_peer inert.peer _ _ _).trans linked) fun _ _ opened => opened
  fork label absent := by
    subst label
    exact piped.clone absent inherits
  exit _ := exit_keeps piped fun _ fd here => (here.nullifyUsage _ fd).dceClose _ fd none
  stop _ := stop_keeps piped fun _ _ here => here.forget

end

theorem piped_start : Piped (.start : System β) where
  books := books_start
  linked := by
    rintro n e ⟨key, fu, look, -⟩
    cases look

theorem piped_of_reach (reach : (machine β).ReachBy Inherits s) : Piped s := by
  refine reach.invariant (I := Piped) (fun s first => ?_) fun s a t piped inherits step => ?_
  · rw [first]
    exact piped_start
  · obtain ⟨⟨t, r⟩, run, rfl⟩ := map_eq_some_iff.mp step
    exact (piped.keeps inherits).respond piped (fun _ some => piped.books.born some) run

/-- An end that is open is there. -/
theorem Opened.frees (books : Books s) (opened : Opened f s) : (s.files f).frees = 0 := by
  obtain ⟨⟨pid, fd⟩, fu, look, rfl, -⟩ := opened
  exact ((books fu.file).counted (descriptors_pos look)).2.2.1

/-- What is done to a pipe goes right exactly where it is gentle, and each end finds the other one for
as long as both are open. -/
theorem pipesClose_gentle : PipesClose (β := β) Gentle ∧ ∀ s : System β, (machine β).ReachBy Inherits s → ∀ n e,
      Opened (.pipeFd n e) s → Opened (.pipeFd n e.other) s → Closes s none (.pipeFd n e) := by
  refine ⟨fun s reach a t r run => ?_, fun s reach n e here there =>
    ⟨(piped_of_reach reach).linked n e here there, there.frees (piped_of_reach reach).books⟩⟩
  cases a with
  | close pid fd status =>
    obtain rfl : (statusResult (dceClose pid fd status s)).2 = r := congrArg Prod.snd (some.inj run)
    exact close_right pid fd status s t
  | dup2 pid oldfd newfd status =>
    obtain rfl : (fdResult (dceDup2 pid oldfd newfd status s)).2 = r := congrArg Prod.snd (some.inj run)
    exact dup2_right (within_of_reach reach) pid oldfd newfd status t
  | method pid fd method =>
    cases method with
    | read count => exact read_right run
    | write | rewrite | setfl | accept => exact .rfl
  | «open» | socket | socketpair | pipe | dup | truncate | ifNametoindex | ifIndextoname | enter | leave
  | pollEnter | pollLeave | fork | exit | stop => exact .rfl

/-- A pipe of which the read end was closed. -/
def halfClosed : System Nat := (dceClose 0 0 none (madePipe 0 0 1 .start)).1

theorem halfClosed_reach : (machine Nat).Reach halfClosed := by
  have first : allocateFd 0 (.start : System Nat) = some 0 :=
    allocateFd_least (n := 0) (by decide) rfl fun m less => absurd less (Nat.not_lt_zero m)
  have second : allocateFd 0 (halfPipe 0 0 (.start : System Nat)) = some 1 := by
    refine allocateFd_least (n := 1) (by decide) rfl fun m less => ?_
    obtain rfl : m = 0 := by omega
    exact some_ne_none _
  have made : (machine Nat).step .start (.pipe 0 false) = some (madePipe 0 0 1 .start) :=
    congrArg some ((pairResult_fst _).trans (congrArg Prod.fst (dcePipe_opened (fun _ => rfl) first second)))
  exact .next (.next (.start rfl) trivial made) trivial (a := .close 0 0 none) (congrArg some (statusResult_fst _))

/-- The write end cannot be closed after the read end. -/
theorem not_pipesClose : ¬ PipesClose (β := Nat) fun _ _ => True := by
  intro pipesClose
  have right := (pipesClose _ halfClosed_reach (.close 0 1 none) _ _ rfl).mpr trivial
  have linked :=
    (close_right 0 1 none halfClosed _).mp right ⟨.pipeFd 0 .write, 0, 0, 0, false⟩ (by decide) rfl (by decide)
  exact absurd linked.1 (by decide)

end Dce.Descriptors
