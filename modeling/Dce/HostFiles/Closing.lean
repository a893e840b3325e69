import Dce.HostFiles.Ownership

/- Every host descriptor is closed once, as long as no last descriptor of a file is closed: `UnixFileFd::Close`
closes what the destructor closes again. -/

namespace Dce.HostFiles

open Function Option

open Descriptors (System File FileUsage Path Errno Each Books Redirects Elsewhere descriptors allocateFd findOpen)

variable {β : Type*}

section

/-- A host descriptor is open as long as a descriptor of a process refers to it and was closed once when none does,
and none is lost. -/
structure Fine (w : World β) : Prop where
  once : ∀ n, w.Real n → (w.system.files (.unixFd n)).given = true →
    w.closed n = if descriptors (.unixFd n) w.system = 0 then 1 else 0
  lost : w.lost = 0

/-- A step uses host descriptors that are open, and leaves all of them fine. -/
def Good (w : World β) (a : Label) : Prop := (∀ n ∈ uses w a, w.closed n = 0) ∧ ∀ v, step w a = some v → Fine v

/-- The descriptor is the last one that refers to a host descriptor. -/
def LastOf (w : World β) (pid : Nat) (fd : Int) : Prop :=
  ∃ fu, w.system.openFiles.lookup (pid, fd) = some fu ∧ Last w.Real w.system fu

/-- No step closes the last descriptor that refers to a host descriptor, no `dce_mkstemp` finds no free descriptor,
and no `dce_closedir` closes a stream whose descriptor is one of the host's files. A `dce_opendir` closes the
descriptor that it has opened where the host's `opendir` fails. -/
def Careful (w : World β) : Label → Prop
  | .close pid fd _ => ¬ LastOf w pid fd
  | .dup2 pid oldfd newfd _ =>
    Redirects pid oldfd newfd w.system → (findOpen pid newfd w.system).isSome → ¬ LastOf w pid newfd
  | .mkstemp pid made => made.isOk → allocateFd pid w.system ≠ none
  | .opendir pid path minimizeFiles _ answer _ =>
    answer = none → path = .real none → ∀ fd ∈ allocateFd pid w.system, light minimizeFiles fd = true
  | .closedir pid dirp _ _ => ∀ fd ∈ w.dirs dirp, dirObject pid fd w = none
  | .exit pid => ∀ fd fu n, w.system.openFiles.lookup (pid, fd) = some fu → fu.file = .unixFd n → w.Real n →
    Elsewhere pid fu.file w.system
  | _ => True

end

section

variable {real : Nat → Prop} {s : System β} {pid : Nat} {fd oldfd newfd : Int} {status : Option Errno}
    (kept : Kept real s)
include kept

theorem Kept.stop (pid : Nat) : Kept real (Descriptors.stop pid s) :=
  Descriptors.stop_keeps kept fun _ _ here => here.forget

theorem Kept.clone {child : Nat} (absent : ∀ fd, s.openFiles.lookup (child, fd) = none) :
    Kept real (Descriptors.clone pid child s) :=
  Descriptors.clone_keeps kept absent fun _ _ _ here look free => here.share free look

theorem Kept.dups {p : System β × Except Errno Int} (dups : Descriptors.Dups pid s p) : Kept real p.1 := by
  cases dups with
  | fails => exact kept
  | same => exact kept
  | shares found absent => exact kept.share absent (Descriptors.findOpen_some found).1

omit kept in
theorem Twice.dups {n : Nat} (twice : Twice n s) {p : System β × Except Errno Int}
    (dups : Descriptors.Dups pid s p) :
    Twice n p.1 := by
  cases dups with
  | fails => exact twice
  | same => exact twice
  | @shares oldfd fd fu found absent =>
    by_cases mine : File.unixFd n = fu.file
    · rw [Twice, mine] at twice ⊢
      simpa [Descriptors.share, Descriptors.newFileUsage, Descriptors.setUsage, Descriptors.ref,
        Descriptors.incFdCount]
        using twice.2
    · rw [Twice] at twice ⊢
      simpa [Descriptors.share, Descriptors.newFileUsage, Descriptors.setUsage, Descriptors.ref,
        Descriptors.incFdCount, mine]
        using twice

variable (status : Option Errno)

theorem Kept.dup2 (more : Redirects pid oldfd newfd s → (findOpen pid newfd s).isSome →
      ∀ fu, s.openFiles.lookup (pid, newfd) = some fu → ¬ Last real s fu) :
    Kept real (Descriptors.dceDup2 pid oldfd newfd status s).1 := by
  have dup2 := Descriptors.dceDup2_dup2 pid oldfd newfd status s
  generalize Descriptors.dceDup2 pid oldfd newfd status s = p at dup2 ⊢
  cases dup2 with
  | direct dups => exact kept.dups dups
  | refused err redirects found => exact kept.close status (more redirects (by simp [found]))
  | closed redirects found dups => exact (kept.close status (more redirects (by simp [found]))).dups dups

theorem Kept.dup2_last {fu : FileUsage} {n : Nat}
    (redirects : Redirects pid oldfd newfd s) (target : findOpen pid newfd s = some fu) (file : fu.file = .unixFd n)
    (last : (s.files fu.file).fdCount = 1) : Twice n (Descriptors.dceDup2 pid oldfd newfd status s).1 := by
  obtain ⟨old, found⟩ := isSome_iff_exists.mp redirects.opened
  have twice := close_last kept.books kept.idle status (Descriptors.findOpen_some target).1 file last
  by_cases closes : (Descriptors.dceClose pid newfd status s).2 = none
  · rw [Descriptors.dup2_closed found (Int.not_lt.mpr redirects.bound) redirects.differ target closes]
    have there : findOpen pid oldfd (Descriptors.dceClose pid newfd status s).1 = some old := by
      rw [findOpen, Descriptors.dceClose_lookup (by simpa using redirects.differ)]
      exact found
    exact twice.dups (Descriptors.dupTo_dups there)
  · obtain ⟨err, refused⟩ :=
      Descriptors.dup2_refused found (Int.not_lt.mpr redirects.bound) redirects.differ target closes
    rw [refused]
    exact twice

end

section

variable {w v : World β} {pid : Nat} {fd : Int} {status : Option Errno} {n : Nat}

/-- The invariant of the careful runs. -/
structure Sound (w : World β) : Prop where
  kept : Kept w.Real w.system
  dirs : ∀ n, w.dirCloses n = 0
  lost : w.lost = 0

theorem Sound.fine (sound : Sound w) : Fine w where
  once n real given := by
    obtain ⟨held, gone⟩ := sound.kept.owned (.unixFd n)
    rw [World.closed, sound.dirs n]
    split
    next none => exact gone n rfl real given none
    next some => exact held n rfl real (pos_of_ne_zero some)
  lost := sound.lost

theorem getRealFd_some (found : getRealFd pid fd w = some n) :
    w.Real n ∧ ∃ fu, w.system.openFiles.lookup (pid, fd) = some fu ∧ fu.file = .unixFd n := by
  unfold getRealFd at found
  split at found
  next k calls polls stale closing opened =>
    split at found
    next real =>
      cases found
      exact ⟨real, _, (Descriptors.findOpen_some opened).1, rfl⟩
    next => cases found
  next => cases found

theorem dirObject_some (object : dirObject pid fd w = some n) : getRealFd pid (-fd) w = some n := by
  unfold dirObject at object
  split at object
  next => cases object
  next => exact object

/-- What `dce_open` comes to: the object it makes has a descriptor of the host if the path is a file's and not a
light one. -/
inductive Opened (pid : Nat) (path : Path) (minimizeFiles : Bool) (w : World β) : World β × Except Errno Int → Prop
  | fails (err : Errno) : Opened pid path minimizeFiles w (w, .error err)
  | made {fd : Int} (realFd : Int) : allocateFd pid w.system = some fd →
      (realFd ≠ -1 → path = .real none ∧ light minimizeFiles fd = false) →
      Opened pid path minimizeFiles w (HostFiles.install pid fd realFd w, .ok fd)

variable (sound : Sound w)
include sound

theorem Sound.uses {a : Label} (mem : n ∈ uses w a) : w.closed n = 0 := by
  have opened {pid : Nat} {fd : Int} (found : getRealFd pid fd w = some n) : w.closed n = 0 := by
    obtain ⟨real, fu, look, file⟩ := getRealFd_some found
    rw [World.closed, sound.dirs n]
    exact (sound.kept.owned (.unixFd n)).held n rfl real (file ▸ Descriptors.descriptors_pos look)
  cases a with
  | io pid fd => exact opened mem
  | readdir pid dirp =>
    obtain ⟨fd, -, object⟩ := bind_eq_some_iff.mp mem
    exact opened (dirObject_some object)
  | _ => cases mem

theorem Sound.withSystem {s : System β} (kept : Kept w.Real s) : Sound { w with system := s } :=
  ⟨kept, sound.dirs, sound.lost⟩

theorem Sound.withDirs (dirs : Nat → Option Int) (openDirs : Nat → List Nat) :
    Sound { w with dirs := dirs, openDirs := openDirs } := ⟨sound.kept, sound.dirs, sound.lost⟩

omit sound in
theorem install_real_other (pid : Nat) (fd : Int) (realFd : Int) (other : n ≠ w.system.next) :
    (install pid fd realFd w).Real n ↔ w.Real n := by
  show update w.m_realFd w.system.next realFd n ≠ -1 ↔ w.m_realFd n ≠ -1
  rw [update_of_ne other]

omit sound in
theorem install_real (pid : Nat) (fd : Int) (realFd : Int) (w : World β) :
    (install pid fd realFd w).Real w.system.next ↔ realFd ≠ -1 := by
  show update w.m_realFd w.system.next realFd w.system.next ≠ -1 ↔ realFd ≠ -1
  rw [update_self]

omit sound in
theorem install_lookup_self (pid : Nat) (fd : Int) (realFd : Int) (w : World β) :
    (install pid fd realFd w).system.openFiles.lookup (pid, fd) = some ⟨.unixFd w.system.next, 0, 0, 0, false⟩ :=
  AList.lookup_insert _

theorem Sound.install (absent : w.system.openFiles.lookup (pid, fd) = none)
    (realFd : Int) : Sound (install pid fd realFd w) :=
  ⟨sound.kept.install absent fun _ other => install_real_other pid fd realFd other, sound.dirs, sound.lost⟩

theorem Sound.close (status : Option Errno) (more : ¬ LastOf w pid fd) : Sound (dceClose pid fd status w) :=
  sound.withSystem (sound.kept.close status fun fu look last => more ⟨fu, look, last⟩)

theorem Sound.fdopendir (pid : Nat) (fd : Int) (answer : Option Nat) : Sound (dceFdopendir pid fd answer w).1 := by
  cases answer with
  | none => exact sound
  | some dirp => exact sound.withDirs _ _

omit sound in
theorem dceOpen_opened (pid : Nat) (path : Path) (minimizeFiles : Bool) (realFd : Nat) (w : World β) :
    Opened pid path minimizeFiles w (dceOpen pid path minimizeFiles realFd w) := by
  unfold dceOpen
  cases path with
  | empty => exact .fails _
  | random =>
    dsimp only
    split
    next => exact .fails _
    next fd free => exact .made _ free fun real => absurd rfl real
  | real opened =>
    dsimp only
    split
    next => exact .fails _
    next => exact .fails _
    next fd free =>
      refine .made _ free fun real => ⟨rfl, ?_⟩
      split at real
      next => exact absurd rfl real
      next heavy => exact Bool.eq_false_iff.mpr heavy

theorem Sound.open (pid : Nat) (path : Path) (minimizeFiles : Bool) (realFd : Nat) :
    Sound (dceOpen pid path minimizeFiles realFd w).1 := by
  have opened := dceOpen_opened pid path minimizeFiles realFd w
  generalize dceOpen pid path minimizeFiles realFd w = p at opened ⊢
  cases opened with
  | fails err => exact sound
  | made number free => exact sound.install (Descriptors.allocateFd_some free).1 number

theorem Sound.opendir {path : Path} {minimizeFiles : Bool} {realFd : Nat} {answer : Option Nat}
    (careful : Careful w (.opendir pid path minimizeFiles realFd answer status)) :
    Sound (dceOpendir pid path minimizeFiles realFd answer status w).1 := by
  have opened := dceOpen_opened pid path minimizeFiles realFd w
  unfold dceOpendir
  generalize dceOpen pid path minimizeFiles realFd w = p at opened ⊢
  cases opened with
  | fails err => exact sound
  | @made fd number free there =>
    have made := sound.install (Descriptors.allocateFd_some free).1 number
    cases answer with
    | some dirp => exact made.fdopendir pid fd (some dirp)
    | none =>
      refine made.close status ?_
      rintro ⟨fu, look, n, file, real, -⟩
      rw [install_lookup_self] at look
      cases look
      obtain rfl := File.unixFd.inj file
      obtain ⟨path, heavy⟩ := there ((install_real ..).mp real)
      exact Bool.false_ne_true (heavy.symm.trans (careful rfl path fd free))

theorem sound_step {a : Label} (careful : Careful w a) (run : step w a = some v) : Sound v := by
  cases a with
  | «open» pid path minimizeFiles realFd => exact some.inj run ▸ sound.open pid path minimizeFiles realFd
  | mkstemp pid made =>
    refine some.inj run ▸ ?_
    unfold dceMkstemp
    cases made with
    | error errno => exact sound
    | ok realFd =>
      dsimp only
      split
      next full => exact absurd full (careful rfl)
      next fd free => exact sound.install (Descriptors.allocateFd_some free).1 _
  | opendir pid path minimizeFiles realFd answer status => exact some.inj run ▸ sound.opendir careful
  | fdopendir pid fd answer => exact some.inj run ▸ sound.fdopendir pid fd answer
  | readdir pid dirp =>
    obtain ⟨fd, -, rfl⟩ := map_eq_some_iff.mp run
    exact sound
  | closedir pid dirp ok status =>
    obtain ⟨fd, there, rfl⟩ := map_eq_some_iff.mp run
    rw [dceClosedir, careful fd there]
    exact sound
  | dup pid oldfd => exact some.inj run ▸ sound.withSystem (sound.kept.dups (Descriptors.dceDup_dups pid oldfd _))
  | dup2 pid oldfd newfd status =>
    refine some.inj run ▸ sound.withSystem (sound.kept.dup2 status fun redirects opened fu look last => ?_)
    exact careful redirects opened ⟨fu, look, last⟩
  | fork pid child =>
    dsimp only [step] at run
    split at run
    next free =>
      refine some.inj run ▸ sound.withSystem (sound.kept.clone fun fd => ?_)
      by_contra present
      exact free _ (not_not.mp (AList.lookup_eq_none.not.mp present)) rfl
    next => cases run
  | close pid fd status => exact some.inj run ▸ sound.close status careful
  | io pid fd => exact some.inj run ▸ sound
  | exit pid => exact some.inj run ▸ (sound.withSystem (sound.kept.exit careful)).withDirs _ _
  | stop pid => exact some.inj run ▸ (sound.withSystem (sound.kept.stop pid)).withDirs _ _

end

section

variable {w v : World β} {pid : Nat} {fd oldfd newfd : Int} {status : Option Errno} {n : Nat}

theorem Fine.held (fine : Fine v) (books : Books v.system) (real : v.Real n)
    (some : 0 < descriptors (.unixFd n) v.system) :
    v.closed n = 0 := by
  have given := ((books (.unixFd n)).counted some).2.2.2
  rw [fine.once n real given, if_neg (ne_of_gt some)]

theorem Twice.not_fine (twice : Twice n v.system) (real : v.Real n) : ¬ Fine v := by
  intro fine
  obtain ⟨given, closes, frees⟩ := twice
  have once := fine.once n real given
  rw [World.closed] at once
  split at once <;> omega

variable (sound : Sound w)
include sound

section

variable (status : Option Errno)

theorem Sound.close_twice (last : LastOf w pid fd) : ¬ Fine (dceClose pid fd status w) := by
  obtain ⟨fu, look, n, file, real, last⟩ := last
  exact (close_last sound.kept.books sound.kept.idle status look file last).not_fine real

theorem Sound.dup2_twice (redirects : Descriptors.Redirects pid oldfd newfd w.system)
    (opened : (findOpen pid newfd w.system).isSome) (last : LastOf w pid newfd) :
    ¬ Fine { w with system := (Descriptors.dceDup2 pid oldfd newfd status w.system).1 } := by
  obtain ⟨fu, look, n, file, real, last⟩ := last
  obtain ⟨other, target⟩ := isSome_iff_exists.mp opened
  obtain rfl : fu = other := some.inj (look.symm.trans (Descriptors.findOpen_some target).1)
  exact (sound.kept.dup2_last status redirects target file last).not_fine real

theorem Sound.install_last (absent : w.system.openFiles.lookup (pid, fd) = none) (realFd : Nat) :
    LastOf (HostFiles.install pid fd realFd w) pid fd := by
  have look := install_lookup_self pid fd realFd w
  refine ⟨_, look, w.system.next, rfl, (install_real pid fd realFd w).mpr (by omega), ?_⟩
  have made := (sound.install absent (realFd : Int)).kept.books.counted (Descriptors.descriptors_pos look)
  have none := ((sound.kept.books (.unixFd w.system.next)).unborn le_rfl).2
  have one : descriptors (.unixFd w.system.next) (HostFiles.install pid fd realFd w).system =
      descriptors (.unixFd w.system.next) w.system + if File.unixFd w.system.next = .unixFd w.system.next then 1
      else 0 :=
    Descriptors.descriptors_newFileUsage absent
  rw [if_pos rfl, none] at one
  rw [made, one]
  rfl

theorem Sound.opendir_twice {minimizeFiles : Bool} {fd : Int}
    (free : allocateFd pid w.system = some fd) (heavy : light minimizeFiles fd = false) (realFd : Nat) :
    ¬ Fine (dceOpendir pid (.real none) minimizeFiles realFd none status w).1 := by
  have opens : dceOpen pid (.real none) minimizeFiles realFd w = (HostFiles.install pid fd realFd w, .ok fd) := by
    simp [dceOpen, free, heavy]
  have absent := (Descriptors.allocateFd_some free).1
  have closes : (dceOpendir pid (.real none) minimizeFiles realFd none status w).1 =
      dceClose pid fd status (HostFiles.install pid fd realFd w) := by
    rw [dceOpendir, opens]
    rfl
  rw [closes]
  exact (sound.install absent realFd).close_twice status (sound.install_last absent realFd)

end

/-- The host's `closedir` closes the descriptor of an object that is open, or that `dce_close` closes as well. -/
theorem Sound.closedir_twice {dirp : Nat} (object : dirObject pid fd w = some n) (ok : Bool)
    (status : Option Errno) : ¬ Fine (dceClosedir pid dirp fd ok status w) := by
  obtain ⟨real, fu, look, file⟩ := getRealFd_some (dirObject_some object)
  have opened : ∀ v : World β, v.m_realFd = w.m_realFd → v.dirCloses = update w.dirCloses n (w.dirCloses n + 1) →
      Books v.system → 0 < descriptors (.unixFd n) v.system → ¬ Fine v := by
    intro v same closes books some fine
    have held := fine.held books (by rwa [World.Real, same]) some
    rw [World.closed, closes, update_self] at held
    omega
  have there : 0 < descriptors (.unixFd n) w.system := file ▸ Descriptors.descriptors_pos look
  unfold dceClosedir
  rw [object]
  cases ok with
  | false => exact opened _ rfl rfl sound.kept.books there
  | true =>
    by_cases last : (w.system.files fu.file).fdCount = 1
    · exact (close_last sound.kept.books sound.kept.idle status look file last).not_fine real
    · refine opened _ rfl rfl (sound.kept.books.dceClose pid (-fd) status) ?_
      have count := sound.kept.books.counted (Descriptors.descriptors_pos look)
      have left := Descriptors.descriptors_forget (h := fu.file) look
      rw [if_pos rfl] at left
      show 0 < descriptors (.unixFd n) (Descriptors.dceClose pid (-fd) status w.system).1
      rw [sound.kept.idle.more look last, ← file]
      omega

theorem Sound.exit_twice {fu : FileUsage} (look : w.system.openFiles.lookup (pid, fd) = some fu)
    (file : fu.file = .unixFd n) (real : w.Real n) (alone : ¬ Elsewhere pid fu.file w.system) :
    ¬ Fine (closeDirs pid { w with system := Descriptors.exit pid w.system }) := by
  have there : 0 < descriptors (.unixFd n) w.system := file ▸ Descriptors.descriptors_pos look
  have own : ∀ key other, w.system.openFiles.lookup key = some other → other.file = .unixFd n → key.1 = pid := by
    intro key other look same
    by_contra away
    exact alone ⟨key, other, away, look, same.trans file.symm⟩
  exact (HostFiles.exit_twice sound.kept.books sound.kept.idle there own).not_fine real

/-- A step that is not careful leaves a descriptor of the host that was closed twice or too early, or that is
lost. -/
theorem careful_of_fine {a : Label} (run : step w a = some v) (fine : Fine v) : Careful w a := by
  cases a with
  | mkstemp pid made =>
    intro makes full
    cases run
    cases made with
    | error errno => cases makes
    | ok realFd =>
      have lost := fine.lost
      simp [dceMkstemp, full] at lost
  | opendir pid path minimizeFiles realFd answer status =>
    intro fails path fd free
    subst fails path
    cases run
    by_contra heavy
    exact sound.opendir_twice status free (Bool.not_eq_true _ ▸ heavy) realFd fine
  | closedir pid dirp ok status =>
    intro fd there
    by_contra object
    obtain ⟨n, object⟩ := ne_none_iff_exists'.mp object
    obtain ⟨other, same, rfl⟩ := map_eq_some_iff.mp run
    cases same.symm.trans there
    exact sound.closedir_twice object ok status fine
  | dup2 pid oldfd newfd status =>
    intro redirects opened last
    exact sound.dup2_twice status redirects opened last (some.inj run ▸ fine)
  | close pid fd status =>
    intro last
    exact sound.close_twice status last (some.inj run ▸ fine)
  | exit pid =>
    intro fd fu n look file real
    by_contra alone
    exact sound.exit_twice look file real alone (some.inj run ▸ fine)
  | _ => trivial

end

section

variable {w : World β}

theorem sound_start : Sound (World.start : World β) where
  kept := by
    refine ⟨Descriptors.books_start, fun f => ⟨fun _ _ real => absurd rfl real, fun _ _ real => absurd rfl real⟩, ?_⟩
    intro key fu look
    cases look
  dirs _ := rfl
  lost := rfl

/-- In a run the descriptors of the host are used while they are open and closed once exactly if all its steps are
careful: it is the end of the simulation that closes them. -/
theorem closedOnce_iff_careful {verdict : Machine.Verdict}
    (reach : ((machine β).judged Careful Good).Reach (w, verdict)) : verdict.good ↔ verdict.careful := by
  refine Machine.judged_iff Sound (fun w first => ?_) (fun w a v sound run =>
    ⟨⟨fun good => ?_, fun careful => ?_⟩, ?_⟩) reach
  · cases first
    exact sound_start
  · exact careful_of_fine sound run (good.2 v run)
  · exact ⟨fun n member => sound.uses member, fun u does => (sound_step sound careful does).fine⟩
  · exact fun careful => sound_step sound careful run

/-- A process with a file of the host at the descriptor 0. -/
def opened : World Nat := (dceOpen 1 (.real none) false 3 .start).1

theorem opened_eq : opened = install 1 0 3 .start := by
  have free : allocateFd 1 (World.start : World Nat).system = some 0 :=
    Descriptors.allocateFd_least (by decide) rfl nofun
  simp [opened, dceOpen, free, light]

theorem opened_reach : (machine Nat).Reach opened :=
  .next (a := .open 1 (.real none) false 3) (.start rfl) trivial rfl

/-- A program opens a file and closes it. -/
theorem not_closedOnce : ¬ ∀ (w : World Nat) verdict, ((machine Nat).judged Careful Good).Reach (w, verdict) →
    verdict.good := by
  intro closedOnce
  obtain ⟨verdict, reach⟩ := opened_reach.ledgered
  have closes : (machine Nat).step opened (.close 1 0 none) = some (dceClose 1 0 none opened) := rfl
  have after := reach.next (a := .close 1 0 none) trivial (map_eq_some_iff.mpr ⟨_, closes, rfl⟩)
  have good : Good opened (.close 1 0 none) := (closedOnce _ _ after).2
  have sound : Sound opened := sound_start.open 1 (.real none) false 3
  have last : LastOf opened 1 0 := opened_eq ▸ sound_start.install_last rfl 3
  exact sound.close_twice none last (good.2 _ closes)

/-- It is stopped with the file open. -/
def stopped : World Nat := closeDirs 1 { opened with system := Descriptors.stop 1 opened.system }

theorem closedOnce_iff_careful_stopped : (stopped.system.files (.unixFd 0)).frees = 1 ∧
    ∃ verdict, ((machine Nat).judged Careful Good).Reach (stopped, verdict) ∧ verdict.good := by
  have first : (machine Nat).ReachBy Careful opened :=
    .next (a := .open 1 (.real none) false 3) (.start rfl) trivial rfl
  have last : (machine Nat).ReachBy Careful stopped := .next (a := .stop 1) first trivial rfl
  obtain ⟨verdict, reach, careful⟩ := last.judged
  refine ⟨?_, verdict, reach, (closedOnce_iff_careful reach).mpr careful⟩
  rw [stopped, opened_eq]
  rfl

end

end Dce.HostFiles
