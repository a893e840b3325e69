import Dce.Streams.Table

/- Every call on streams is good but a `dce_freopen`, which leaves a descriptor of the host open where it succeeds
and a freed stream in the table where it does not. -/

namespace Dce.Streams

open Option

open Descriptors (System Path Errno dceOpen dceClose)

variable {T β : Type*} {w v : World T β} {pid f : Nat} {status : Int → Option Errno}

theorem dceFdopen_system (pid : Nat) (fildes : Int) (answer : Answer) (w : World T β) :
    (dceFdopen pid fildes answer w).1.system = w.system := by
  cases answer <;> rfl

theorem dceFopen_spares (pid : Nat) (path : Path) (mode : List Char) (answer : Answer) (w : World T β) :
    Spares none w.system (dceFopen pid path mode answer w).1.system := by
  have opened : Spares none w.system (dceOpen pid path w.system).1 := dceOpen_spares pid path w.system
  unfold dceFopen
  split
  · split
    next system err makes => rwa [makes] at opened
    next system fd makes =>
      rw [makes] at opened
      rwa [dceFdopen_system]
  · exact .refl _ _

theorem Sound.fopen (sound : Sound w) {path : Path} {mode : List Char} {answer : Answer}
    (possible : Possible w answer) :
    Sound (dceFopen pid path mode answer w).1 := by
  unfold dceFopen
  split
  · split
    next system err _ => exact sound.withSystem system
    next system fd _ => exact (sound.withSystem system).fdopen (by cases answer <;> exact possible)
  · exact sound

theorem setup_keeps {first second third : Answer} (sound : Sound w) (run : setup pid first second third w = some v) :
    Sound v ∧ v.system = w.system := by
  unfold setup at run
  split at run
  next => exact some.inj run ▸ ⟨sound, rfl⟩
  next =>
    dsimp only at run
    split at run
    next possible =>
      have opened : Sound (dceFdopen pid 0 first w).1 := sound.fdopen possible
      split at run
      next possible =>
        have opened : Sound (dceFdopen pid 1 second (dceFdopen pid 0 first w).1).1 := opened.fdopen possible
        split at run
        next possible =>
          have opened : Sound (dceFdopen pid 2 third (dceFdopen pid 1 second (dceFdopen pid 0 first w).1).1).1 :=
            opened.fdopen possible
          refine some.inj run ▸ ⟨opened.withStd pid _, ?_⟩
          simp only [dceFdopen_system]
        next => cases run
      next => cases run
    next => cases run

variable {t : T} [DecidableEq T]

theorem removeStream_system (loop : Option (Nat × Bool)) : (removeStream pid t f loop w).1.system = w.system := by
  unfold removeStream
  split <;> rfl

theorem dceFcloseall_system (error : Bool) (i : Nat) : (dceFcloseall pid t error i w).1.system = w.system := by
  fun_induction dceFcloseall with
  | case1 i inside fp std ih => exact ih
  | case2 i inside fp other => exact removeStream_system _
  | case3 i outside => rfl

theorem flushed_keeps {c : Closing} {failed : Bool} (sound : Sound w) (flushes : w.closing (pid, t) = some c) :
    Sound (flushed pid t failed status c w).1 ∧
      Spares ((w.files c.file).map fun file => (pid, file._fileno)) w.system
      (flushed pid t failed status c w).1.system := by
  obtain ⟨file, found⟩ := isSome_iff_exists.mp (sound.flushing _ c flushes).2
  have freed : Sound (hostFclose pid c.file file status { w with
    closing := Function.update w.closing (pid, t) none }) :=
    sound.freed flushes file
  have spares : Spares (some (pid, file._fileno)) w.system
      (hostFclose pid c.file file status { w with closing := Function.update w.closing (pid, t) none }).system :=
    vtableClose_spares pid file status { w with closing := Function.update w.closing (pid, t) none }
  unfold flushed
  rw [found]
  cases c.loop with
  | none => exact ⟨freed, spares⟩
  | some rest =>
    refine ⟨freed.fcloseall _ _, ?_⟩
    rwa [dceFcloseall_system]

omit [DecidableEq T] in
theorem sound_start : Sound (World.start : World T β) :=
  ⟨⟨fun _ _ => by simp [World.start], fun _ => .nil, nofun, rfl⟩, nofun, nofun, nofun⟩

theorem sound_step {a : Label T β} {r : Result} (sound : Sound w) (careful : Careful w a)
    (run : respond w a = some (v, r)) :
    Sound v ∧ (onStreams a = true → Spares (applied w a) w.system v.system) ∧ (ends a = true → r = .done) := by
  cases a with
  | descriptors a =>
    unfold respond at run
    dsimp only at run
    split at run
    · obtain ⟨done, -, same⟩ := map_eq_some_iff.mp run
      cases same
      exact ⟨sound.withSystem _, nofun, nofun⟩
    · cases run
  | setup pid first second third =>
    obtain ⟨u, opens, same⟩ := map_eq_some_iff.mp run
    cases same
    obtain ⟨sound, system⟩ := setup_keeps sound opens
    exact ⟨sound, fun _ => system ▸ .refl _ _, nofun⟩
  | fdopen pid fildes answer =>
    unfold respond at run
    dsimp only at run
    split at run
    next possible =>
      cases run
      exact ⟨sound.fdopen possible, fun _ => (dceFdopen_system pid fildes answer w) ▸ .refl _ _, nofun⟩
    next => cases run
  | fopen pid path mode answer =>
    unfold respond at run
    dsimp only at run
    split at run
    next possible =>
      cases run
      exact ⟨sound.fopen possible, fun _ => dceFopen_spares pid path mode answer w, nofun⟩
    next => cases run
  | freopen pid path mode stream answer status =>
    unfold respond at run
    dsimp only at run
    split at run
    · have refused : dceFreopen pid path mode stream answer status w = (w, .stream none) := by
        simp [dceFreopen, show modeValid mode = false from careful]
      rw [refused] at run
      cases run
      exact ⟨sound, fun _ => .refl _ _, nofun⟩
    next => cases run
  | fclose pid t fp =>
    unfold respond at run
    dsimp only at run
    split at run
    · have same : (dceFclose pid t fp w).1.system = w.system := by
        unfold dceFclose
        split
        · rfl
        · exact removeStream_system _
      rw [show v = (dceFclose pid t fp w).1 from (congrArg Prod.fst (some.inj run)).symm]
      exact ⟨sound.fclose, fun _ => same ▸ .refl _ _, nofun⟩
    next => cases run
  | fcloseall pid t =>
    unfold respond at run
    dsimp only at run
    split at run
    · rw [show v = (dceFcloseall pid t false 0 w).1 from (congrArg Prod.fst (some.inj run)).symm]
      exact ⟨sound.fcloseall _ _, fun _ => (dceFcloseall_system (w := w) false 0) ▸ .refl _ _, nofun⟩
    next => cases run
  | flushed pid t failed status =>
    obtain ⟨c, flushes, same⟩ := map_eq_some_iff.mp run
    have kept : Sound (flushed pid t failed status c w).1 ∧ _ := flushed_keeps sound flushes
    obtain ⟨sound, spares⟩ := kept
    rw [same] at sound spares
    refine ⟨sound, fun _ => ?_, nofun⟩
    simpa [applied, flushes] using spares
  | fork pid child =>
    obtain ⟨done, -, same⟩ := map_eq_some_iff.mp run
    cases same
    exact ⟨(sound.withSystem _).withStd child _, nofun, nofun⟩
  | exit pid =>
    have gone : Sound (deleteProcess pid { w with system := Descriptors.exit pid w.system }).1 ∧ _ :=
      (sound.withSystem _).deleteProcess
    rw [some.inj run] at gone
    exact ⟨gone.1, nofun, fun _ => gone.2⟩
  | stop pid =>
    have gone : Sound (deleteProcess pid { w with system := Descriptors.stop pid w.system }).1 ∧ _ :=
      (sound.withSystem _).deleteProcess
    rw [some.inj run] at gone
    exact ⟨gone.1, nofun, fun _ => gone.2⟩

omit [DecidableEq T] in
/-- With a mode that `dce_freopen` accepts the tables are wrong, whatever the host and `dce_open` do. -/
theorem reopened_inconsistent {path : Path} {mode : List Char} {stream : Nat} {answer : Option Int} (sound : Sound w)
    (held : w.holder stream = some pid) (valid : modeValid mode = true) :
    ¬ Consistent (dceFreopen pid path mode stream answer status w).1 := by
  have mem := sound.mem_openStreams held
  obtain ⟨file, found⟩ := isSome_iff_exists.mp (sound.live stream pid held)
  obtain ⟨system, hostFds, closes⟩ := vtableClose_eq (w := w) pid { file with _fileno := -1 } status
  have freed : ∀ v : World T β, (v.processes pid).openStreams = (w.processes pid).openStreams →
    v.files stream = none →
      ¬ Consistent v := fun v streams gone consistent => by
    have alive := ((consistent.listed pid stream).mp (streams ▸ mem)).2
    simp [gone] at alive
  unfold dceFreopen
  rw [if_pos valid, found]
  dsimp only [hostFclose]
  rw [closes]
  cases answer with
  | none => exact freed _ rfl (by simp [setFile])
  | some hostFd =>
    dsimp only
    split
    next opened err fails => exact freed _ rfl (by simp [setFile])
    next opened fd opens =>
      intro consistent
      have closed := consistent.closed
      simp [setFile, hostOpen, closeFd] at closed

/-- The tables are right after every call of a run exactly if it reopens no stream. -/
theorem consistent_iff_careful {verdict : Machine.Verdict}
    (reach : ((machine T β).judged Careful Good).Reach (w, verdict)) : verdict.good ↔ verdict.careful := by
  refine Machine.judged_iff Sound (fun w first => ?_) (fun w a v sound run => ?_) reach
  · cases first
    exact sound_start
  · obtain ⟨⟨v, r⟩, does, rfl⟩ := map_eq_some_iff.mp run
    refine ⟨⟨fun good => ?_, fun careful u r does => ?_⟩, fun careful => (sound_step sound careful does).1⟩
    · cases a with
      | freopen pid path mode stream answer status =>
        by_contra accepted
        have right : Consistent v := (good v r does).1
        unfold respond at does
        dsimp only at does
        split at does
        next possible =>
          rw [show v = _ from (congrArg Prod.fst (some.inj does)).symm] at right
          exact reopened_inconsistent sound possible.1 (Bool.not_eq_false _ ▸ accepted) right
        next => cases does
      | _ => trivial
    · obtain ⟨sound, keeps⟩ := sound_step sound careful does
      exact ⟨sound.toConsistent, keeps⟩

/-- A process with the descriptor 0 and a stream at it. -/
def opened : World Unit Nat := (dceFopen 1 (.real none) ['w'] (some (0, 3)) .start).1

theorem dceOpen_start : dceOpen 1 (.real none)
    (System.start : System Nat) = (Descriptors.install 1 0 .start, .ok 0) := by
  refine Descriptors.dceOpen_opened (.inr rfl) ?_
  exact Descriptors.allocateFd_least (by decide) rfl nofun

theorem opened_eq : opened =
    (dceFdopen 1 0 (some (0, 3)) { (World.start : World Unit Nat) with
      system := Descriptors.install 1 0 .start }).1 := by
  unfold opened dceFopen
  rw [if_pos (show modeValid ['w'] = true from rfl), show (World.start : World Unit Nat).system = .start from rfl,
    dceOpen_start]

theorem opened_step : (machine Unit Nat).step .start (.fopen 1 (.real none) ['w'] (some (0, 3))) = some opened := rfl

/-- The stream after `dce_freopen` has found nothing at a path. -/
def reopened : World Unit Nat := (dceFreopen 1 .empty ['r'] 0 (some 3) (fun _ => none) opened).1

/-- The end of the process uses the stream that is freed. -/
example : (deleteProcess 1 reopened).2 = .crashed := by
  unfold reopened
  rw [opened_eq]
  rfl

/-- A `dce_freopen` of a path where nothing is frees a stream that the table keeps. -/
theorem not_consistent : ¬ ∀ (w : World Unit Nat) verdict,
    ((machine Unit Nat).judged Careful Good).Reach (w, verdict) → verdict.good := by
  intro consistent
  have first : (machine Unit Nat).Reach opened := .next (.start rfl) trivial opened_step
  obtain ⟨verdict, reach⟩ := first.ledgered
  have held : opened.holder 0 = some 1 := by
    rw [opened_eq]
    rfl
  have reopens : respond opened (.freopen 1 .empty ['r'] 0 (some 3) fun _ => none) =
      some (dceFreopen 1 .empty ['r'] 0 (some 3) (fun _ => none) opened) := by
    rw [opened_eq]
    rfl
  have step : (machine Unit Nat).step opened (.freopen 1 .empty ['r'] 0 (some 3) fun _ => none) = some reopened :=
    congrArg (Option.map Prod.fst) reopens
  have last := reach.next (a := .freopen 1 .empty ['r'] 0 (some 3) fun _ => none) trivial
    (map_eq_some_iff.mpr ⟨reopened, step, rfl⟩)
  have good : Good opened (.freopen 1 .empty ['r'] 0 (some 3) fun _ => none) := (consistent _ _ last).2
  have sound : Sound opened := sound_start.fopen ⟨rfl, by decide⟩
  have right : Consistent (dceFreopen 1 .empty ['r'] 0 (some 3) (fun _ => none) opened).1 := (good _ _ reopens).1
  exact reopened_inconsistent sound held rfl right

/-- The stream is closed. -/
theorem consistent_iff_careful_closed : ∃ w verdict, ((machine Unit Nat).judged Careful Good).Reach (w, verdict) ∧
    (w.processes 1).openStreams = [] ∧ verdict.good := by
  have first : (machine Unit Nat).ReachBy Careful opened :=
    .next (a := .fopen 1 (.real none) ['w'] (some (0, 3))) (.start rfl) trivial opened_step
  obtain ⟨v, closes, w, flushes, nothing⟩ : ∃ v, (machine Unit Nat).step opened (.fclose 1 () 0) = some v ∧
      ∃ w, (machine Unit Nat).step v (.flushed 1 () false fun _ => none) = some w ∧
      (w.processes 1).openStreams = [] := by
    rw [opened_eq]
    exact ⟨_, rfl, _, rfl, rfl⟩
  have second : (machine Unit Nat).ReachBy Careful v := first.next (a := .fclose 1 () 0) trivial closes
  have last : (machine Unit Nat).ReachBy Careful w :=
    second.next (a := .flushed 1 () false fun _ => none) trivial flushes
  obtain ⟨verdict, reach, careful⟩ := last.judged
  exact ⟨w, verdict, reach, nothing, (consistent_iff_careful reach).mpr careful⟩

end Dce.Streams
