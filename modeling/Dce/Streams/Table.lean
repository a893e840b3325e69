import Dce.Descriptors.Atomicity
import Dce.Streams.Model

/- The streams that a process has opened and its table of streams: what `dce_fopen`, `dce_fdopen`, `dce_fclose` and
`dce_fcloseall` keep right, and `dce_freopen` does not. -/

namespace Dce.Streams

open Function

open Descriptors (System Path Errno dceOpen dceClose)

variable {T β : Type*}

/-- The table of a process has the live streams that it has obtained and not closed, each once; a live stream has the
descriptor that it was opened on, and nothing of the host's is open behind a stream. -/
structure Consistent (w : World T β) : Prop where
  listed : ∀ pid f, f ∈ (w.processes pid).openStreams ↔ w.holder f = some pid ∧ (w.files f).isSome
  once : ∀ pid, (w.processes pid).openStreams.Nodup
  fileno : ∀ f file, w.files f = some file → file._fileno = w.opened f
  closed : w.hostFds = []

/-- All descriptors but `own` stay as they are. -/
def Spares (own : Option (Nat × Int)) (s v : System β) : Prop :=
  ∀ key fu, some key ≠ own → s.openFiles.lookup key = some fu → v.openFiles.lookup key = some fu

/-- The descriptor of the stream that a call is applied to. -/
def applied (w : World T β) : Label T β → Option (Nat × Int)
  | .fclose pid _ fp => (w.files fp).map fun file => (pid, file._fileno)
  | .freopen pid _ _ stream _ _ => (w.files stream).map fun file => (pid, file._fileno)
  | .flushed pid t _ _ => (w.closing (pid, t)).bind fun c => (w.files c.file).map fun file => (pid, file._fileno)
  | _ => none

def onStreams : Label T β → Bool
  | .descriptors _ | .fork _ _ | .exit _ | .stop _ => false
  | _ => true

def ends : Label T β → Bool
  | .exit _ | .stop _ => true
  | _ => false

/-- After the step the tables are right; a call on a stream closes no other descriptor, and the end of a process uses
no stream that is freed. -/
def Good [DecidableEq T] (w : World T β) (a : Label T β) : Prop :=
  ∀ v r, respond w a = some (v, r) →
    Consistent v ∧ (onStreams a = true → Spares (applied w a) w.system v.system) ∧ (ends a = true → r = .done)

/-- No `dce_freopen` has a mode that it accepts. -/
def Careful (_ : World T β) : Label T β → Prop
  | .freopen _ _ mode _ _ _ => modeValid mode = false
  | _ => True

variable {w : World T β} {pid f : Nat} {status : Int → Option Errno}

section

variable {s v : System β} {own : Option (Nat × Int)}

theorem Spares.refl (own : Option (Nat × Int)) (s : System β) : Spares own s s := fun _ _ _ look => look

variable (pid : Nat)

theorem dceOpen_spares (path : Path) (s : System β) : Spares own s (dceOpen pid path s).1 := by
  intro key fu _ look
  by_cases opens : path.Opens
  · cases free : Descriptors.allocateFd pid s with
    | none => rwa [Descriptors.dceOpen_refused fun _ => free]
    | some fd =>
      rw [Descriptors.dceOpen_opened opens free]
      refine (Descriptors.install_lookup fun same => ?_).trans look
      rw [same, (Descriptors.allocateFd_some free).1] at look
      cases look
  · rwa [Descriptors.dceOpen_refused fun opens' => absurd opens' opens]

theorem closeFd_spares (fd : Int) (status : Int → Option Errno) (w : World T β) :
    Spares (some (pid, fd)) w.system (closeFd pid fd status w).system := by
  intro key fu other look
  exact (Descriptors.dceClose_lookup (fun same => other (congrArg some same)) _).trans look

theorem vtableClose_spares (file : FILE) (status : Int → Option Errno) (w : World T β) :
    Spares (some (pid, file._fileno)) w.system (vtableClose pid file status w).system := by
  unfold vtableClose
  cases file.vtable with
  | host => exact .refl _ _
  | dce => exact closeFd_spares pid file._fileno status w
  | unconditional => exact .refl _ _

end

theorem dceFdopen_some {fildes fd : Int} : dceFdopen pid fildes (some (f, fd)) w = ({ w with
        files := update w.files f (some ⟨fildes, .dce⟩)
        hostFds := w.hostFds.filter (· ≠ fd)
        processes :=
  update w.processes pid { w.processes pid with openStreams := (w.processes pid).openStreams ++ [f] }
        holder := update w.holder f (some pid)
        opened := update w.opened f fildes }, some f) := by
  simp [dceFdopen, setStreams, setFile, hostClose, hostOpen]

theorem vtableClose_eq (pid : Nat) (file : FILE) (status : Int → Option Errno) :
    ∃ system hostFds, vtableClose pid file status w = { w with system := system, hostFds := hostFds } := by
  unfold vtableClose
  cases file.vtable with
  | host | dce | unconditional => exact ⟨_, _, rfl⟩

theorem closeStreams_eq (pid : Nat) {fs : List Nat} (live : ∀ f ∈ fs, (w.files f).isSome) (once : fs.Nodup) :
    closeStreams pid fs w = ({ w with files := fun f => if f ∈ fs then none else w.files f }, .done) := by
  induction fs generalizing w with
  | nil => simp [closeStreams]
  | cons f fs ih =>
    obtain ⟨file, found⟩ := Option.isSome_iff_exists.mp (live f List.mem_cons_self)
    obtain ⟨apart, once⟩ := List.nodup_cons.mp once
    have others : ∀ g ∈ fs, ((setFile f none w).files g).isSome := fun g mem => by
      have ne : g ≠ f := fun same => apart (same ▸ mem)
      simpa [setFile, ne] using live g (List.mem_cons_of_mem f mem)
    rw [closeStreams, found]
    change closeStreams pid fs (setFile f none w) = _
    rw [ih others once]
    refine congrArg (fun files => ({ w with files := files }, Result.done)) (funext fun g => ?_)
    by_cases same : g = f
    · simp [setFile, same]
    · simp [setFile, same]

/-- The invariant: a stream that a process has obtained and not closed is live, and a thread in a `fclose` has a live
stream that nobody else has. -/
structure Sound (w : World T β) : Prop extends Consistent w where
  live : ∀ f pid, w.holder f = some pid → (w.files f).isSome
  flushing : ∀ key c, w.closing key = some c → w.holder c.file = none ∧ (w.files c.file).isSome
  alone : ∀ key other c d, w.closing key = some c → w.closing other = some d → c.file = d.file → key = other

namespace Sound

section

variable (sound : Sound w)
include sound

theorem held (mem : f ∈ (w.processes pid).openStreams) : w.holder f = some pid :=
  ((sound.listed pid f).mp mem).1

theorem mem_openStreams (held : w.holder f = some pid) : f ∈ (w.processes pid).openStreams :=
  (sound.listed pid f).mpr ⟨held, sound.live f pid held⟩

theorem withSystem (system : System β) : Sound { w with system := system } :=
  ⟨⟨sound.listed, sound.once, sound.fileno, sound.closed⟩, sound.live, sound.flushing, sound.alone⟩

theorem vtableClose (pid : Nat) (file : FILE) (status : Int → Option Errno) :
    Sound (vtableClose pid file status w) := by
  unfold Streams.vtableClose
  cases file.vtable with
  | host =>
    have closed : (hostClose file._fileno w).hostFds = [] := by simp [hostClose, sound.closed]
    exact ⟨⟨sound.listed, sound.once, sound.fileno, closed⟩, sound.live, sound.flushing, sound.alone⟩
  | dce => exact sound.withSystem _
  | unconditional => exact sound

theorem withStd (pid : Nat) (std : Option (Option Nat × Option Nat × Option Nat)) :
    Sound { w with processes := update w.processes pid { w.processes pid with std := std } } := by
  have same : ∀ q, (update w.processes pid { w.processes pid with std := std } q).openStreams =
      (w.processes q).openStreams := fun q => by
    by_cases own : q = pid
    · simp [own]
    · simp [own]
  refine ⟨⟨fun q f => ?_, fun q => ?_, sound.fileno, sound.closed⟩, sound.live, sound.flushing, sound.alone⟩
  · rw [same]
    exact sound.listed q f
  · rw [same]
    exact sound.once q

theorem fdopen {fildes : Int} {answer : Answer} (possible : Possible w answer) :
    Sound (dceFdopen pid fildes answer w).1 := by
  cases answer with
  | none => exact sound
  | some new =>
    obtain ⟨f, fd⟩ := new
    have fresh : w.files f = none := possible.1
    have unheld : w.holder f = none := by
      cases held : w.holder f with
      | none => rfl
      | some q => exact absurd (sound.live f q held) (by simp [fresh])
    have unlisted : ∀ q, f ∉ (w.processes q).openStreams := fun q mem => by
      rw [sound.held mem] at unheld
      cases unheld
    rw [dceFdopen_some]
    refine ⟨⟨fun q g => ?_, fun q => ?_, fun g file found => ?_, ?_⟩, fun g q held => ?_, fun key c flushes =>
      ?_, sound.alone⟩
    · by_cases new : g = f <;> by_cases own : q = pid
      · simp [new, own]
      · simp [new, own, Ne.symm own, unlisted q]
      · simp [new, own, sound.listed]
      · simp [new, own, sound.listed]
    · by_cases own : q = pid
      · subst own
        simpa using List.nodup_append_comm.mp (List.nodup_cons.mpr ⟨unlisted q, sound.once q⟩)
      · simpa [own] using sound.once q
    · by_cases new : g = f
      · subst new
        obtain rfl : (⟨fildes, .dce⟩ : FILE) = file := by simpa using found
        simp
      · simpa [new] using sound.fileno g file (by simpa [new] using found)
    · simp [sound.closed]
    · by_cases new : g = f
      · simp [new]
      · simpa [new] using sound.live g q (by simpa [new] using held)
    · have flushing := sound.flushing key c flushes
      have other : c.file ≠ f := fun same => by simp [same, fresh] at flushing
      simpa [other] using flushing

end

variable {t : T} [DecidableEq T] (sound : Sound w)
include sound

theorem removeStream (loop : Option (Nat × Bool)) : Sound (removeStream pid t f loop w).1 := by
  unfold Streams.removeStream
  split
  next mem =>
    have held := sound.held mem
    have apart : ∀ key c, w.closing key = some c → c.file ≠ f := fun key c flushes same => by
      have unheld := (sound.flushing key c flushes).1
      rw [same, held] at unheld
      cases unheld
    dsimp only [setStreams]
    refine ⟨⟨fun q g => ?_, fun q => ?_, sound.fileno, sound.closed⟩, fun g q held => ?_, fun key c flushes => ?_,
      fun key other c d first second same => ?_⟩
    · by_cases own : q = pid
      · subst own
        by_cases mine : g = f
        · simp [mine, (sound.once q).mem_erase_iff]
        · simp [mine, sound.listed]
      · by_cases mine : g = f
        · subst mine
          have away : g ∉ (w.processes q).openStreams :=
            fun there => own (Option.some.inj ((sound.held there).symm.trans held))
          simp [own, away]
        · simp [own, mine, sound.listed]
    · by_cases own : q = pid
      · subst own
        simpa using (sound.once q).erase f
      · simpa [own] using sound.once q
    · by_cases mine : g = f
      · simp [mine] at held
      · exact sound.live g q (by simpa [mine] using held)
    · by_cases here : key = (pid, t)
      · subst here
        obtain rfl : (⟨f, loop⟩ : Closing) = c := by simpa using flushes
        exact ⟨by simp, sound.live f pid held⟩
      · have old : w.closing key = some c := by simpa [here] using flushes
        have flushing := sound.flushing key c old
        exact ⟨by simpa [apart key c old] using flushing.1, flushing.2⟩
    · by_cases here : key = (pid, t) <;> by_cases there : other = (pid, t)
      · rw [here, there]
      · have old : w.closing other = some d := by simpa [there] using second
        obtain rfl : (⟨f, loop⟩ : Closing) = c := by simpa [here] using first
        exact absurd same.symm (apart other d old)
      · have old : w.closing key = some c := by simpa [here] using first
        obtain rfl : (⟨f, loop⟩ : Closing) = d := by simpa [there] using second
        exact absurd same (apart key c old)
      · exact sound.alone key other c d (by simpa [here] using first) (by simpa [there] using second) same
  next => exact sound

theorem fclose : Sound (dceFclose pid t f w).1 := by
  unfold dceFclose
  split
  · exact sound
  · exact sound.removeStream none

theorem fcloseall (error : Bool) (i : Nat) : Sound (dceFcloseall pid t error i w).1 := by
  fun_induction dceFcloseall with
  | case1 i inside fp std ih => exact ih
  | case2 i inside fp other => exact sound.removeStream _
  | case3 i outside => exact sound

theorem idle (key : Nat × T) : Sound { w with closing := update w.closing key none } := by
  have old : ∀ {k c}, update w.closing key none k = some c → w.closing k = some c := fun {k c} flushes => by
    by_cases here : k = key
    · simp [here] at flushes
    · simpa [here] using flushes
  exact ⟨⟨sound.listed, sound.once, sound.fileno, sound.closed⟩, sound.live, fun k c flushes =>
    sound.flushing k c (old flushes),
    fun k other c d first second => sound.alone k other c d (old first) (old second)⟩

omit [DecidableEq T] in
theorem free (unheld : w.holder f = none) (unused : ∀ key c, w.closing key = some c → c.file ≠ f) :
    Sound (setFile f none w) := by
  have other : ∀ g q, w.holder g = some q → g ≠ f := fun g q held same => by
    rw [same, unheld] at held
    cases held
  refine ⟨⟨fun q g => ?_, sound.once, fun g file found => ?_, sound.closed⟩, fun g q held => ?_,
    fun key c flushes => ?_,
    sound.alone⟩
  · rw [show g ∈ ((setFile f none w).processes q).openStreams ↔ _ from sound.listed q g]
    refine and_congr_right fun held => ?_
    simp [setFile, other g q held]
  · by_cases gone : g = f
    · simp [setFile, gone] at found
    · exact sound.fileno g file (by simpa [setFile, gone] using found)
  · simpa [setFile, other g q held] using sound.live g q held
  · simpa [setFile, unused key c flushes] using sound.flushing key c flushes

theorem freed {c : Closing} (flushes : w.closing (pid, t) = some c) (file : FILE) :
    Sound (hostFclose pid c.file file status { w with closing := update w.closing (pid, t) none }) := by
  obtain ⟨system, hostFds, closes⟩ :=
    vtableClose_eq (w := { w with closing := update w.closing (pid, t) none }) pid file status
  have idle := (sound.idle (pid, t)).vtableClose pid file status
  unfold hostFclose
  rw [closes] at idle ⊢
  refine idle.free (sound.flushing _ c flushes).1 fun key d also same => ?_
  by_cases here : key = (pid, t)
  · simp [here] at also
  · exact here (sound.alone key (pid, t) d c (by simpa [here] using also) flushes same)

omit [DecidableEq T] in
theorem deleteProcess : Sound (deleteProcess pid w).1 ∧ (Streams.deleteProcess pid w).2 = .done := by
  have closes := closeStreams_eq pid (fun f mem => ((sound.listed pid f).mp mem).2) (sound.once pid)
  unfold Streams.deleteProcess
  rw [closes]
  dsimp only [setStreams]
  have others : ∀ f q, w.holder f = some q → q ≠ pid → f ∉ (w.processes pid).openStreams := fun f q held other mem =>
    other (Option.some.inj (held.symm.trans (sound.held mem)))
  have unheld : ∀ f, w.holder f = none → f ∉ (w.processes pid).openStreams := fun f held mem => by
    rw [sound.held mem] at held
    cases held
  refine ⟨⟨⟨fun q f => ?_, fun q => ?_, fun f file found => ?_, sound.closed⟩, fun f q held => ?_,
    fun key c flushes => ?_,
    fun key other c d first second => ?_⟩, rfl⟩
  · by_cases own : q = pid
    · subst own
      by_cases mine : w.holder f = some q <;> simp [mine]
    · by_cases mine : w.holder f = some q
      · simp [own, mine, sound.listed]
      · by_cases his : w.holder f = some pid <;> simp [own, Ne.symm own, his, sound.listed]
  · by_cases own : q = pid
    · simp [own]
    · simpa [own] using sound.once q
  · by_cases gone : f ∈ (w.processes pid).openStreams
    · simp [gone] at found
    · exact sound.fileno f file (by simpa [gone] using found)
  · by_cases his : w.holder f = some pid
    · simp [his] at held
    · have old : w.holder f = some q := by simpa [his] using held
      simpa [others f q old fun own => his (own ▸ old)] using sound.live f q old
  · by_cases own : key.1 = pid
    · simp [own] at flushes
    · have flushing := sound.flushing key c (by simpa [own] using flushes)
      simpa [flushing.1, unheld _ flushing.1] using flushing.2
  · by_cases own : key.1 = pid
    · simp [own] at first
    · by_cases also : other.1 = pid
      · simp [also] at second
      · exact sound.alone key other c d (by simpa [own] using first) (by simpa [also] using second)

end Sound

end Dce.Streams
