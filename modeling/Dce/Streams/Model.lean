import Dce.Descriptors.Steps

/- Streams, `dce-stdio.cc`: each is a stream of the host on /dev/null whose functions and number are replaced. `err`
and the positions of the streams are left out. -/

namespace Dce.Streams

open Function

open Descriptors (System Path Errno dceOpen dceClose)

/-- Whose functions the table of a stream has: `my_close` and the others, or `my_close_unconditional`. -/
inductive Vtable
  | host | dce | unconditional
  deriving DecidableEq, Repr

structure FILE where
  _fileno : Int
  vtable : Vtable
  deriving DecidableEq, Repr

/-- `std` has what `pstdin`, `pstdout` and `pstderr` point to, once these are set. -/
structure Process where
  openStreams : List Nat
  std : Option (Option Nat × Option Nat × Option Nat)
  deriving DecidableEq, Repr

/-- A thread in the host's `fclose`; `dce_fcloseall` goes on with an index and with the errors so far. -/
structure Closing where
  file : Nat
  loop : Option (Nat × Bool)
  deriving DecidableEq, Repr

/-- `hostFds` are the descriptors that the host has opened for streams and not closed. The last two fields are not in
the source: the process that has obtained a stream and not closed it, and the descriptor that it was opened on
last. -/
structure World (T β : Type*) where
  system : System β
  files : Nat → Option FILE
  hostFds : List Int
  processes : Nat → Process
  closing : Nat × T → Option Closing
  holder : Nat → Option Nat
  opened : Nat → Int

/-- `crashed` is a fatal error or the use of a bad pointer. -/
inductive Result
  | stream (file : Option Nat)
  | status (retval : Int)
  | flushes
  | crashed
  | done
  deriving DecidableEq, Repr

variable {T β : Type*}

def setFile (f : Nat) (file : Option FILE) (w : World T β) : World T β :=
  { w with files := update w.files f file }

def setStreams (pid : Nat) (openStreams : List Nat) (w : World T β) : World T β :=
  { w with processes := update w.processes pid { w.processes pid with openStreams := openStreams } }

/-- `dce_close`; `status` is what the `Close` of a class without a model returns. -/
def closeFd (pid : Nat) (fd : Int) (status : Int → Option Errno) (w : World T β) : World T β :=
  { w with system := (dceClose pid fd (status fd) w.system).1 }

/-- `close` of the host -/
def hostClose (fd : Int) (w : World T β) : World T β := { w with hostFds := w.hostFds.filter (· ≠ fd) }

/-- The `open` in the host's `fopen` and `freopen` -/
def hostOpen (f : Nat) (fd : Int) (w : World T β) : World T β :=
  { setFile f (some ⟨fd, .host⟩) w with hostFds := fd :: w.hostFds }

/-- `__close` of the table -/
def vtableClose (pid : Nat) (file : FILE) (status : Int → Option Errno) (w : World T β) : World T β :=
  match file.vtable with
  | .host => hostClose file._fileno w
  | .dce => closeFd pid file._fileno status w
  | .unconditional => w

/-- `fclose` of the host, from the end of its flush on: the stream is closed whatever it returns. -/
def hostFclose (pid f : Nat) (file : FILE) (status : Int → Option Errno) (w : World T β) : World T β :=
  setFile f none (vtableClose pid file status w)

/-- What the host's `fopen` gives: an address where no stream is and a descriptor that is not open, if it does not
fail. -/
abbrev Answer := Option (Nat × Int)

def Possible (w : World T β) : Answer → Prop
  | some (f, fd) => w.files f = none ∧ fd ∉ w.hostFds
  | none => True

instance (w : World T β) : (answer : Answer) → Decidable (Possible w answer)
  | some (f, fd) => inferInstanceAs (Decidable (w.files f = none ∧ fd ∉ w.hostFds))
  | none => instDecidableTrue

section

def modeValid (mode : List Char) : Bool := mode.all fun c => c ∈ ['a', 'r', 'w', '+', 'b']

def dceFdopen (pid : Nat) (fildes : Int) (answer : Answer) (w : World T β) : World T β × Option Nat :=
  match answer with
  | none => (w, none)
  | some (f, fd) =>
    let w := setFile f (some ⟨fildes, .dce⟩) (hostClose fd (hostOpen f fd w))
    let w := setStreams pid ((w.processes pid).openStreams ++ [f]) w
    ({ w with holder := update w.holder f (some pid), opened := update w.opened f fildes }, some f)

/-- `dce_fopen` and `dce_fopen64` -/
def dceFopen (pid : Nat) (path : Path) (mode : List Char) (answer : Answer)
    (w : World T β) : World T β × Option Nat :=
  if modeValid mode then
    match dceOpen pid path w.system with
    | (system, .error _) => ({ w with system := system }, none)
    | (system, .ok fd) => dceFdopen pid fd answer { w with system := system }
  else (w, none)

/-- `freopen` of the host closes what it finds behind the stream and opens `answer` there, if that does not fail. -/
def dceFreopen (pid : Nat) (path : Path) (mode : List Char) (stream : Nat) (answer : Option Int)
    (status : Int → Option Errno)
    (w : World T β) : World T β × Result :=
  if modeValid mode then
    match w.files stream with
    | none => (w, .crashed)
    | some file =>
      let oldFd := file._fileno
      let w := hostFclose pid stream { file with _fileno := -1 } status w
      match answer with
      -- `stream` is null when its `_fileno` is put back
      | none => (w, .crashed)
      | some hostFd =>
        let w := setFile stream (some ⟨hostFd, .dce⟩) (hostOpen stream hostFd w)
        match dceOpen pid path w.system with
        | (system, .error _) =>
          let w := closeFd pid oldFd status { w with system := system }
          (hostFclose pid stream ⟨hostFd, .dce⟩ status w, .stream none)
        | (system, .ok fd) =>
          let w := setFile stream (some ⟨fd, .dce⟩) (closeFd pid oldFd status { w with system := system })
          ({ w with opened := update w.opened stream fd }, .stream (some stream))
  else (w, .stream none)

/-- The streams that `dce_fclose` leaves as they are. -/
def Process.Std (p : Process) (fp : Nat) : Prop :=
  match p.std with
  | some (pstdin, pstdout, pstderr) => pstdout = some fp ∨ pstderr = some fp ∨ pstdin = some fp
  | none => False

instance (p : Process) (fp : Nat) : Decidable (p.Std fp) := by
  unfold Process.Std
  split <;> infer_instance

variable [DecidableEq T]

/-- `remove_stream`, and the host's `fclose` up to the end of its flush, which can wait. -/
def removeStream (pid : Nat) (t : T) (fp : Nat) (loop : Option (Nat × Bool)) (w : World T β) : World T β × Result :=
  if fp ∈ (w.processes pid).openStreams then
    let w := setStreams pid ((w.processes pid).openStreams.erase fp) w
    ({ w with
        closing := update w.closing (pid, t) (some ⟨fp, loop⟩)
        holder := update w.holder fp none }, .flushes)
  else (w, .crashed)

def dceFclose (pid : Nat) (t : T) (fp : Nat) (w : World T β) : World T β × Result :=
  if (w.processes pid).Std fp then (w, .status 0) else removeStream pid t fp none w

/-- The loop of `dce_fcloseall`, up to a stream that has to be flushed. -/
def dceFcloseall (pid : Nat) (t : T) (error : Bool) (i : Nat) (w : World T β) : World T β × Result :=
  if inside : i < (w.processes pid).openStreams.length then
    let fp := (w.processes pid).openStreams[i]
    if (w.processes pid).Std fp then dceFcloseall pid t error (i + 1) w
    else removeStream pid t fp (some (i + 1, error)) w
  else (w, .status (if error then -1 else 0))
termination_by (w.processes pid).openStreams.length - i

/-- The host's `fclose` returns, and what comes after it; `failed` says whether it does with an error. -/
def flushed (pid : Nat) (t : T) (failed : Bool) (status : Int → Option Errno) (c : Closing) (w : World T β) :
    World T β × Result :=
  match w.files c.file with
  | none => (w, .crashed)
  | some file =>
    let w := hostFclose pid c.file file status { w with closing := update w.closing (pid, t) none }
    match c.loop with
    | none => (w, .status (if failed then -1 else 0))
    | some (i, error) => dceFcloseall pid t (error || failed) i w

/-- `dce_global_variables_setup`; the host answers three times. -/
def setup (pid : Nat) (first second third : Answer) (w : World T β) : Option (World T β) :=
  match (w.processes pid).std with
  | some _ => some w
  | none =>
    if Possible w first then
      let (w, pstdin) := dceFdopen pid 0 first w
      if Possible w second then
        let (w, pstdout) := dceFdopen pid 1 second w
        if Possible w third then
          let (w, pstderr) := dceFdopen pid 2 third w
          let p := { w.processes pid with std := some (pstdin, pstdout, pstderr) }
          some { w with processes := update w.processes pid p }
        else none
      else none
    else none

/-- `dce_fclose_unconditional` of the streams of a process -/
def closeStreams (pid : Nat) : List Nat → World T β → World T β × Result
  | [], w => (w, .done)
  | f :: fs, w =>
    match w.files f with
    | none => (w, .crashed)
    | some file => closeStreams pid fs (hostFclose pid f { file with vtable := .unconditional } (fun _ => none) w)

/-- `DeleteProcess` as far as the streams; the threads of the process are gone. -/
def deleteProcess (pid : Nat) (w : World T β) : World T β × Result :=
  let closed := closeStreams pid (w.processes pid).openStreams w
  let w := setStreams pid [] closed.1
  ({ w with
      closing := fun key => if key.1 = pid then none else w.closing key
      holder := fun f => if w.holder f = some pid then none else w.holder f }, closed.2)

end

section

/-- What threads do. The host's `fclose` returns to a thread in a step of its own. -/
inductive Label (T β : Type*)
  | descriptors (a : Descriptors.Label β)
  | setup (pid : Nat) (first second third : Answer)
  | fdopen (pid : Nat) (fildes : Int) (answer : Answer)
  | fopen (pid : Nat) (path : Path) (mode : List Char) (answer : Answer)
  | freopen (pid : Nat) (path : Path) (mode : List Char) (stream : Nat) (answer : Option Int)
      (status : Int → Option Errno)
  | fclose (pid : Nat) (t : T) (fp : Nat)
  | fcloseall (pid : Nat) (t : T)
  | flushed (pid : Nat) (t : T) (failed : Bool) (status : Int → Option Errno)
  | fork (pid child : Nat)
  | exit (pid : Nat)
  | stop (pid : Nat)

/-- The steps on descriptors that do nothing else. -/
def Plain : Descriptors.Label β → Bool
  | .fork _ _ | .exit _ | .stop _ => false
  | _ => true

variable [DecidableEq T]

/-- A step with its result. A process reopens streams that it has obtained and not closed, and a fork has no streams
of its own. -/
def respond (w : World T β) : Label T β → Option (World T β × Result)
  | .descriptors a =>
    if Plain a then (Descriptors.respond w.system a).map fun done => ({ w with system := done.1 }, .done) else none
  | .setup pid first second third => (setup pid first second third w).map fun v => (v, .done)
  | .fdopen pid fildes answer =>
    if Possible w answer then
      let (v, stream) := dceFdopen pid fildes answer w
      some (v, .stream stream)
    else none
  | .fopen pid path mode answer =>
    if Possible w answer then
      let (v, stream) := dceFopen pid path mode answer w
      some (v, .stream stream)
    else none
  | .freopen pid path mode stream answer status =>
    if w.holder stream = some pid ∧ ∀ fd ∈ answer, fd ∉ w.hostFds
      then some (dceFreopen pid path mode stream answer status w)
    else none
  | .fclose pid t fp => if w.closing (pid, t) = none then some (dceFclose pid t fp w) else none
  | .fcloseall pid t => if w.closing (pid, t) = none then some (dceFcloseall pid t false 0 w) else none
  | .flushed pid t failed status => (w.closing (pid, t)).map fun c => flushed pid t failed status c w
  | .fork pid child =>
    (Descriptors.respond w.system (.fork pid child)).map fun done =>
      let p := { w.processes child with std := (w.processes pid).std }
      ({ w with system := done.1, processes := update w.processes child p }, .done)
  | .exit pid => some (deleteProcess pid { w with system := Descriptors.exit pid w.system })
  | .stop pid => some (deleteProcess pid { w with system := Descriptors.stop pid w.system })

/-- No process has a stream. -/
def World.start : World T β where
  system := .start
  files _ := none
  hostFds := []
  processes _ := ⟨[], none⟩
  closing _ := none
  holder _ := none
  opened _ := 0

/-- The machine of all processes with their streams. -/
def machine (T β : Type*) [DecidableEq T] : Machine (World T β) (Label T β) where
  init w := w = .start
  step w a := (respond w a).map Prod.fst

end

end Dce.Streams
