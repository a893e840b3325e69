import Dce.Descriptors.Steps

/- The descriptors of the host behind the descriptors of the processes: `unix-file-fd.cc`, `dce-dirent.cc`, and what
`dce-fd.cc` and `dce-stdlib.cc` open and close. The host gives its numbers out again, so that a descriptor of the
host is known by the object that was made for it. -/

namespace Dce.HostFiles

open Function

open Descriptors (System File Path Errno allocateFd findOpen)

/-- `m_realFd` is -1 in the classes that keep no descriptor of the host. The last two fields are not in the source:
how often the host's `closedir` closed the descriptor of an object, and how many descriptors no object was made
for. -/
structure World (β : Type*) where
  system : System β
  m_realFd : Nat → Int
  dirs : Nat → Option Int
  openDirs : Nat → List Nat
  dirCloses : Nat → Nat
  lost : Nat

variable {β : Type*}

/-- The object `n` has a descriptor of the host. -/
def World.Real (w : World β) (n : Nat) : Prop := w.m_realFd n ≠ -1

instance (w : World β) (n : Nat) : Decidable (w.Real n) := inferInstanceAs (Decidable (w.m_realFd n ≠ -1))

/-- How often the host's descriptor of the object `n` was closed: `Close ()` and the destructor of a `UnixFileFd`
each close it. -/
def World.closed (w : World β) (n : Nat) : Nat :=
  (w.system.files (.unixFd n)).closes + (w.system.files (.unixFd n)).frees + w.dirCloses n

/-- `new` of an object for the descriptor `fd` -/
def install (pid : Nat) (fd : Int) (realFd : Int) (w : World β) : World β :=
  { w with
    system := Descriptors.install pid fd w.system
    m_realFd := update w.m_realFd w.system.next realFd }

def dceClose (pid : Nat) (fd : Int) (status : Option Errno) (w : World β) : World β :=
  { w with system := (Descriptors.dceClose pid fd status w.system).1 }

/-- `getRealFd`, as the object whose descriptor it gives. -/
def getRealFd (pid : Nat) (fd : Int) (w : World β) : Option Nat :=
  match findOpen pid fd w.system with
  | some ⟨.unixFd n, _, _, _, _⟩ => if w.Real n then some n else none
  | _ => none

/-- The standard outputs of a process that is to minimize its files: a `UnixFileFdLight` opens the path for each
write. -/
def light (minimizeFiles : Bool) (fd : Int) : Bool := (fd = 2 ∨ fd = 1) ∧ minimizeFiles

/-- `realFd` is what `::open` gives, where it does not fail. -/
def dceOpen (pid : Nat) (path : Path) (minimizeFiles : Bool) (realFd : Nat)
    (w : World β) : World β × Except Errno Int :=
  match path with
  | .empty => (w, .error .ENOENT)
  | .random =>
    match allocateFd pid w.system with
    | none => (w, .error .EMFILE)
    | some fd => (install pid fd (-1) w, .ok fd)
  | .real opened =>
    match allocateFd pid w.system, opened with
    | none, _ => (w, .error .EMFILE)
    | some _, some err => (w, .error err)
    | some fd, none =>
      -- a light file gives the descriptor back at once
      (install pid fd (if light minimizeFiles fd then -1 else realFd) w, .ok fd)

/-- `made` is what the host's `mkstemp` gives. -/
def dceMkstemp (pid : Nat) (made : Except Nat Nat) (w : World β) : World β × Except Errno Int :=
  match made with
  | .error errno => (w, .error (.host errno))
  | .ok realFd =>
    match allocateFd pid w.system with
    | none => ({ w with lost := w.lost + 1 }, .error .EMFILE)
    | some fd => (install pid fd realFd w, .ok fd)

/-- `answer` is the address of what the host's `opendir ("/")` gives; its descriptor is closed at once. -/
def dceFdopendir (pid : Nat) (fd : Int) (answer : Option Nat) (w : World β) : World β × Option Nat :=
  match answer with
  | none => (w, none)
  | some dirp =>
    ({ w with
        dirs := update w.dirs dirp (some (-fd))
        openDirs := update w.openDirs pid (w.openDirs pid ++ [dirp]) }, some dirp)

def dceOpendir (pid : Nat) (path : Path) (minimizeFiles : Bool) (realFd : Nat) (answer : Option Nat)
    (status : Option Errno)
    (w : World β) : World β × Option Nat :=
  match dceOpen pid path minimizeFiles realFd w with
  | (w, .error _) => (w, none)
  | (w, .ok fd) =>
    match dceFdopendir pid fd answer w with
    | (w, none) => (dceClose pid fd status w, none)
    | (w, some dirp) => (w, some dirp)

/-- The object whose descriptor the stream of a directory with `fd` is moved to. -/
def dirObject (pid : Nat) (fd : Int) (w : World β) : Option Nat := if 0 ≤ fd then none else getRealFd pid (-fd) w

/-- `dce_closedir` of the stream `dirp`, whose number is `fd`; `ok` says whether the host's `closedir` returns 0. -/
def dceClosedir (pid dirp : Nat) (fd : Int) (ok : Bool) (status : Option Errno) (w : World β) : World β :=
  match dirObject pid fd w with
  | none => w
  | some n =>
    let w := { w with
      dirs := update w.dirs dirp none
      dirCloses := update w.dirCloses n (w.dirCloses n + 1) }
    if ok then
      let w := dceClose pid (-fd) status w
      { w with openDirs := update w.openDirs pid ((w.openDirs pid).erase dirp) }
    else w

/-- The streams of directories of a process are closed with the number -1. -/
def closeDirs (pid : Nat) (w : World β) : World β :=
  { w with
    dirs := fun dirp => if dirp ∈ w.openDirs pid then none else w.dirs dirp
    openDirs := update w.openDirs pid [] }

/-- What processes do; `io` is a read, a write or a seek. -/
inductive Label
  | open (pid : Nat) (path : Path) (minimizeFiles : Bool) (realFd : Nat)
  | mkstemp (pid : Nat) (made : Except Nat Nat)
  | opendir (pid : Nat) (path : Path) (minimizeFiles : Bool) (realFd : Nat) (answer : Option Nat)
      (status : Option Errno)
  | fdopendir (pid : Nat) (fd : Int) (answer : Option Nat)
  | readdir (pid dirp : Nat)
  | closedir (pid dirp : Nat) (ok : Bool) (status : Option Errno)
  | dup (pid : Nat) (oldfd : Int)
  | dup2 (pid : Nat) (oldfd newfd : Int) (status : Option Errno)
  | fork (pid child : Nat)
  | close (pid : Nat) (fd : Int) (status : Option Errno)
  | io (pid : Nat) (fd : Int)
  | exit (pid : Nat)
  | stop (pid : Nat)

/-- The object on whose descriptor a step reads, writes or seeks. -/
def uses (w : World β) : Label → Option Nat
  | .io pid fd => getRealFd pid fd w
  | .readdir pid dirp => (w.dirs dirp).bind fun fd => dirObject pid fd w
  | _ => none

/-- A program uses the streams of directories that there are, and a fork makes a process that has no descriptors
yet. -/
def step (w : World β) : Label → Option (World β)
  | .open pid path minimizeFiles realFd => some (dceOpen pid path minimizeFiles realFd w).1
  | .mkstemp pid made => some (dceMkstemp pid made w).1
  | .opendir pid path minimizeFiles realFd answer status =>
      some (dceOpendir pid path minimizeFiles realFd answer status w).1
  | .fdopendir pid fd answer => some (dceFdopendir pid fd answer w).1
  | .readdir _ dirp => (w.dirs dirp).map fun _ => w
  | .closedir pid dirp ok status => (w.dirs dirp).map fun fd => dceClosedir pid dirp fd ok status w
  | .dup pid oldfd => some { w with system := (Descriptors.dceDup pid oldfd w.system).1 }
  | .dup2 pid oldfd newfd status => some { w with system := (Descriptors.dceDup2 pid oldfd newfd status w.system).1 }
  | .fork pid child =>
    if ∀ key ∈ w.system.openFiles.keys, key.1 ≠ child then
      some { w with system := Descriptors.clone pid child w.system }
    else none
  | .close pid fd status => some (dceClose pid fd status w)
  | .io _ _ => some w
  | .exit pid => some (closeDirs pid { w with system := Descriptors.exit pid w.system })
  | .stop pid => some (closeDirs pid { w with system := Descriptors.stop pid w.system })

def World.start : World β := ⟨.start, fun _ => -1, fun _ => none, fun _ => [], fun _ => 0, 0⟩

def machine (β : Type*) : Machine (World β) Label where
  init w := w = .start
  step := step

end Dce.HostFiles
