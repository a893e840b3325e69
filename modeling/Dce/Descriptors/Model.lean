import Dce.Lib.Table
import Dce.Pipe.Model
import Mathlib.Data.List.Sort

/- The descriptors of all processes and the objects behind them, as `dce-fd.cc`, `file-usage.cc`,
`unix-fd.cc`, `pipe-fd.cc`, `dce-poll.cc` and `dce-manager.cc` keep them. -/

namespace Dce.Descriptors

open List Option

open Pipe (End FifoBuffer pipeCapacity maxFds)

/-- A `UnixFd` object: one of the ends of a pipe or one of another class. -/
inductive File
  | unixFd (n : Nat)
  | pipeFd (n : Nat) (e : End)
  deriving DecidableEq, Repr

/-- The counter that the object was made from. -/
def File.number : File → Nat
  | .unixFd n | .pipeFd n _ => n

/-- `fdCount` is `m_fdCount`, `ref` the count of `SimpleRefCount`. `peer`, `nonblock` and `buf`
are those of a `PipeFd`. The last three fields are not in the source: whether a `FileUsage` was
ever made for the object, how often its `Close ()` ran and how often it was destroyed. -/
structure UnixFd (β : Type*) where
  fdCount : Int
  ref : Nat
  peer : Bool
  nonblock : Bool
  buf : FifoBuffer pipeCapacity β
  given : Bool
  closes : Nat
  frees : Nat

/-- `m_count` is the sum of the three numbers: the methods and the polls in progress, and the uses
that a poll has taken and will not give back. -/
structure FileUsage where
  file : File
  calls : Nat
  polls : Nat
  stale : Nat
  closing : Bool
  deriving DecidableEq, Repr

/-- `m_count` -/
def FileUsage.count (fu : FileUsage) : Nat := fu.calls + fu.polls + fu.stale

/-- `openFiles` has the descriptors of every process. The objects from `next` on are yet to be made. -/
@[ext] structure System (β : Type*) where
  files : File → UnixFd β
  next : Nat
  openFiles : Table (Nat × Int) FileUsage

inductive Errno
  | EBADF | EMFILE | EINVAL | ENOENT | EFAULT | EPIPE | EAGAIN
  /-- An error of the host or of a simulated stack. -/
  | host (n : Nat)
  /-- `err` stays as it was. -/
  | unchanged
  /-- The call does not return: a method of an object that was destroyed is called. -/
  | crashed
  deriving DecidableEq, Repr

variable {β : Type*}

def blank : UnixFd β := ⟨0, 0, false, false, .new pipeCapacity β, false, 0, 0⟩

def System.start : System β := ⟨fun _ => blank, 0, ∅⟩

section

def update (f : File) (g : UnixFd β → UnixFd β) (s : System β) : System β :=
  { s with files := Function.update s.files f (g (s.files f)) }

@[simp] theorem update_self (f : File) (g : UnixFd β → UnixFd β) (s : System β) :
    (update f g s).files f = g (s.files f) := Function.update_self ..
@[simp] theorem update_other {f h : File} (ne : h ≠ f) (g : UnixFd β → UnixFd β) (s : System β) :
    (update f g s).files h = s.files h := Function.update_of_ne ne ..

def incFdCount (f : File) : System β → System β := update f fun u => { u with fdCount := u.fdCount + 1 }

def decFdCount (f : File) : System β → System β := update f fun u => { u with fdCount := u.fdCount - 1 }

def ref (f : File) : System β → System β := update f fun u => { u with ref := u.ref + 1 }

/-- `delete` of an object -/
def destroy (f : File) : System β → System β := update f fun u => { u with frees := u.frees + 1 }

def unref (f : File) (s : System β) : System β :=
  let s := update f (fun u => { u with ref := u.ref - 1 }) s
  if (s.files f).ref = 0 then destroy f s else s

/-- `new` of an object -/
def create (f : File) : System β → System β := update f fun u => { u with ref := 1 }

def setUsage (pid : Nat) (fd : Int) (fu : FileUsage) (s : System β) : System β :=
  { s with openFiles := s.openFiles.insert (pid, fd) fu }

/-- `openFiles[fd] = new FileUsage (fd, f)` -/
def newFileUsage (pid : Nat) (fd : Int) (f : File) (s : System β) : System β :=
  setUsage pid fd ⟨f, 0, 0, 0, false⟩ (update f (fun u => { u with given := true }) s)

/-- `openFiles.erase (fd)` and the `delete` of the entry -/
def forget (pid : Nat) (fd : Int) (s : System β) : System β :=
  match s.openFiles.lookup (pid, fd) with
  | none => s
  | some fu => unref fu.file (decFdCount fu.file { s with openFiles := s.openFiles.erase (pid, fd) })

/-- `CheckFdExists (p, fd, true)`, with the entry that it finds -/
def findOpen (pid : Nat) (fd : Int) (s : System β) : Option FileUsage :=
  (s.openFiles.lookup (pid, fd)).filter fun fu => ! fu.closing

/-- `UtilsAllocateFd` -/
def allocateFd (pid : Nat) (s : System β) : Option Int :=
  ((List.range maxFds).find? fun fd : Nat => (s.openFiles.lookup (pid, (fd : Int))).isNone).map Nat.cast

theorem allocateFd_some {pid : Nat} {fd : Int} {s : System β} (free : allocateFd pid s = some fd) :
    s.openFiles.lookup (pid, fd) = none ∧ 0 ≤ fd ∧ fd < maxFds := by
  obtain ⟨n, found, rfl⟩ := map_eq_some_iff.mp free
  have inside : n < maxFds := mem_range.mp (mem_of_find?_eq_some found)
  have absent := find?_some found
  exact ⟨isNone_iff_eq_none.mp absent, Int.natCast_nonneg n, Int.ofNat_lt.mpr inside⟩

theorem allocateFd_none {pid : Nat} {s : System β} : allocateFd pid s = none ↔
    ∀ fd : Int, 0 ≤ fd → fd < maxFds → s.openFiles.lookup (pid, fd) ≠ none := by
  unfold allocateFd
  rw [map_eq_none_iff, find?_eq_none]
  constructor
  · intro full fd start stop absent
    obtain ⟨n, rfl⟩ := Int.eq_ofNat_of_zero_le start
    exact full n (mem_range.mpr (Int.ofNat_lt.mp stop)) (isNone_iff_eq_none.mpr absent)
  · intro full n inside absent
    exact full n (Int.natCast_nonneg n) (Int.ofNat_lt.mpr (mem_range.mp inside)) (isNone_iff_eq_none.mp absent)

theorem allocateFd_least {pid n : Nat} {s : System β} (inside : n < maxFds)
    (absent : s.openFiles.lookup (pid, (n : Int)) = none)
    (before : ∀ m < n, s.openFiles.lookup (pid, (m : Int)) ≠ none) : allocateFd pid s = some (n : Int) := by
  refine congrArg (Option.map Nat.cast) (find?_range_eq_some.mpr ⟨?_, ?_, ?_⟩)
  · exact isNone_iff_eq_none.mpr absent
  · exact mem_range.mpr inside
  · intro m less
    simpa [isSome_iff_ne_none] using before m less

attribute [irreducible] allocateFd

/-- The descriptors of a process in the order of its map. -/
def fdsOf (pid : Nat) (s : System β) : List Int :=
  ((s.openFiles.keys.filter fun key => key.1 = pid).map Prod.snd).insertionSort (· ≤ ·)

/-- `IncFdCount`, `Ref` and an entry: one more descriptor of an object that has some. -/
def share (pid : Nat) (fd : Int) (f : File) (s : System β) : System β :=
  newFileUsage pid fd f (ref f (incFdCount f s))

/-- An object of its own for the descriptor `fd`. -/
def install (pid : Nat) (fd : Int) (s : System β) : System β :=
  let f := File.unixFd s.next
  newFileUsage pid fd f (incFdCount f { create f s with next := s.next + 1 })

end

def called (f : File) : System β → System β := update f fun u => { u with closes := u.closes + 1 }

def clearPeer (f : File) : System β → System β := update f fun u => { u with peer := false }

/-- `PipeFd::Close`: the other end's `Close ()` is called, which calls this one's again. An end that
went without `Close ()` is still what `m_peer` of the other one points to. -/
def pipeClose (n : Nat) (e : End) (s : System β) : System β × Option Errno :=
  let s := called (.pipeFd n e) s
  if (s.files (.pipeFd n e)).peer then
    let s := clearPeer (.pipeFd n e) s
    if (s.files (.pipeFd n e.other)).frees ≠ 0 then (s, some .crashed)
    else
      let s := called (.pipeFd n e.other) s
      if (s.files (.pipeFd n e.other)).peer then
        (called (.pipeFd n e) (clearPeer (.pipeFd n e.other) s), none)
      else (s, none)
  else (s, some .EBADF)

/-- `Close ()` with its error; `status` is that of the other classes. -/
def closeFile (f : File) (status : Option Errno) (s : System β) : System β × Option Errno :=
  match f with
  | .unixFd n => (called (.unixFd n) s, status)
  | .pipeFd n e => pipeClose n e s

def dceClose (pid : Nat) (fd : Int) (status : Option Errno) (s : System β) : System β × Option Errno :=
  match s.openFiles.lookup (pid, fd) with
  | none => (s, some .EBADF)
  | some fu =>
    let (s, retval) := if (s.files fu.file).fdCount = 1 then closeFile fu.file status s else (s, none)
    (if fu.count = 0 then forget pid fd s else setUsage pid fd { fu with closing := true } s, retval)

/-- What a path names; `opened` is the outcome of `::open`. -/
inductive Path
  | empty
  | random
  | real (opened : Option Errno)
  deriving DecidableEq, Repr

def dceOpen (pid : Nat) (path : Path) (s : System β) : System β × Except Errno Int :=
  match path with
  | .empty => (s, .error .ENOENT)
  | .random =>
    match allocateFd pid s with
    | none => (s, .error .EMFILE)
    | some fd => (install pid fd s, .ok fd)
  | .real opened =>
    match allocateFd pid s, opened with
    | none, _ => (s, .error .EMFILE)
    | some _, some err => (s, .error err)
    | some fd, none => (install pid fd s, .ok fd)

inductive Domain
  | AF_UNIX | other
  deriving DecidableEq, Repr

inductive SocketType
  | SOCK_DGRAM | SOCK_STREAM | other
  deriving DecidableEq, Repr

/-- `dce_socket` as far as the object: whether there is one, where `created` says whether
`CreateSocket` gives one. -/
def createSocket (domain : Domain) (type : SocketType) (created : Bool) : Bool :=
  if domain = .AF_UNIX ∧ type = .other then false else created

def dceSocket (pid : Nat) (domain : Domain) (type : SocketType) (created : Bool)
    (s : System β) : System β × Except Errno Int :=
  if createSocket domain type created then
    match allocateFd pid s with
    | none => ({ create (.unixFd s.next) s with next := s.next + 1 }, .error .EMFILE)
    | some fd => (install pid fd s, .ok fd)
  else (s, .error .EINVAL)

def dceSocketpair (pid : Nat) (domain : Domain) (type : SocketType) (first second : Bool) (s : System β) :
    System β × Except Errno (Int × Int) :=
  match dceSocket pid domain type first s with
  | (s, .error err) => (s, .error err)
  | (s, .ok sv₀) =>
    match dceSocket pid domain type second s with
    | (s, .error err) => (s, .error err)
    | (s, .ok sv₁) => (s, .ok (sv₀, sv₁))

/-- `new PipeFd (reader)` and what comes after it. -/
def finishPipe (pid n : Nat) (fdRead fdWrite : Int) (s : System β) : System β × Except Errno (Int × Int) :=
  let reader := File.pipeFd n .read
  let writer := File.pipeFd n .write
  let s := update reader (fun u => { u with peer := true })
    (update writer (fun u => { u with peer := true }) (create writer s))
  let s := newFileUsage pid fdWrite writer s
  (incFdCount writer (incFdCount reader s), .ok (fdRead, fdWrite))

/-- `null` says that there is no place for the descriptors. -/
def dcePipe (pid : Nat) (null : Bool) (s : System β) : System β × Except Errno (Int × Int) :=
  if null then (s, .error .EFAULT)
  else
    match allocateFd pid s with
    | none => (s, .error .EMFILE)
    | some fdRead =>
      let n := s.next
      let s := newFileUsage pid fdRead (.pipeFd n .read) { create (.pipeFd n .read) s with next := n + 1 }
      match allocateFd pid s with
      | none => (destroy (.pipeFd n .read) (forget pid fdRead s), .error .EMFILE)
      | some fdWrite => finishPipe pid n fdRead fdWrite s

def dceDup (pid : Nat) (oldfd : Int) (s : System β) : System β × Except Errno Int :=
  match findOpen pid oldfd s with
  | none => (s, .error .EBADF)
  | some fu =>
    match allocateFd pid s with
    | none => (s, .error .EMFILE)
    | some fd => (share pid fd fu.file s, .ok fd)

/-- The end of `dce_dup2`, where `newfd` may still be there if it was closed in use. -/
def dupTo (pid : Nat) (newfd : Int) (f : File) (s : System β) : System β × Except Errno Int :=
  if (s.openFiles.lookup (pid, newfd)).isSome then (s, .error .EBADF) else (share pid newfd f s, .ok newfd)

def dceDup2 (pid : Nat) (oldfd newfd : Int) (status : Option Errno) (s : System β) : System β × Except Errno Int :=
  match findOpen pid oldfd s with
  | none => (s, .error .EBADF)
  | some fu =>
    if (maxFds : Int) < newfd then (s, .error .EBADF)
    else if oldfd = newfd then (s, .ok newfd)
    else if (findOpen pid newfd s).isSome then
      match dceClose pid newfd status s with
      | (s, some .crashed) => (s, .error .crashed)
      | (s, some _) => (s, .error .EBADF)
      | (s, none) => dupTo pid newfd fu.file s
    else dupTo pid newfd fu.file s

/-- `errno` and `status` are those of the host and of `Ftruncate`. -/
def dceTruncate (pid : Nat) (path : Path) (errno : Nat) (status : Option Errno)
    (s : System β) : System β × Option Errno :=
  match dceOpen pid path s with
  | (s, .error _) => (s, some (.host errno))
  | (s, .ok _) => (s, status)

/-- `linux` says which factory there is, `index` what `SIOCGIFINDEX` or the devices say. -/
def dceIfNametoindex (pid : Nat) (linux created : Bool) (index : Int) (s : System β) : System β × Int :=
  if linux then
    match dceSocket pid .other .SOCK_DGRAM created s with
    | (s, .error _) => (s, 0)
    | (s, .ok _) => (s, index)
  else (s, index)

/-- `name` is what `SIOCGIFNAME` writes. -/
def dceIfIndextoname (pid : Nat) (created : Bool) (name : Option (List β))
    (s : System β) : System β × Option (List β) :=
  match dceSocket pid .other .SOCK_DGRAM created s with
  | (s, .error _) => (s, none)
  | (s, .ok _) => (s, name)

/-- What an `Accept` finds after its wait: an error, a connection of a simulated stack, or the
sockets in the queue of a local listener, with whether `InternalConnect` connects them. -/
inductive Waiting
  | fails (err : Errno)
  | connection
  | queued (connectors : List (Nat × Bool))
  deriving DecidableEq, Repr

/-- `LocalStreamSocketFd::Accept` after its wait. -/
def acceptQueued (pid : Nat) : List (Nat × Bool) → System β → System β × Except Errno Int
  | [], s => (s, .error .unchanged)
  | (first, connects) :: rest, s =>
    match allocateFd pid s with
    | none => ((closeFile (.unixFd first) none s).1, .error .EMFILE)
    | some fd => if connects then (install pid fd s, .ok fd) else acceptQueued pid rest s

def accept (pid : Nat) (waiting : Waiting) (s : System β) : System β × Except Errno Int :=
  match waiting with
  | .fails err => (s, .error err)
  | .connection =>
    match allocateFd pid s with
    | none => (s, .error .EMFILE)
    | some fd => (install pid fd s, .ok fd)
  | .queued connectors => acceptQueued pid connectors s

inductive Result (β : Type*)
  | fds (fds : List Int)
  | status (retval : Int)
  | name (ifname : Option (List β))
  | count (n : Nat)
  | bytes (data : List β)
  | failed (err : Errno)
  | blocked
  | crashed
  | done
  deriving DecidableEq, Repr

/-- `PipeFd::Read`, or its loop after a wait. With bytes to return it wakes up those who wait at the
other end. -/
def pipeRead (n count : Nat) (s : System β) : System β × Result β :=
  let reader := s.files (.pipeFd n .read)
  let (buf, data) := reader.buf.read count
  if data.length ≠ 0 then
    if reader.peer ∧ (s.files (.pipeFd n .write)).frees ≠ 0 then (s, .crashed)
    else (update (.pipeFd n .read) (fun u => { u with buf := buf }) s, .bytes data)
  else if reader.peer = false then (s, .failed .EPIPE)
  else if reader.nonblock then (s, .failed .EAGAIN)
  else (s, .blocked)

/-- `DoRecvPacket` of the read end; after a wait the end may be gone. -/
def doRecvPacket (n : Nat) (data : List β) (s : System β) : System β × Result β :=
  let reader := s.files (.pipeFd n .read)
  if reader.frees ≠ 0 then (s, .crashed)
  else
    let (buf, size) := reader.buf.write data
    if size ≠ 0 then (update (.pipeFd n .read) (fun u => { u with buf := buf }) s, .count size)
    else if reader.peer = false then (s, .crashed)
    else if (s.files (.pipeFd n .write)).nonblock then (s, .failed .EAGAIN)
    else (s, .blocked)

/-- `PipeFd::Write` -/
def pipeWrite (n : Nat) (e : End) (data : List β) (s : System β) : System β × Result β :=
  if (s.files (.pipeFd n e)).peer then
    match e with
    | .read => (s, .failed .EBADF)
    | .write => doRecvPacket n data s
  else (s, .failed .EPIPE)

/-- The methods that a thread runs on the object of a descriptor; those of the other classes do
nothing to descriptors, whatever they return. -/
inductive Method (β : Type*)
  | read (count : Nat)
  | write (data : List β)
  | rewrite (data : List β)
  | setfl (nonblock : Bool)
  | accept (waiting : Waiting)

def Errno.result : Errno → Result β
  | .crashed => .crashed
  | err => .failed err

def fdResult : System β × Except Errno Int → System β × Result β
  | (s, .error err) => (s, err.result)
  | (s, .ok fd) => (s, .fds [fd])

def pairResult : System β × Except Errno (Int × Int) → System β × Result β
  | (s, .error err) => (s, .failed err)
  | (s, .ok (fd₀, fd₁)) => (s, .fds [fd₀, fd₁])

def statusResult : System β × Option Errno → System β × Result β
  | (s, some err) => (s, err.result)
  | (s, none) => (s, .status 0)

def runMethod (pid : Nat) (f : File) (method : Method β) (s : System β) : System β × Result β :=
  match f, method with
  | .pipeFd n .read, .read count => pipeRead n count s
  | .pipeFd _ .write, .read _ => (s, .failed .EBADF)
  | .pipeFd n e, .write data => pipeWrite n e data s
  | .pipeFd n .write, .rewrite data => doRecvPacket n data s
  | .pipeFd n e, .setfl nonblock => (update (.pipeFd n e) (fun u => { u with nonblock := nonblock }) s, .status 0)
  | .unixFd _, .accept waiting => fdResult (accept pid waiting s)
  | _, _ => (s, .done)

/-- `OPENED_FD_METHOD` as far as `GetFileInc` -/
def incUsage (pid : Nat) (fd : Int) (s : System β) : System β × Result β :=
  match findOpen pid fd s with
  | none => (s, .failed .EBADF)
  | some fu => (setUsage pid fd { fu with calls := fu.calls + 1 } s, .done)

/-- `OPENED_FD_METHOD` from `DecUsage` on -/
def decUsage (pid : Nat) (fd : Int) (fu : FileUsage) (s : System β) : System β :=
  let fu := { fu with calls := fu.calls - 1 }
  let s := setUsage pid fd fu s
  if fu.count = 0 ∧ fu.closing = true then forget pid fd s else s

/-- `GetFileInc` in `dce_poll`, once for every time that `fd` is listed; `again` is how often it
is listed more than once. -/
def pollEnter (pid : Nat) (fd : Int) (again : Nat) (s : System β) : System β :=
  match findOpen pid fd s with
  | none => s
  | some fu => setUsage pid fd { fu with polls := fu.polls + 1, stale := fu.stale + again } s

/-- The `DecUsage` at the end of `dce_poll`, which is once for a descriptor and forgets none. -/
def pollLeave (pid : Nat) (fd : Int) (fu : FileUsage) (s : System β) : System β :=
  setUsage pid fd { fu with polls := fu.polls - 1 } s

def clone (pid child : Nat) (s : System β) : System β :=
  (fdsOf pid s).foldl (fun t fd =>
    match t.openFiles.lookup (pid, fd) with
    | none => t
    | some fu => share child fd fu.file t) s

/-- `NullifyUsage` -/
def FileUsage.nullify (fu : FileUsage) : FileUsage := { fu with calls := 0, polls := 0, stale := 0 }

theorem FileUsage.count_nullify (fu : FileUsage) : fu.nullify.count = 0 := rfl

def nullifyUsage (pid : Nat) (fd : Int) (s : System β) : System β :=
  match s.openFiles.lookup (pid, fd) with
  | none => s
  | some fu => setUsage pid fd fu.nullify s

/-- `DeleteProcess (process, PEC_EXIT)` -/
def exit (pid : Nat) (s : System β) : System β :=
  (fdsOf pid s).foldl (fun t fd => (dceClose pid fd none (nullifyUsage pid fd t)).1) s

/-- `DeleteProcess (process, PEC_NS3_STOP)` -/
def stop (pid : Nat) (s : System β) : System β := (fdsOf pid s).foldl (fun t fd => forget pid fd t) s

/-- What threads do. A thread in a method has entered it at a descriptor and is yet to leave. -/
inductive Label (β : Type*)
  | open (pid : Nat) (path : Path)
  | socket (pid : Nat) (domain : Domain) (type : SocketType) (created : Bool)
  | socketpair (pid : Nat) (domain : Domain) (type : SocketType) (first second : Bool)
  | pipe (pid : Nat) (null : Bool)
  | dup (pid : Nat) (oldfd : Int)
  | dup2 (pid : Nat) (oldfd newfd : Int) (status : Option Errno)
  | truncate (pid : Nat) (path : Path) (errno : Nat) (status : Option Errno)
  | ifNametoindex (pid : Nat) (linux created : Bool) (index : Int)
  | ifIndextoname (pid : Nat) (created : Bool) (name : Option (List β))
  | close (pid : Nat) (fd : Int) (status : Option Errno)
  | enter (pid : Nat) (fd : Int)
  | method (pid : Nat) (fd : Int) (method : Method β)
  | leave (pid : Nat) (fd : Int)
  | pollEnter (pid : Nat) (fd : Int) (again : Nat)
  | pollLeave (pid : Nat) (fd : Int)
  | fork (pid child : Nat)
  | exit (pid : Nat)
  | stop (pid : Nat)

/-- The sockets in a queue have been made. -/
def Method.Known (s : System β) : Method β → Prop
  | .accept (.queued connectors) => ∀ connector ∈ connectors, connector.1 < s.next
  | _ => True

instance (s : System β) : (method : Method β) → Decidable (method.Known s)
  | .accept (.queued connectors) => inferInstanceAs (Decidable (∀ connector ∈ connectors, connector.1 < s.next))
  | .accept (.fails _) | .accept .connection | .read _ | .write _ | .rewrite _ | .setfl _ => instDecidableTrue

/-- A step with its result. `fork` makes a process that has no descriptors yet. -/
def respond (s : System β) : Label β → Option (System β × Result β)
  | .open pid path => some (fdResult (dceOpen pid path s))
  | .socket pid domain type created => some (fdResult (dceSocket pid domain type created s))
  | .socketpair pid domain type first second => some (pairResult (dceSocketpair pid domain type first second s))
  | .pipe pid null => some (pairResult (dcePipe pid null s))
  | .dup pid oldfd => some (fdResult (dceDup pid oldfd s))
  | .dup2 pid oldfd newfd status => some (fdResult (dceDup2 pid oldfd newfd status s))
  | .truncate pid path errno status => some (statusResult (dceTruncate pid path errno status s))
  | .ifNametoindex pid linux created index =>
    let (t, retval) := dceIfNametoindex pid linux created index s
    some (t, .status retval)
  | .ifIndextoname pid created name =>
    let (t, ifname) := dceIfIndextoname pid created name s
    some (t, .name ifname)
  | .close pid fd status => some (statusResult (dceClose pid fd status s))
  | .enter pid fd => some (incUsage pid fd s)
  | .method pid fd method =>
    (s.openFiles.lookup (pid, fd)).bind fun fu =>
      if 0 < fu.calls ∧ method.Known s then some (runMethod pid fu.file method s) else none
  | .leave pid fd =>
    (s.openFiles.lookup (pid, fd)).bind fun fu =>
      if 0 < fu.calls then some (decUsage pid fd fu s, .done) else none
  | .pollEnter pid fd again => some (pollEnter pid fd again s, .done)
  | .pollLeave pid fd =>
    (s.openFiles.lookup (pid, fd)).bind fun fu =>
      if 0 < fu.polls then some (pollLeave pid fd fu s, .done) else none
  | .fork pid child =>
    if ∀ key ∈ s.openFiles.keys, key.1 ≠ child then some (clone pid child s, .done) else none
  | .exit pid => some (exit pid s, .done)
  | .stop pid => some (stop pid s, .done)

/-- The machine of all processes. -/
def machine (β : Type*) : Machine (System β) (Label β) where
  init s := s = .start
  step s a := (respond s a).map Prod.fst

end Dce.Descriptors
