import Dce.Lib.Machine
import Dce.Lib.Table

/- `dce_poll` over the descriptors of a process, beside what its other threads do with them: `dce-poll.cc`,
`file-usage.cc`, and of `dce-fd.cc`, `utils.h` and `utils.cc` what counts the uses of a descriptor. -/

namespace Dce.Polling

structure FileUsage where
  m_count : Int
  m_closing : Bool
  deriving DecidableEq, Repr

/-- `struct pollfd` -/
structure PollFd where
  fd : Int
  events : Nat
  revents : Nat
  deriving DecidableEq, Repr

/-- What `dce_poll` has on its stack while it waits. A `FileUsage` is told by its address. -/
structure Poll where
  fds : List PollFd
  timeout : Int
  endtime : Nat
  toUnRef : Table Int Nat

/-- A call that its thread has not returned from. A method has the address of the `FileUsage` that it counted;
`dce_writev` looks for it again at its end, so there the address is not in the source. -/
inductive Call
  | method (fd : Int) (fu : Nat)
  | writev (fd : Int) (fu : Nat)
  | poll (p : Poll)

/-- `now` is in nanoseconds. The calls of a thread are listed with the innermost one first, since the handler
of a signal may call while its thread waits in a call. -/
structure Process (T : Type*) where
  heap : Nat → Option FileUsage
  nextUsage : Nat
  openFiles : Table Int Nat
  calls : List (T × Call)
  now : Nat

inductive Result
  | done
  | EBADF
  | sleeps
  | polled (count : Nat) (fds : List PollFd)
  deriving DecidableEq, Repr

def POLLERR : Nat := 8

def POLLHUP : Nat := 16

section

variable {T : Type*}

def modify (a : Nat) (f : FileUsage → FileUsage) (s : Process T) : Process T :=
  { s with heap := Function.update s.heap a ((s.heap a).map f) }

/-- `new FileUsage` for a descriptor -/
def newFileUsage (fd : Int) (s : Process T) : Process T :=
  { s with
    heap := Function.update s.heap s.nextUsage (some ⟨0, false⟩)
    nextUsage := s.nextUsage + 1
    openFiles := s.openFiles.insert fd s.nextUsage }

def GetFileInc (a : Nat) : Process T → Process T := modify a fun fu => { fu with m_count := fu.m_count + 1 }

/-- `DecUsage`, whose result is `isOver` afterwards. -/
def DecUsage (a : Nat) : Process T → Process T := modify a fun fu => { fu with m_count := fu.m_count - 1 }

def isOver (a : Nat) (s : Process T) : Bool := (s.heap a).any fun fu => fu.m_count = 0 && fu.m_closing

/-- `openFiles.erase (fd)` and `delete fu` -/
def forget (fd : Int) (a : Nat) (s : Process T) : Process T :=
  { s with openFiles := s.openFiles.erase fd, heap := Function.update s.heap a none }

/-- `CheckFdExists (process, fd, true)`, with what it finds -/
def findOpen (fd : Int) (s : Process T) : Option Nat :=
  (s.openFiles.lookup fd).filter fun a => (s.heap a).any fun fu => ! fu.m_closing

def dce_close (fd : Int) (s : Process T) : Process T × Result :=
  match s.openFiles.lookup fd with
  | none => (s, .EBADF)
  | some a =>
    -- `CanForget`
    if (s.heap a).any fun fu => fu.m_count = 0 then (forget fd a s, .done)
    else (modify a (fun fu => { fu with m_closing := true }) s, .done)

end

section

variable {T : Type*} [DecidableEq T]

def innermost (t : T) (s : Process T) : Option Call := (s.calls.find? fun c => c.1 = t).map Prod.snd

def push (t : T) (c : Call) (s : Process T) : Process T := { s with calls := (t, c) :: s.calls }

def pop (t : T) (s : Process T) : Process T := { s with calls := s.calls.eraseP fun c => c.1 = t }

/-- `OPENED_FD_METHOD` as far as `GetFileInc`, or `dce_writev` -/
def enter (t : T) (fd : Int) (call : Int → Nat → Call) (s : Process T) : Process T × Result :=
  match findOpen fd s with
  | none => (s, .EBADF)
  | some a => (push t (call fd a) (GetFileInc a s), .sleeps)

/-- What follows the method in both. -/
def decUsage (fd : Int) (a : Nat) (s : Process T) : Process T :=
  let s := DecUsage a s
  if isOver a s then forget fd a s else s

def FdDecUsage (fd : Int) (s : Process T) : Process T :=
  match s.openFiles.lookup fd with
  | none => s
  | some a => decUsage fd a s

end

section

variable {T : Type*}

/-- `unixFd->Poll ()` with the events that are asked for; `answer` is what the files say. -/
def mask (answer : Nat → Nat) (pfd : PollFd) (a : Nat) : Nat := answer a &&& (pfd.events ||| POLLERR ||| POLLHUP)

/-- The variables of a round of `dce_poll`. `currentTable` says that the pointer is not null. -/
structure Round (T : Type*) where
  process : Process T
  toUnRef : Table Int Nat
  currentTable : Bool
  count : Nat

/-- The round at one entry of the array. -/
def pollEntry (answer : Nat → Nat) (pfd : PollFd) (r : Round T) : PollFd × Round T :=
  match findOpen pfd.fd r.process with
  | none => (pfd, r)
  | some a =>
    let r := if r.currentTable then
        { r with process := GetFileInc a r.process, toUnRef := r.toUnRef.insert pfd.fd a }
      else r
    let mask := mask answer pfd a
    ({ pfd with revents := mask }, if mask ≠ 0 then { r with count := r.count + 1, currentTable := false } else r)

def pollRound (answer : Nat → Nat) : List PollFd → Round T → List PollFd × Round T
  | [], r => ([], r)
  | pfd :: fds, r =>
    let (pfd, r) := pollEntry answer pfd r
    let (fds, r) := pollRound answer fds r
    (pfd :: fds, r)

variable [DecidableEq T]

/-- The loop over `toUnRef`. -/
def release (toUnRef : Table Int Nat) (s : Process T) : Process T :=
  toUnRef.entries.foldl (fun s e => DecUsage e.2 s) s

/-- What follows a round: the poll comes back with `count`, or waits. It has its variables on the stack. -/
def afterRound (t : T) (p : Poll) (fds : List PollFd) (count : Nat) (s : Process T) : Process T × Result :=
  if count ≠ 0 ∨ p.timeout = 0 ∨ (0 < p.timeout ∧ p.endtime ≤ s.now) then
    (release p.toUnRef (pop t s), .polled count fds)
  else (s, .sleeps)

def dce_poll (t : T) (fds : List PollFd) (timeout : Int) (answer : Nat → Nat) (s : Process T) : Process T × Result :=
  let fds := fds.map fun pfd => { pfd with revents := 0 }
  let (revents, r) := pollRound answer fds ⟨s, ∅, timeout ≠ 0, 0⟩
  let p : Poll := ⟨fds, timeout, s.now + timeout.toNat * 1000000, r.toUnRef⟩
  afterRound t p revents r.count (push t (.poll p) r.process)

/-- The next round, after a wait. -/
def pollAgain (t : T) (p : Poll) (answer : Nat → Nat) (s : Process T) : Process T × Result :=
  let (revents, r) := pollRound answer p.fds ⟨s, p.toUnRef, false, 0⟩
  afterRound t p revents r.count r.process

end

variable {T : Type*} [DecidableEq T]

/-- From the end of the method of a call, or from the end of a wait. -/
def proceed (t : T) (answer : Nat → Nat) (s : Process T) : Call → Process T × Result
  | .method fd a => (decUsage fd a (pop t s), .done)
  | .writev fd _ => (FdDecUsage fd (pop t s), .done)
  | .poll p => pollAgain t p answer s

/-- `create` stands for every call that makes a descriptor, and `exit` for the end of the process. The files
answer what they like, and the wait of a poll may end at any time. -/
inductive Label (T : Type*)
  | create (fd : Int)
  | close (fd : Int)
  | method (t : T) (fd : Int)
  | writev (t : T) (fd : Int)
  | poll (t : T) (fds : List PollFd) (timeout : Int) (answer : Nat → Nat)
  | proceed (t : T) (answer : Nat → Nat)
  | tick (n : Nat)
  | exit

def respond (s : Process T) : Label T → Option (Process T × Result)
  | .create fd => if s.openFiles.lookup fd = none then some (newFileUsage fd s, .done) else none
  | .close fd => some (dce_close fd s)
  | .method t fd => some (enter t fd .method s)
  | .writev t fd => some (enter t fd .writev s)
  | .poll t fds timeout answer => some (dce_poll t fds timeout answer s)
  | .proceed t answer => (innermost t s).map (proceed t answer s)
  | .tick n => some ({ s with now := s.now + n }, .done)
  | .exit => some ({ s with heap := fun _ => none, openFiles := ∅, calls := [] }, .done)

def start : Process T where
  heap _ := none
  nextUsage := 0
  openFiles := ∅
  calls := []
  now := 0

def machine (T : Type*) [DecidableEq T] : Machine (Process T) (Label T) where
  init s := s = start
  step s label := (respond s label).map Prod.fst

end Dce.Polling
