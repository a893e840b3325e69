import Dce.Lib.CInt
import Dce.Polling.Model
import Mathlib.Data.Finset.Card

/- `dce_select` and `dce_ppoll`, which both come to a call of `dce_poll`: `dce-poll.cc`. -/

namespace Dce.Polling

open CInt

def POLLIN : Nat := 1

def POLLPRI : Nat := 2

def POLLOUT : Nat := 4

/-- An `fd_set`, by the descriptors in it. -/
abbrev FdSet := Finset Nat

structure Timeval where
  tv_sec : Int
  tv_usec : Int
  deriving DecidableEq, Repr

structure Timespec where
  tv_sec : Int
  tv_nsec : Int
  deriving DecidableEq, Repr

/-- The three sets of a call; a null pointer is none. -/
structure Sets where
  readfds : Option FdSet
  writefds : Option FdSet
  exceptfds : Option FdSet
  deriving DecidableEq

/-- The arguments of a call of `dce_select`. -/
structure Select extends Sets where
  nfds : Int
  timeout : Option Timeval
  deriving DecidableEq

inductive SelectErrno
  | EINVAL | EBADF
  deriving DecidableEq, Repr

inductive SelectResult
  | failed (err : SelectErrno)
  | sleeps
  | done (ret : Nat) (sets : Sets)
  deriving DecidableEq

/-- Milliseconds as the `int` that `dce_poll` takes, of seconds and a smaller part with `perMilli` to the
millisecond. -/
def toMilliseconds (perMilli sec part : Int) : Int := toInt (toLong (toLong (sec * 1000) + part.tdiv perMilli))

/-- `pollTo` of `dce_select` -/
def pollTo : Option Timeval → Int
  | none => -1
  | some timeout => toMilliseconds 1000 timeout.tv_sec timeout.tv_usec

/-- `timeout` of `dce_ppoll` -/
def ppollTimeout : Option Timespec → Int
  | none => -1
  | some timeout_ts => toMilliseconds 1000000 timeout_ts.tv_sec timeout_ts.tv_nsec

/-- `FD_ISSET` where the pointer is not null. -/
def isSet (fd : Nat) (set : Option FdSet) : Bool := set.any fun set => fd ∈ set

def event (sets : Sets) (fd : Nat) : Nat :=
  (if isSet fd sets.readfds then POLLIN else 0) ||| (if isSet fd sets.writefds then POLLOUT else 0) |||
    (if isSet fd sets.exceptfds then POLLPRI else 0)

/-- The array for `dce_poll`, which has the descriptors in their order; none where one is not open. -/
def eventByFd {T : Type*} (sets : Sets) (s : Process T) : List Nat → Option (List PollFd)
  | [] => some []
  | fd :: fds =>
    if event sets fd = 0 then eventByFd sets s fds
    else if (findOpen fd s).isNone then none
    else (eventByFd sets s fds).map (⟨fd, event sets fd, 0⟩ :: ·)

/-- What `dce_select` calls `dce_poll` with. -/
def pollCall {T : Type*} (sel : Select) (s : Process T) : Except SelectErrno (List PollFd × Int) :=
  if sel.nfds = -1 then .error .EINVAL
  else if sel.readfds = none ∧ sel.writefds = none ∧ sel.exceptfds = none then .error .EINVAL
  else if sel.timeout.any fun timeout => timeout.tv_sec < 0 ∨ timeout.tv_usec < 0 then .error .EINVAL
  else match eventByFd sel.toSets s (List.range sel.nfds.toNat) with
  | none => .error .EBADF
  | some fds => .ok (fds, pollTo sel.timeout)

/-- `FD_ZERO` of the sets there are. -/
def zeroed (sets : Sets) : Sets where
  readfds := sets.readfds.map fun _ => ∅
  writefds := sets.writefds.map fun _ => ∅
  exceptfds := sets.exceptfds.map fun _ => ∅

/-- One of the kinds of events is reported for the descriptor. -/
def reported (kinds : List Nat) (pfd : PollFd) : Bool := kinds.any fun kind => kind &&& pfd.revents ≠ 0

/-- `FD_SET` and the count, where the set is there and a kind of events that it is for is reported. -/
def mark (kinds : List Nat) (pfd : PollFd) : Option FdSet × Nat → Option FdSet × Nat
  | (some set, pollRet) =>
    if reported kinds pfd then (some (insert pfd.fd.toNat set), pollRet + 1) else (some set, pollRet)
  | (none, pollRet) => (none, pollRet)

def readKinds : List Nat := [POLLIN, POLLHUP, POLLERR]

def writeKinds : List Nat := [POLLOUT]

def exceptKinds : List Nat := [POLLPRI]

/-- The loop over the array. -/
def markAll : List PollFd → Sets × Nat → Sets × Nat
  | [], r => r
  | pfd :: fds, (sets, pollRet) =>
    let (readfds, pollRet) := mark readKinds pfd (sets.readfds, pollRet)
    let (writefds, pollRet) := mark writeKinds pfd (sets.writefds, pollRet)
    let (exceptfds, pollRet) := mark exceptKinds pfd (sets.exceptfds, pollRet)
    markAll fds (⟨readfds, writefds, exceptfds⟩, pollRet)

/-- What follows `dce_poll` in `dce_select`. -/
def afterPoll (sel : Select) (pollRet : Nat) (fds : List PollFd) : Sets × Nat :=
  if 0 < pollRet then markAll fds (zeroed sel.toSets, 0) else (zeroed sel.toSets, pollRet)

section

variable {T : Type*} [DecidableEq T]

def finishSelect (sel : Select) : Process T × Result → Process T × SelectResult
  | (s, .polled count fds) =>
    let (sets, pollRet) := afterPoll sel count fds
    (s, .done pollRet sets)
  | (s, _) => (s, .sleeps)

def dce_select (t : T) (sel : Select) (answer : Nat → Nat) (s : Process T) : Process T × SelectResult :=
  match pollCall sel s with
  | .error err => (s, .failed err)
  | .ok (fds, pollTo) => finishSelect sel (dce_poll t fds pollTo answer s)

/-- The rest of the call after a wait of its `dce_poll`. -/
def selectAgain (t : T) (sel : Select) (p : Poll) (answer : Nat → Nat) (s : Process T) : Process T × SelectResult :=
  finishSelect sel (pollAgain t p answer s)

def dce_ppoll (t : T) (fds : List PollFd) (timeout_ts : Option Timespec) (answer : Nat → Nat) (s : Process T) :
    Process T × Result :=
  dce_poll t fds (ppollTimeout timeout_ts) answer s

end

end Dce.Polling
