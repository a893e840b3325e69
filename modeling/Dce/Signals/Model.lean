import Dce.TaskManager.Model
import Mathlib.Data.Finset.Basic
import Mathlib.Data.List.Range

/- The masks of the threads and the pending signals of the processes, as `dce-signal.cc`, `utils.cc` and `dce.cc`
change them. -/

namespace Dce.Signals

open TaskManager (TaskState)

/-- A `sigset_t`, by the signals in it. -/
abbrev Sigset := Finset Nat

def SIGHUP : Nat := 1

def SIGINT : Nat := 2

def SIGKILL : Nat := 9

def SIGSTOP : Nat := 19

/-- Two signals that the C library keeps for itself. -/
def SIGCANCEL : Nat := 32

def SIGSETXID : Nat := 33

def SIGRTMAX : Nat := 64

inductive Errno
  | EINVAL | ESRCH
  deriving DecidableEq, Repr

structure Thread where
  tid : Nat
  signalMask : Sigset
  /-- The state of its task. A thread that has exited has none, and stays until it is joined. -/
  task : Option TaskState
  err : Option Errno
  deriving DecidableEq

structure Process where
  pendingSignals : Sigset
  threads : List Thread
  deriving DecidableEq

/-- The processes of a node, and `err` of the thread that runs. -/
structure Manager where
  m_processes : Nat → Option Process
  err : Option Errno

/-- The first argument of `dce_sigprocmask`; `other` is any other number. -/
inductive How
  | SIG_BLOCK | SIG_UNBLOCK | SIG_SETMASK | other
  deriving DecidableEq, Repr

/-- The numbers that `sigaddset` and `sigdelset` take. -/
def IsSignal (signum : Nat) : Prop := 1 ≤ signum ∧ signum ≤ SIGRTMAX ∧ signum ≠ SIGCANCEL ∧ signum ≠ SIGSETXID

instance (signum : Nat) : Decidable (IsSignal signum) := inferInstanceAs (Decidable (_ ∧ _))

/-- A number that is no signal changes nothing. -/
def sigaddset (set : Sigset) (signum : Nat) : Sigset := if IsSignal signum then insert signum set else set

def sigdelset (set : Sigset) (signum : Nat) : Sigset := if IsSignal signum then set.erase signum else set

/-- What it returns is -1 for a number beyond all signals. -/
def sigismember (set : Sigset) (signum : Nat) : Int :=
  if 1 ≤ signum ∧ signum ≤ SIGRTMAX then if signum ∈ set then 1 else 0 else -1

/-- The loop of `SIG_UNBLOCK` over the signals `l`. -/
def unblock (set : Sigset) (l : List Nat) (mask : Sigset) : Sigset :=
  l.foldl (fun mask s => if s ∈ set then sigdelset mask s else mask) mask

/-- The mask after a call of `dce_sigprocmask` with a set. -/
def newMask (how : How) (set mask : Sigset) : Sigset :=
  match how with
  | .SIG_BLOCK => mask ∪ set
  | .SIG_UNBLOCK => unblock set (List.range' SIGINT (SIGRTMAX + 1 - SIGINT)) mask
  | .SIG_SETMASK => set
  | .other => mask

/-- The thread afterwards, the result and what is stored at `oldset`. Both pointers may be null. -/
def dce_sigprocmask (how : How) (set : Option Sigset) (oldset : Bool) (current : Thread) :
    Thread × Int × Option Sigset :=
  let old := if oldset then some current.signalMask else none
  let mask := set.elim current.signalMask fun set => newMask how set current.signalMask
  if how = .other then ({ current with err := some .EINVAL }, -1, old)
  else ({ current with signalMask := mask }, 0, old)

/-- The loop of `UtilsSendSignal` over the threads. `none` stands for the crash of `IsBlocked ()` where there is no
task. -/
def wakeCandidate (signum : Nat) : List Thread → Option (List Thread)
  | [] => some []
  | thread :: rest =>
    if sigismember thread.signalMask signum ≠ 0 then (wakeCandidate signum rest).map (thread :: ·)
    else
      match thread.task with
      | none => none
      | some .BLOCKED => some ({ thread with task := some .ACTIVE } :: rest)
      | some _ => (wakeCandidate signum rest).map (thread :: ·)

def UtilsSendSignal (process : Process) (signum : Nat) : Option Process :=
  (wakeCandidate signum process.threads).map fun threads => ⟨sigaddset process.pendingSignals signum, threads⟩

/-- What `UtilsDoSignal` asks of the mask of the thread that it delivers a signal to. -/
def delivers (mask : Sigset) (signum : Nat) : Bool := ! (signum ∈ mask && signum ≠ SIGKILL && signum ≠ SIGSTOP)

/-- The process is looked for under the lowest 16 bits of its number. The signal is not used. A call that crashes has
no result. -/
def dce_kill (pid : Int) (_sig : Nat) (s : Manager) : Option (Manager × Int) :=
  let pid := (pid % 2 ^ 16).toNat
  match s.m_processes pid with
  | none => some ({ s with err := some .ESRCH }, -1)
  | some process => (UtilsSendSignal process SIGKILL).map fun process =>
    ({ s with m_processes := Function.update s.m_processes pid (some process) }, 0)

end Dce.Signals

/- The set algebra of `dce_sigprocmask`. -/

namespace Dce.Signals

variable {set mask : Sigset} {l : List Nat} {n : Nat}

/-- The mask that a call has to leave. -/
def algebra (how : How) (set mask : Sigset) : Sigset :=
  match how with
  | .SIG_BLOCK => mask ∪ set
  | .SIG_UNBLOCK => mask \ set
  | .SIG_SETMASK => set
  | .other => mask

/-- A call gives every signal the place in the mask that the algebra says, and reports the mask before it. -/
structure Follows (how : How) (set : Sigset) (oldset : Bool) (current : Thread) : Prop where
  mask : ∀ n, 1 ≤ n → n ≤ SIGRTMAX →
    (n ∈ (dce_sigprocmask how (some set) oldset current).1.signalMask ↔ n ∈ algebra how set current.signalMask)
  old : (dce_sigprocmask how (some set) oldset current).2.2 = if oldset then some current.signalMask else none
  result : (dce_sigprocmask how (some set) oldset current).2.1 = if how = .other then -1 else 0

theorem mem_sigaddset {signum : Nat} : n ∈ sigaddset set signum ↔ (n = signum ∧ IsSignal signum) ∨ n ∈ set := by
  unfold sigaddset
  split
  next signal => rw [Finset.mem_insert, and_iff_left signal]
  next refused => exact ⟨.inr, fun either => either.elim (fun same => absurd same.2 refused) id⟩

theorem mem_sigdelset {signum : Nat} : n ∈ sigdelset mask signum ↔ n ∈ mask ∧ ¬ (n = signum ∧ IsSignal signum) := by
  unfold sigdelset
  split
  next signal => rw [Finset.mem_erase, and_iff_left signal, and_comm]
  next refused => exact ⟨fun mem => ⟨mem, fun same => refused same.2⟩, And.left⟩

theorem mem_unblock : n ∈ unblock set l mask ↔ n ∈ mask ∧ ¬ (n ∈ l ∧ n ∈ set ∧ IsSignal n) := by
  induction l generalizing mask with
  | nil => simp [unblock]
  | cons s l ih =>
    have step : n ∈ unblock set (s :: l) mask ↔
      n ∈ unblock set l (if s ∈ set then sigdelset mask s else mask) := .rfl
    rw [step, ih]
    by_cases asked : s ∈ set
    · rw [if_pos asked, mem_sigdelset]
      by_cases same : n = s
      · subst same
        simp only [asked, List.mem_cons_self, true_and]
        tauto
      · simp [same]
    · rw [if_neg asked]
      by_cases same : n = s
      · simp [same, asked]
      · simp [same]

/-- The signals that `SIG_UNBLOCK` leaves in every mask. -/
def Stays (signum : Nat) : Prop := signum = SIGHUP ∨ signum = SIGCANCEL ∨ signum = SIGSETXID

theorem mem_newMask_unblock (some_ : 1 ≤ n) (signal : n ≤ SIGRTMAX) :
    n ∈ newMask .SIG_UNBLOCK set mask ↔ n ∈ mask ∧ (n ∉ set ∨ Stays n) := by
  have visited : n ∈ List.range' SIGINT (SIGRTMAX + 1 - SIGINT) ∧ IsSignal n ↔ ¬ Stays n := by
    unfold IsSignal Stays SIGINT SIGHUP SIGRTMAX at *
    rw [List.mem_range'_1]
    omega
  rw [newMask, mem_unblock]
  tauto

theorem signalMask_sigprocmask (how : How) (set : Sigset) (oldset : Bool) (current : Thread) :
    (dce_sigprocmask how (some set) oldset current).1.signalMask = newMask how set current.signalMask := by
  by_cases other : how = .other
  · simp only [dce_sigprocmask, if_pos other]
    rw [other, newMask]
  · simp [dce_sigprocmask, if_neg other]

theorem Stays.bounds (stays : Stays n) : 1 ≤ n ∧ n ≤ SIGRTMAX := by
  rcases stays with rfl | rfl | rfl <;> decide

/-- For every way to change a mask, every set and every thread: the call follows the algebra unless it has to unblock
`SIGHUP` or one of the two signals that are not given to programs. -/
theorem follows_iff_nothingStays (how : How) (set : Sigset) (oldset : Bool) (current : Thread) :
    Follows how set oldset current ↔ ¬ (how = .SIG_UNBLOCK ∧ ∃ n ∈ set, n ∈ current.signalMask ∧ Stays n) := by
  constructor
  · rintro follows ⟨rfl, n, member, blocked, stays⟩
    have kept := follows.mask n stays.bounds.1 stays.bounds.2
    rw [signalMask_sigprocmask, mem_newMask_unblock stays.bounds.1 stays.bounds.2, algebra, Finset.mem_sdiff] at kept
    tauto
  · intro other
    refine ⟨fun n some_ signal => ?_, ?_, ?_⟩
    · rw [signalMask_sigprocmask]
      cases how with
      | SIG_UNBLOCK =>
        rw [mem_newMask_unblock some_ signal, algebra, Finset.mem_sdiff]
        constructor
        · rintro ⟨blocked, kept | stays⟩
          · exact ⟨blocked, kept⟩
          · exact ⟨blocked, fun member => other ⟨rfl, n, member, blocked, stays⟩⟩
        · exact fun ⟨blocked, kept⟩ => ⟨blocked, .inl kept⟩
      | SIG_BLOCK => rfl
      | SIG_SETMASK => rfl
      | other => rfl
    · by_cases unknown : how = .other
      · simp only [dce_sigprocmask, if_pos unknown]
      · simp only [dce_sigprocmask, if_neg unknown]
    · by_cases unknown : how = .other
      · simp only [dce_sigprocmask, if_pos unknown]
      · simp only [dce_sigprocmask, if_neg unknown]

/-- A thread that blocks `SIGHUP` cannot unblock it. -/
theorem not_follows : ¬ Follows .SIG_UNBLOCK {SIGHUP} true ⟨0, {SIGHUP}, some .RUNNING, none⟩ := by
  intro follows
  have hangup := follows.mask SIGHUP (by decide) (by decide)
  revert hangup
  decide

end Dce.Signals
