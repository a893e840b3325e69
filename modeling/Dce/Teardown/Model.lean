import Dce.Lib.Machine
import Mathlib.Data.List.Basic

/- The waits of the threads at the files, and what is done about them when a process is deleted. A file of another
process can be reached by a descriptor that both got with a `fork`, and a write to a pipe waits at its other end. -/

namespace Dce.Teardown

open Function

/-- An entry of a `m_waitQueueList`, with the wait point that it wakes up: itself, or the `PollTable` it is for. -/
structure QueueEntry where
  id : Nat
  point : Nat
  deriving DecidableEq, Repr

/-- `m_waiter` is what a timer has. -/
structure UnixFd where
  m_waitQueueList : List QueueEntry
  m_waiter : Option Nat
  deriving DecidableEq, Repr

/-- The calls on the stack of a thread: the wait of a read, a write, an accept or a connect with its entry, that of a
poll with its table, that of a read of a timer, and a signal handler. -/
inductive Frame
  | entry (file wq : Nat)
  | table (id : Nat)
  | timer (file : Nat)
  | handler
  deriving DecidableEq, Repr

/-- `exited` is set by `pthread_exit`, and `torn` when the process is deleted, or its program is replaced. -/
structure Thread where
  process : Nat
  ioWait : Option (Nat × Nat)
  pollTable : Option Nat
  frames : List Frame
  exited : Bool
  torn : Bool
  deriving DecidableEq, Repr

/-- `processes` has the `threads` of each process, and `openFiles` the process and the file of each descriptor. The
entries of a wait point are pairs of a file and the entry in its queue: the `m_pollEntryList` of a `PollTable`, and
itself for a `WaitQueueEntryTimeout`. Numbers from `fresh` on are not in use. -/
structure State where
  threads : Nat → Option Thread
  processes : Nat → Option (List Nat)
  files : Nat → UnixFd
  openFiles : List (Nat × Nat)
  entries : Nat → List (Nat × Nat)
  m_waitTask : Nat → Option Nat
  fresh : Nat

def newThread (p : Nat) (frames : List Frame) : Thread := ⟨p, none, none, frames, false, false⟩

namespace State

def setThread (t : Nat) (r : Thread) (s : State) : State := { s with threads := update s.threads t (some r) }

def setFile (f : Nat) (file : UnixFd) (s : State) : State := { s with files := update s.files f file }

def setWaitTask (point : Nat) (t : Option Nat) (s : State) : State :=
  { s with m_waitTask := update s.m_waitTask point t }

def setEntries (point : Nat) (l : List (Nat × Nat)) (s : State) : State :=
  { s with entries := update s.entries point l }

/-- Some process has a descriptor of the file. -/
def Open (f : Nat) (s : State) : Prop := ∃ p, (p, f) ∈ s.openFiles

instance (f : Nat) (s : State) : Decidable (s.Open f) :=
  decidable_of_iff (f ∈ s.openFiles.map Prod.snd) <| by
    rw [List.mem_map]
    exact ⟨fun ⟨⟨p, _⟩, member, same⟩ => ⟨p, same ▸ member⟩, fun ⟨p, member⟩ => ⟨(p, f), member, rfl⟩⟩

end State

def AddWaitQueue (f : Nat) (newOne : QueueEntry) (s : State) : State :=
  s.setFile f { s.files f with m_waitQueueList := (s.files f).m_waitQueueList ++ [newOne] }

def RemoveWaitQueue (f old : Nat) (s : State) : State :=
  s.setFile f { s.files f with m_waitQueueList := (s.files f).m_waitQueueList.filter (·.id ≠ old) }

/-- `PollWait` of the table. -/
def PollWait (table : Nat) (s : State) (f : Nat) : State :=
  AddWaitQueue f ⟨s.fresh, table⟩ { s.setEntries table (s.entries table ++ [(f, s.fresh)]) with
    fresh := s.fresh + 1 }

/-- `FreeWait` of the table. -/
def FreeWait (table : Nat) (s : State) : State :=
  (s.entries table).foldl (fun s e => RemoveWaitQueue e.1 e.2 s) s

/-- The thread runs code of its program. -/
def running (t : Nat) (s : State) : Option Thread :=
  (s.threads t).filter fun r => !r.torn && !r.exited && (r.frames.head? = none || r.frames.head? = some .handler)

/-- The thread waits; `frame` is where. -/
def waiting (t : Nat) (s : State) : Option (Thread × Frame) := do
  let r ← s.threads t
  let frame ← r.frames.head?
  if r.torn || r.exited || frame = .handler then none else some (r, frame)

/-- The begin of a wait with a new `WaitQueueEntryTimeout`. -/
def io (t : Nat) (r : Thread) (f : Nat) (s : State) : State :=
  let wq := s.fresh
  let s := AddWaitQueue f ⟨wq, wq⟩ { s.setEntries wq [(f, wq)] with fresh := s.fresh + 1 }
  (s.setThread t { r with ioWait := some (f, wq), frames := .entry f wq :: r.frames }).setWaitTask wq (some t)

/-- The begin of a wait in `dce_poll` at the files `fs`. -/
def poll (t : Nat) (r : Thread) (fs : List Nat) (s : State) : State :=
  let table := s.fresh
  let s := { s.setEntries table [] with fresh := s.fresh + 1 }
  let s := fs.foldl (PollWait table) s
  (s.setThread t { r with pollTable := some table, frames := .table table :: r.frames }).setWaitTask table (some t)

/-- The begin of the wait in `Read` of a timer. -/
def readTimer (t : Nat) (r : Thread) (f : Nat) (s : State) : State :=
  (s.setFile f { s.files f with m_waiter := some t }).setThread t { r with frames := .timer f :: r.frames }

/-- The wait is over, but the call has nothing to return yet, and waits again. -/
def again (t : Nat) (r : Thread) (frame : Frame) (s : State) : Option State :=
  match frame with
  | .entry f wq =>
    let s := AddWaitQueue f ⟨wq, wq⟩ (RemoveWaitQueue f wq s)
    some ((s.setThread t { r with ioWait := some (f, wq) }).setWaitTask wq (some t))
  | .table table => some ((s.setThread t { r with pollTable := some table }).setWaitTask table (some t))
  | _ => none

/-- The wait is over, and the call returns. -/
def returns (t : Nat) (r : Thread) (frame : Frame) (s : State) : State :=
  let rest := r.frames.tail
  match frame with
  | .entry f wq =>
      RemoveWaitQueue f wq ((s.setWaitTask wq none).setThread t { r with ioWait := none, frames := rest })
  | .table table =>
      FreeWait table ((s.setWaitTask table none).setThread t { r with pollTable := none, frames := rest })
  | .timer f => (s.setFile f { s.files f with m_waiter := none }).setThread t { r with frames := rest }
  | .handler => s.setThread t { r with frames := rest }

def CleanupThread (s : State) (t : Nat) : State :=
  match s.threads t with
  | none => s
  | some r =>
    let s := match r.ioWait with
      | none => s
      | some (f, wq) => RemoveWaitQueue f wq s
    let s := match r.pollTable with
      | none => s
      | some table => FreeWait table s
    s.setThread t { r with ioWait := none, pollTable := none }

/-- All threads that the process has had are gone. -/
def tear (p : Nat) (s : State) : State :=
  { s with threads := fun t => (s.threads t).map fun r => if r.process = p then { r with torn := true } else r }

def DeleteProcess (p : Nat) (s : State) : State :=
  let s := tear p (((s.processes p).getD []).reverse.foldl CleanupThread s)
  { s with processes := update s.processes p none, openFiles := s.openFiles.filter (·.1 ≠ p) }

/-- The process goes on with a new thread. -/
def Execve (p : Nat) (s : State) : State :=
  let s' := tear p (((s.processes p).getD []).reverse.foldl CleanupThread s)
  { s'.setThread s.fresh (newThread p []) with
    processes := update s.processes p (some [s.fresh]), fresh := s.fresh + 1 }

/-- `handler` begins a handler in a thread that waits, and `handled` ends it. `close` is the deletion of a
descriptor, by `dce_close` or by the last use of a descriptor that was closed. `stop` is a `DeleteProcess` from the
main loop. -/
inductive Label
  | startProcess
  | create (t : Nat)
  | fork (t : Nat)
  | openFile (t : Nat)
  | dup (t f : Nat)
  | close (p f : Nat)
  | io (t f : Nat)
  | again (t : Nat)
  | poll (t : Nat) (fs : List Nat)
  | readTimer (t f : Nat)
  | handler (t : Nat)
  | handled (t : Nat)
  | returns (t : Nat)
  | threadExit (t : Nat) (isDetached : Bool)
  | join (t : Nat)
  | exit (t : Nat)
  | stop (p : Nat)
  | execve (t : Nat)
  | wakeWaiters (f : Nat)
  | timerExpired (f : Nat)
  deriving DecidableEq, Repr

def addThread (p : Nat) (r : Thread) (s : State) : State :=
  { s.setThread s.fresh r with
    processes := update s.processes p (some ((s.processes p).getD [] ++ [s.fresh])), fresh := s.fresh + 1 }

/-- The process `s.fresh` with one thread. -/
def addProcess (files : List Nat) (frames : List Frame) (s : State) : State :=
  addThread s.fresh (newThread s.fresh frames)
    { s with openFiles := s.openFiles ++ files.map fun f => (s.fresh, f), fresh := s.fresh + 1 }

/-- The stack of the new process is a copy. -/
def fork (r : Thread) (s : State) : State :=
  addProcess ((s.openFiles.filter (·.1 = r.process)).map Prod.snd) r.frames s

def openFile (r : Thread) (s : State) : State :=
  { s.setFile s.fresh ⟨[], none⟩ with openFiles := s.openFiles ++ [(r.process, s.fresh)], fresh := s.fresh + 1 }

/-- `DeleteThread`, as far as the list of the process is concerned. -/
def removeThread (t p : Nat) (s : State) : State :=
  { s with processes := update s.processes p (some (((s.processes p).getD []).erase t)) }

/-- The exit of the last thread is that of the process. -/
def threadExit (t : Nat) (r : Thread) (isDetached : Bool) (s : State) : State :=
  if s.processes r.process = some [t] then DeleteProcess r.process s
  else
    let s := s.setThread t { r with exited := true }
    if isDetached then removeThread t r.process s else s

def step (s : State) : Label → Option State
  | .startProcess => some (addProcess [] [] s)
  | .create t => (running t s).map fun r => addThread r.process (newThread r.process []) s
  | .fork t => (running t s).map fun r => fork r s
  | .openFile t => (running t s).map fun r => openFile r s
  | .dup t f => do
    let r ← running t s
    if (r.process, f) ∈ s.openFiles then some { s with openFiles := s.openFiles ++ [(r.process, f)] } else none
  | .close p f => some { s with openFiles := s.openFiles.erase (p, f) }
  | .io t f => do
    let r ← running t s
    if s.Open f then some (io t r f s) else none
  | .again t => (waiting t s).bind fun w => again t w.1 w.2 s
  | .poll t fs => do
    let r ← running t s
    if ∀ f ∈ fs, (r.process, f) ∈ s.openFiles then some (poll t r fs s) else none
  | .readTimer t f => do
    let r ← running t s
    if (r.process, f) ∈ s.openFiles then some (readTimer t r f s) else none
  | .handler t => (waiting t s).map fun w => s.setThread t { w.1 with frames := .handler :: w.1.frames }
  | .handled t => do
    let r ← running t s
    if r.frames.head? = some .handler then some (returns t r .handler s) else none
  | .returns t => (waiting t s).map fun w => returns t w.1 w.2 s
  | .threadExit t isDetached => (running t s).map fun r => threadExit t r isDetached s
  | .join t => do
    let r ← s.threads t
    if r.exited ∧ r.torn = false then some (removeThread t r.process s) else none
  | .exit t => (running t s).map fun r => DeleteProcess r.process s
  | .stop p => if s.processes p = none then none else some (DeleteProcess p s)
  | .execve t => (running t s).map fun r => Execve r.process s
  | .wakeWaiters f => if s.Open f then some s else none
  | .timerExpired f => if s.Open f then some s else none

/-- The files that an event wakes the waiters of. An exit closes what the process has. -/
def touched (s : State) : Label → List Nat
  | .wakeWaiters f => [f]
  | .timerExpired f => [f]
  | .close p f => if (p, f) ∈ s.openFiles then [f] else []
  | .exit t => (running t s).elim [] fun r => (s.openFiles.filter (·.1 = r.process)).map Prod.snd
  | _ => []

/-- Nothing has been started yet. -/
def initial : State := ⟨fun _ => none, fun _ => none, fun _ => ⟨[], none⟩, [], fun _ => [], fun _ => none, 0⟩

def machine : Machine State Label where
  init s := s = initial
  step := step

end Dce.Teardown

/- What the operations on the queues of the files add to them and take from them. -/

namespace Dce.Teardown

open Function List

variable {s s' u : State} {f old table t p : Nat} {e x : QueueEntry} {r : Thread}

/-- The queue of the file. -/
def queue (f : Nat) (s : State) : List QueueEntry := (s.files f).m_waitQueueList

theorem mem_queue_add : e ∈ queue f (AddWaitQueue old x s) ↔ e ∈ queue f s ∨ f = old ∧ e = x := by
  by_cases same : f = old
  · subst same
    simp [queue, AddWaitQueue, State.setFile]
  · simp [queue, AddWaitQueue, State.setFile, same]

theorem mem_queue_remove {g : Nat} : e ∈ queue f (RemoveWaitQueue g old s) ↔
    e ∈ queue f s ∧ (f = g → e.id ≠ old) := by
  by_cases same : f = g
  · subst same
    simp [queue, RemoveWaitQueue, State.setFile]
  · simp [queue, RemoveWaitQueue, State.setFile, same]

/-- From `s` to `s'` only entries of queues were taken out. -/
structure Shrinks (s s' : State) : Prop where
  threads : s'.threads = s.threads
  processes : s'.processes = s.processes
  openFiles : s'.openFiles = s.openFiles
  entries : s'.entries = s.entries
  m_waitTask : s'.m_waitTask = s.m_waitTask
  fresh : s'.fresh = s.fresh
  m_waiter : ∀ f, (s'.files f).m_waiter = (s.files f).m_waiter
  queue : ∀ f e, e ∈ queue f s' → e ∈ queue f s

theorem Shrinks.refl (s : State) : Shrinks s s := ⟨rfl, rfl, rfl, rfl, rfl, rfl, fun _ => rfl, fun _ _ => id⟩

theorem Shrinks.trans (first : Shrinks s u) (second : Shrinks u s') : Shrinks s s' where
  threads := second.threads.trans first.threads
  processes := second.processes.trans first.processes
  openFiles := second.openFiles.trans first.openFiles
  entries := second.entries.trans first.entries
  m_waitTask := second.m_waitTask.trans first.m_waitTask
  fresh := second.fresh.trans first.fresh
  m_waiter f := (second.m_waiter f).trans (first.m_waiter f)
  queue f e inside := first.queue f e (second.queue f e inside)

theorem shrinks_remove (f old : Nat) (s : State) : Shrinks s (RemoveWaitQueue f old s) where
  threads := rfl
  processes := rfl
  openFiles := rfl
  entries := rfl
  m_waitTask := rfl
  fresh := rfl
  m_waiter g := by
    by_cases same : g = f
    · subst same
      simp [RemoveWaitQueue, State.setFile]
    · simp [RemoveWaitQueue, State.setFile, same]
  queue _ _ inside := (mem_queue_remove.mp inside).1

theorem shrinks_removeAll (l : List (Nat × Nat)) (s : State) :
    Shrinks s (l.foldl (fun s e => RemoveWaitQueue e.1 e.2 s) s) := by
  induction l generalizing s with
  | nil => exact .refl s
  | cons e l ih => exact (shrinks_remove e.1 e.2 s).trans (ih _)

theorem shrinks_freeWait (table : Nat) (s : State) : Shrinks s (FreeWait table s) := shrinks_removeAll _ s

theorem removed_all (l : List (Nat × Nat)) (s : State)
    (inside : e ∈ queue f (l.foldl (fun s e => RemoveWaitQueue e.1 e.2 s) s)) :
    (f, e.id) ∉ l := by
  induction l generalizing s with
  | nil => exact not_mem_nil
  | cons x l ih =>
    intro mem
    rcases mem_cons.mp mem with same | mem
    · have first := (shrinks_removeAll l _).queue f e inside
      have kept := (mem_queue_remove.mp first).2 (congrArg Prod.fst same)
      exact kept (congrArg Prod.snd same)
    · exact ih _ inside mem

theorem freed (inside : e ∈ queue f (FreeWait table s)) : (f, e.id) ∉ s.entries table := removed_all _ s inside

/-- From `s` to `s'` the table was registered with files. -/
structure Registers (table : Nat) (s s' : State) : Prop where
  threads : s'.threads = s.threads
  processes : s'.processes = s.processes
  openFiles : s'.openFiles = s.openFiles
  m_waitTask : s'.m_waitTask = s.m_waitTask
  entries : ∀ point, point ≠ table → s'.entries point = s.entries point
  grows : ∀ x ∈ s.entries table, x ∈ s'.entries table
  fresh : s.fresh ≤ s'.fresh
  m_waiter : ∀ f, (s'.files f).m_waiter = (s.files f).m_waiter
  queue : ∀ f e, e ∈ queue f s' → e ∈ queue f s ∨ e.point = table ∧ (f, e.id) ∈ s'.entries table

theorem Registers.trans (first : Registers table s u) (second : Registers table u s') : Registers table s s' where
  threads := second.threads.trans first.threads
  processes := second.processes.trans first.processes
  openFiles := second.openFiles.trans first.openFiles
  m_waitTask := second.m_waitTask.trans first.m_waitTask
  entries point other := (second.entries point other).trans (first.entries point other)
  grows x mem := second.grows x (first.grows x mem)
  fresh := first.fresh.trans second.fresh
  m_waiter f := (second.m_waiter f).trans (first.m_waiter f)
  queue f e inside := by
    rcases second.queue f e inside with before | new
    · rcases first.queue f e before with start | ⟨point, mem⟩
      · exact .inl start
      · exact .inr ⟨point, second.grows _ mem⟩
    · exact .inr new

theorem registers_pollWait (table f : Nat) (s : State) : Registers table s (PollWait table s f) where
  threads := rfl
  processes := rfl
  openFiles := rfl
  m_waitTask := rfl
  entries _ other := update_of_ne other _ _
  grows x mem := by
    have all : (PollWait table s f).entries table = s.entries table ++ [(f, s.fresh)] := update_self ..
    rw [all]
    exact mem_append_left _ mem
  fresh := Nat.le_succ _
  m_waiter g := by
    by_cases same : g = f
    · subst same
      simp [PollWait, AddWaitQueue, State.setFile, State.setEntries]
    · simp [PollWait, AddWaitQueue, State.setFile, State.setEntries, same]
  queue g e inside := by
    rcases mem_queue_add.mp inside with before | ⟨rfl, rfl⟩
    · exact .inl before
    · have all : (PollWait table s g).entries table = s.entries table ++ [(g, s.fresh)] := update_self ..
      rw [all]
      exact .inr ⟨rfl, mem_append_right _ (mem_singleton.mpr rfl)⟩

theorem registers_all (table : Nat) (fs : List Nat) (s : State) :
    Registers table s (fs.foldl (PollWait table) s) := by
  induction fs generalizing s with
  | nil => exact ⟨rfl, rfl, rfl, rfl, fun _ _ => rfl, fun _ => id, le_rfl, fun _ => rfl, fun _ _ => .inl⟩
  | cons f fs ih => exact (registers_pollWait table f s).trans (ih _)

/-- The threads have the same calls on their stacks. -/
structure SameCalls (r r' : Thread) : Prop where
  process : r'.process = r.process
  frames : r'.frames = r.frames
  torn : r'.torn = r.torn

/-- From `s` to `s'` the threads in `l` were cleaned up. -/
structure Cleans (l : List Nat) (s s' : State) : Prop where
  threads : ∀ t r, s.threads t = some r → ∃ r', s'.threads t = some r' ∧ SameCalls r r' ∧ (t ∉ l → r' = r)
  back : ∀ t r', s'.threads t = some r' → ∃ r, s.threads t = some r
  processes : s'.processes = s.processes
  openFiles : s'.openFiles = s.openFiles
  entries : s'.entries = s.entries
  m_waitTask : s'.m_waitTask = s.m_waitTask
  fresh : s'.fresh = s.fresh
  m_waiter : ∀ f, (s'.files f).m_waiter = (s.files f).m_waiter
  queue : ∀ f e, e ∈ queue f s' → e ∈ queue f s
  entry : ∀ t ∈ l, ∀ r f wq, s.threads t = some r → r.ioWait = some (f, wq) → ∀ e ∈ Teardown.queue f s', e.id ≠ wq
  table : ∀ t ∈ l, ∀ r table, s.threads t = some r → r.pollTable = some table →
    ∀ f, ∀ e ∈ Teardown.queue f s', (f, e.id) ∉ s.entries table

theorem cleans_nil (s : State) : Cleans [] s s :=
  ⟨fun _ r found => ⟨r, found, ⟨rfl, rfl, rfl⟩, fun _ => rfl⟩, fun _ r found => ⟨r, found⟩, rfl, rfl, rfl, rfl,
    rfl, fun _ => rfl,
    fun _ _ => id, fun _ wrong => absurd wrong not_mem_nil, fun _ wrong => absurd wrong not_mem_nil⟩

theorem cleans_one (s : State) (t : Nat) : Cleans [t] s (CleanupThread s t) := by
  cases found : s.threads t with
  | none =>
    have same : CleanupThread s t = s := by rw [CleanupThread, found]
    rw [same]
    obtain ⟨threads, back, processes, openFiles, entries, waitTask, fresh, waiter, shrink, -, -⟩ := cleans_nil s
    refine ⟨fun j r has => ⟨r, has, ⟨rfl, rfl, rfl⟩, fun _ => rfl⟩, back, processes, openFiles, entries, waitTask,
      fresh, waiter, shrink,
      fun j mem r f wq has => ?_, fun j mem r table has => ?_⟩
    · rw [mem_singleton.mp mem, found] at has
      cases has
    · rw [mem_singleton.mp mem, found] at has
      cases has
  | some r =>
    let u : State := match r.ioWait with
      | none => s
      | some (f, wq) => RemoveWaitQueue f wq s
    let v : State := match r.pollTable with
      | none => u
      | some table => FreeWait table u
    have whole : CleanupThread s t = v.setThread t { r with ioWait := none, pollTable := none } := by
      simp only [CleanupThread, found]
      rfl
    have first : Shrinks s u ∧ ∀ f wq, r.ioWait = some (f, wq) → ∀ e ∈ queue f u, e.id ≠ wq := by
      cases waits : r.ioWait with
      | none =>
        have same : u = s := by simp only [u, waits]
        rw [same]
        exact ⟨.refl s, fun _ _ wrong => by cases wrong⟩
      | some x =>
        have same : u = RemoveWaitQueue x.1 x.2 s := by simp only [u, waits]
        rw [same]
        refine ⟨shrinks_remove .., fun f wq here e inside => ?_⟩
        cases here
        exact (mem_queue_remove.mp inside).2 rfl
    have second : Shrinks u v ∧ ∀ table, r.pollTable = some table →
        ∀ f, ∀ e ∈ queue f v, (f, e.id) ∉ u.entries table := by
      cases polls : r.pollTable with
      | none =>
        have same : v = u := by simp only [v, polls]
        rw [same]
        exact ⟨.refl u, fun _ wrong => by cases wrong⟩
      | some table =>
        have same : v = FreeWait table u := by simp only [v, polls]
        rw [same]
        refine ⟨shrinks_freeWait .., fun table here f e inside => ?_⟩
        cases here
        exact freed inside
    have all := first.1.trans second.1
    rw [whole]
    refine ⟨fun j q has => ?_, fun j q has => ?_, all.processes, all.openFiles, all.entries, all.m_waitTask,
      all.fresh, all.m_waiter, all.queue,
      fun j mem q f wq has waits e inside => ?_, fun j mem q table has polls f e inside => ?_⟩
    · by_cases same : j = t
      · subst same
        cases found.symm.trans has
        exact ⟨_, update_self .., ⟨rfl, rfl, rfl⟩, fun out => absurd (mem_singleton.mpr rfl) out⟩
      · refine ⟨q, ?_, ⟨rfl, rfl, rfl⟩, fun _ => rfl⟩
        exact (update_of_ne same _ _).trans ((congrFun all.threads j).trans has)
    · by_cases same : j = t
      · exact ⟨r, same ▸ found⟩
      · exact ⟨q, (congrFun all.threads j).symm.trans ((update_of_ne same _ _).symm.trans has)⟩
    · rw [mem_singleton.mp mem] at has
      cases found.symm.trans has
      exact first.2 f wq waits e (second.1.queue f e inside)
    · rw [mem_singleton.mp mem] at has
      cases found.symm.trans has
      rw [← first.1.entries]
      exact second.2 table polls f e inside

theorem cleans_all (l : List Nat) (s : State) : Cleans l s (l.foldl CleanupThread s) := by
  induction l generalizing s with
  | nil => exact cleans_nil s
  | cons t l ih =>
    have first := cleans_one s t
    have rest := ih (CleanupThread s t)
    refine ⟨fun j r has => ?_, fun j r has => ?_, rest.processes.trans first.processes,
      rest.openFiles.trans first.openFiles,
      rest.entries.trans first.entries, rest.m_waitTask.trans first.m_waitTask, rest.fresh.trans first.fresh,
      fun f => (rest.m_waiter f).trans (first.m_waiter f), fun f e inside => first.queue f e (rest.queue f e inside),
      fun j mem r f wq has waits e inside => ?_, fun j mem r table has polls f e inside => ?_⟩
    · obtain ⟨q, there, calls, same⟩ := first.threads j r has
      obtain ⟨q', there', calls', same'⟩ := rest.threads j q there
      refine ⟨q', there', ⟨calls'.process.trans calls.process, calls'.frames.trans calls.frames,
        calls'.torn.trans calls.torn⟩,
        fun out => (same' fun mem => out (mem_cons_of_mem _ mem)).trans (same fun here => ?_)⟩
      exact out (mem_singleton.mp here ▸ mem_cons_self)
    · obtain ⟨q, there⟩ := rest.back j r has
      exact first.back j q there
    · by_cases here : j = t
      · exact first.entry j (mem_singleton.mpr here) r f wq has waits e (rest.queue f e inside)
      · obtain ⟨q, there, -, same⟩ := first.threads j r has
        obtain rfl := same fun wrong => here (mem_singleton.mp wrong)
        exact rest.entry j ((mem_cons.mp mem).resolve_left here) q f wq there waits e inside
    · by_cases here : j = t
      · exact first.table j (mem_singleton.mpr here) r table has polls f e (rest.queue f e inside)
      · obtain ⟨q, there, -, same⟩ := first.threads j r has
        obtain rfl := same fun wrong => here (mem_singleton.mp wrong)
        rw [← first.entries]
        exact rest.table j ((mem_cons.mp mem).resolve_left here) q table there polls f e inside

end Dce.Teardown
