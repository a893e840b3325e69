import Dce.Lib.Machine

/- The thread-specific data of a process: the keys of `dce-pthread.cc`, the creation and the end of threads
there, and `CreateThread` and `DeleteThread` of `dce-manager.cc`. -/

namespace Dce.Keys

/-- `node` tells the elements of a list apart, as their addresses do. A destructor that is zero is a null pointer. -/
structure ThreadKeyValue where
  node : Nat
  key : Nat
  destructor : Nat
  value : Nat
  deriving DecidableEq, Repr

/-- Which function has called `CleanupPthreadKeys`. -/
inductive Exit
  | pthread_exit
  | dce_exit
  deriving DecidableEq, Repr

/-- Which code a thread runs: that of the program, the destructor that was called at an element of its list, an exit
handler, or the `dce_fflush (0)` of `dce_exit`, which waits. -/
inductive Stage
  | program
  | destructor (node : Nat) (exit : Exit)
  | handler
  | flushing
  deriving DecidableEq, Repr

/-- A thread that has `exited` without being detached has a null pointer for its task. -/
structure Thread where
  keyValues : List ThreadKeyValue
  stage : Stage
  exited : Bool
  isDetached : Bool
  deriving DecidableEq, Repr

/-- What the process dies of: the task of a thread that has exited, an assertion, or an iterator whose element
is gone. -/
inductive Fault
  | nullTask
  | assertion
  | iterator
  deriving DecidableEq, Repr

/-- `atExitHandlers` is how many there are. -/
structure Process where
  threads : List Nat
  heap : Nat → Option Thread
  nextThread : Nat
  nextNode : Nat
  atExitHandlers : Nat
  fault : Option Fault

inductive Result
  | done
  | created (thread : Nat)
  | key (key : Nat)
  | value (v : Nat)
  /-- The destructor of a key was called with a value. -/
  | destroys (key v : Nat)
  | EINVAL
  | EAGAIN
  deriving DecidableEq, Repr

section

variable (l : List ThreadKeyValue)

def isKeyValid (key : Nat) : Bool := l.any fun e => e.key = key

/-- The loop of `dce_pthread_getspecific`. -/
def getValue (key : Nat) : Nat := ((l.find? fun e => e.key = key).map ThreadKeyValue.value).getD 0

/-- The loop of `dce_pthread_setspecific`. -/
def setValue (key v : Nat) : List ThreadKeyValue → List ThreadKeyValue
  | [] => []
  | e :: l => if e.key = key then { e with value := v } :: l else e :: setValue key v l

/-- The loop of `dce_pthread_key_create`: the least key from `tmp` on that is not valid, of `n` keys. -/
def freeKey : Nat → Nat → Option Nat
  | _, 0 => none
  | tmp, n + 1 => if isKeyValid l tmp then freeKey (tmp + 1) n else some tmp

/-- The condition of `CleanupPthreadKeys` at an element. -/
def isDue (e : ThreadKeyValue) : Bool := e.destructor ≠ 0 && e.value ≠ 0

/-- `j->value = 0` -/
def resetNode (node : Nat) : List ThreadKeyValue := l.map fun e => if e.node = node then { e with value := 0 } else e

/-- The elements after the one that an iterator is at. -/
def afterNode (node : Nat) : List ThreadKeyValue → List ThreadKeyValue
  | [] => []
  | e :: l => if e.node = node then l else afterNode node l

end

def Process.put (a : Nat) (thread : Thread) (s : Process) : Process :=
  { s with heap := Function.update s.heap a (some thread) }

/-- A change of the keys of every thread that is listed. -/
def Process.each (f : List ThreadKeyValue → List ThreadKeyValue) (s : Process) : Process :=
  { s with heap := fun a =>
    if a ∈ s.threads then (s.heap a).map fun thread => { thread with keyValues := f thread.keyValues }
    else s.heap a }

def crash (fault : Fault) (s : Process) : Process := { s with fault := some fault }

def DeleteThread (a : Nat) (s : Process) : Process :=
  { s with threads := s.threads.erase a, heap := Function.update s.heap a none }

/-- `DeleteProcess`, as far as the threads go. -/
def teardown (s : Process) : Process := { s with threads := [], heap := fun _ => none }

/-- The new thread has the keys of the first one. -/
def CreateThread (s : Process) : Process :=
  let keyValues := (s.threads.head?.bind s.heap).elim [] Thread.keyValues
  let thread : Thread := ⟨keyValues.map fun e => { e with value := 0 }, .program, false, false⟩
  { s.put s.nextThread thread with threads := s.threads ++ [s.nextThread], nextThread := s.nextThread + 1 }

/-- The new stack is as large as that of the task of the first thread. -/
def dce_pthread_create (s : Process) : Process × Result :=
  let thread := s.nextThread
  let s := CreateThread s
  match s.threads.head?.bind s.heap with
  | some first => if first.exited then (crash .nullTask s, .done) else (s, .created thread)
  | none => (s, .created thread)

/-- From `dce_fflush (0)` on. -/
def flush (a : Nat) (thread : Thread) (waits : Bool) (s : Process) : Process :=
  if waits then s.put a { thread with stage := .flushing } else teardown s

/-- What follows `CleanupPthreadKeys`; `waits` says whether the streams are flushed then and this waits. -/
def finish (a : Nat) (thread : Thread) (exit : Exit) (waits : Bool) (s : Process) : Process :=
  match exit with
  | .pthread_exit =>
    if thread.isDetached then DeleteThread a s else s.put a { thread with keyValues := [], exited := true }
  | .dce_exit =>
    match s.atExitHandlers with
    | 0 => flush a { thread with keyValues := [] } waits s
    | n + 1 => { s.put a { thread with keyValues := [], stage := .handler } with atExitHandlers := n }

/-- The loop of `CleanupPthreadKeys` at the elements `rest`, up to the call of a destructor or to its end. -/
def cleanup (a : Nat) (thread : Thread) (exit : Exit) (waits : Bool) (rest : List ThreadKeyValue) (s : Process) :
    Process × Result :=
  match rest.find? isDue with
  | some e =>
    (s.put a { thread with keyValues := resetNode thread.keyValues e.node, stage := .destructor e.node exit },
      .destroys e.key e.value)
  | none => (finish a thread exit waits s, .done)

def dce_exit (a : Nat) (thread : Thread) (waits : Bool) (s : Process) : Process × Result :=
  cleanup a thread .dce_exit waits thread.keyValues s

def dce_pthread_exit (a : Nat) (thread : Thread) (waits : Bool) (s : Process) : Process × Result :=
  if s.threads.length = 1 then dce_exit a thread waits s else cleanup a thread .pthread_exit waits thread.keyValues s

/-- From the return of a destructor, of an exit handler or of a wait of the flush on. -/
def proceed (a : Nat) (thread : Thread) (waits : Bool) (s : Process) : Option (Process × Result) :=
  match thread.stage with
  | .program => none
  | .destructor node exit =>
    if thread.keyValues.any fun e => e.node = node then
      some (cleanup a thread exit waits (afterNode node thread.keyValues) s)
    else some (crash .iterator s, .done)
  | .handler =>
    match s.atExitHandlers with
    | 0 => some (flush a thread waits s, .done)
    | n + 1 => some ({ s with atExitHandlers := n }, .done)
  | .flushing => some (flush a thread waits s, .done)

def dce_pthread_getspecific (thread : Thread) (key : Nat) : Nat := getValue thread.keyValues key

def dce_pthread_setspecific (a : Nat) (thread : Thread) (key v : Nat) (s : Process) : Process × Result :=
  if isKeyValid thread.keyValues key
    then (s.put a { thread with keyValues := setValue key v thread.keyValues }, .done)
  else (s, .EINVAL)

def dce_pthread_key_create (thread : Thread) (destructor : Nat) (s : Process) : Process × Result :=
  match freeKey thread.keyValues 2 99998 with
  | none => (s, .EAGAIN)
  | some key =>
    ({ s.each (· ++ [⟨s.nextNode, key, destructor, 0⟩]) with nextNode := s.nextNode + 1 }, .key key)

def dce_pthread_key_delete (thread : Thread) (key : Nat) (s : Process) : Process × Result :=
  if isKeyValid thread.keyValues key then
    if s.threads.all fun b => (s.heap b).all fun thread => isKeyValid thread.keyValues key then
      (s.each (·.eraseP fun e => e.key = key), .done)
    else (crash .assertion s, .done)
  else (s, .EINVAL)

/-- Calls of the thread `a`, and whether the flush of the streams waits where a call comes to it. A join is taken
when the other thread has an exit value; a detach while somebody joins, which does nothing, is left out. -/
inductive Label
  | create (a : Nat)
  | key_create (a destructor : Nat)
  | key_delete (a key : Nat)
  | setspecific (a key v : Nat)
  | getspecific (a key : Nat)
  | pthread_exit (a : Nat) (waits : Bool)
  | dce_exit (a : Nat) (waits : Bool)
  | proceed (a : Nat) (waits : Bool)
  | join (a b : Nat)
  | detach (a b : Nat)
  | atexit (a : Nat)
  deriving DecidableEq, Repr

/-- A thread of the process that can run. -/
def live (a : Nat) (s : Process) : Option Thread := (s.heap a).filter fun thread => thread.exited = false

def call (thread : Thread) (s : Process) : Label → Option (Process × Result)
  | .create _ => some (dce_pthread_create s)
  | .key_create _ destructor => some (dce_pthread_key_create thread destructor s)
  | .key_delete _ key => some (dce_pthread_key_delete thread key s)
  | .setspecific a key v => some (dce_pthread_setspecific a thread key v s)
  | .getspecific _ key => some (s, .value (dce_pthread_getspecific thread key))
  | .pthread_exit a waits => some (dce_pthread_exit a thread waits s)
  | .dce_exit a waits => some (dce_exit a thread waits s)
  | .proceed a waits => proceed a thread waits s
  | .join a b => do
    let other ← s.heap b
    if a ≠ b ∧ other.exited = true ∧ other.isDetached = false then some (DeleteThread b s, .done) else none
  | .detach _ b => do
    let other ← s.heap b
    some (s.put b { other with isDetached := true }, .done)
  | .atexit _ => some ({ s with atExitHandlers := s.atExitHandlers + 1 }, .done)

def Label.caller : Label → Nat
  | .create a | .key_create a _ | .key_delete a _ | .setspecific a _ _ | .getspecific a _
  | .pthread_exit a _ | .dce_exit a _
  | .proceed a _ | .join a _ | .detach a _ | .atexit a => a

/-- Any thread that can run may make the next call. -/
def respond (s : Process) (label : Label) : Option (Process × Result) :=
  if s.fault = none then (live label.caller s).bind fun thread => call thread s label else none

/-- The main thread. -/
def start : Process where
  threads := [0]
  heap a := if a = 0 then some ⟨[], .program, false, false⟩ else none
  nextThread := 1
  nextNode := 0
  atExitHandlers := 0
  fault := none

def machine : Machine Process Label where
  init s := s = start
  step s label := (respond s label).map Prod.fst

end Dce.Keys
