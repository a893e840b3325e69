import Dce.Env.Model
import Dce.Loader.Model
import Dce.Loader.Privacy

/- `Execve` up to the point from which there is no way back: the new program is loaded in the process that asks for
it, and what the process had is put back where this fails. -/

namespace Dce.Execution

open Dce.Env (CString fromSign)
open Dce.Loader

inductive Errno
  | EINVAL | ENOMEM | EACCES | ENOEXEC | ENOENT
  deriving DecidableEq, Repr

/-- The pointers to the variables of the libc say which module the variables are in, and `none` is the null pointer.
Threads, files, handlers and streams have numbers, and buffers their addresses. -/
structure Process where
  name : CString
  threads : List Nat
  openFiles : List (Nat × Nat)
  openStreams : List Nat
  signalHandlers : List Nat
  atExitHandlers : List Nat
  nextMid : Nat
  nextSid : Nat
  nextCid : Nat
  mainHandle : Option Nat
  originalEnvp : Nat
  originalProgname : Nat
  pstdin : Option Nat
  pstdout : Option Nat
  pstderr : Option Nat
  penvp : Option Nat
  poptarg : Option Nat
  poptind : Option Nat
  popterr : Option Nat
  poptopt : Option Nat
  loader : Nat
  deriving DecidableEq, Repr

/-- `buffers` are those that `malloc` has given and `free` has not taken, and `streams` those that are open. -/
structure State (D : Type*) where
  system : System D
  process : Process
  buffers : List Nat
  nextBuffer : Nat
  streams : List Nat
  nextStream : Nat
  nextLoader : Nat
  err : Option Errno

/-- What `pTemp` is used for. -/
structure Temp where
  allocated : List Nat
  originalProgname : Nat
  originalEnvp : Nat
  loader : Nat
  mainHandle : Option Nat

variable {D : Type*} {elf : Elf D}

/-- What is outside: the scripts that start with the name of an interpreter and perhaps an option, where an
interpreter is found, whether `/dev/null` can be opened once more for a descriptor, which handles have a `main`, and
what the setup function of a library leaves in its data section and in those of the modules that it depends on. -/
structure Host (elf : Elf D) where
  CheckShellScript : CString → Option (CString × CString)
  SearchExecFile : CString → Except Errno CString
  fopen : Nat → Bool
  main : Nat → Bool
  setup : String → List (Nat × D)
  confined : ∀ file, ∀ p ∈ setup file, p.1 ∈ elf.gather file

variable {host : Host elf}

/-- One string of the environment: `none` where there is no `=`, or nothing before it. -/
def splitEnv (s : CString) : Option (CString × CString) :=
  match fromSign s with
  | [] => none
  | _ :: val => if s.head? = some '=' then none else some (s.takeWhile (· ≠ '='), val)

def CopyEnv : Option (List CString) → Option (List (CString × CString))
  | none => some []
  | some envp => envp.mapM splitEnv

/-- `argv[0]` is ignored. -/
def CopyArgs : Option (List CString) → List CString
  | none => []
  | some argv => argv.tail

def malloc (s : State D) : State D × Nat :=
  ({ s with buffers := s.nextBuffer :: s.buffers, nextBuffer := s.nextBuffer + 1 }, s.nextBuffer)

/-- A buffer that is entered in `allocated`. -/
def allocate (p : State D × Temp) : State D × Temp :=
  let (s, buffer) := malloc p.1
  (s, { p.2 with allocated := p.2.allocated ++ [buffer] })

/-- The array, the string for `argv[0]`, and one string for each of the others. -/
def SetArgv (args : List CString) (p : State D × Temp) : State D × Temp :=
  let p := allocate p
  let progname := p.1.nextBuffer
  let (s, temp) := args.foldl (fun p _ => allocate p) (allocate p)
  (s, { temp with originalProgname := progname })

def SetEnvp (envs : List (CString × CString)) (p : State D × Temp) : State D × Temp :=
  let envp := p.1.nextBuffer
  let (s, temp) := envs.foldl (fun p _ => allocate p) (allocate p)
  (s, { temp with originalEnvp := envp })

/-- A stream that cannot be opened is a null pointer. -/
def dce_fdopen (host : Host elf) (fd : Nat) (s : State D) : State D :=
  if host.fopen fd then
    { s with
      streams := s.nextStream :: s.streams
      nextStream := s.nextStream + 1
      process := { s.process with openStreams := s.process.openStreams ++ [s.nextStream] } }
  else s

/-- The variables are in the module `library`. What is written to them is part of the setup. -/
def dce_global_variables_setup (host : Host elf) (library : Nat) (s : State D) : State D :=
  match s.process.pstdin with
  -- "protect against multiple calls to this function"
  | some _ => s
  | none =>
    let s := { s with
      process := { s.process with
        pstdin := some library, pstdout := some library, pstderr := some library, penvp := some library } }
    let s := dce_fdopen host 2 (dce_fdopen host 1 (dce_fdopen host 0 s))
    { s with
      process := { s.process with
        poptarg := some library, poptind := some library, popterr := some library, poptopt := some library } }

/-- `libc_setup`, `libpthread_setup` and so on. -/
def setupLibrary (host : Host elf) (file : String) (library : Nat) (s : State D) : State D :=
  dce_global_variables_setup host library
    { s with system := (host.setup file).foldl (fun system p => write p.1 p.2 system) s.system }

def libraries : List String := ["libc-ns3.so", "libpthread-ns3.so", "librt-ns3.so", "libm-ns3.so", "libdl-ns3.so"]

/-- The part of `LoadMain` before the program: `false` where a library cannot be loaded. -/
def loadLibraries (host : Host elf) (loader : Nat) : List String → State D → State D × Bool
  | [], s => (s, true)
  | file :: rest, s =>
    match Load elf loader file s.system with
    | (system, none) => ({ s with system := system }, false)
    | (system, some library) =>
        loadLibraries host loader rest (setupLibrary host file library { s with system := system })

def LoadMain (host : Host elf) (loader : Nat) (filename : CString) (s : State D) : State D × Except Errno Nat :=
  match loadLibraries host loader libraries s with
  | (s, false) => (s, .error .ENOMEM)
  | (s, true) =>
    match Load elf loader (String.ofList filename) s.system with
    | (system, none) => ({ s with system := system }, .error .EACCES)
    | (system, some handle) =>
        ({ s with system := system }, if host.main handle then .ok handle else .error .ENOEXEC)

/-- `openStreams`, the pointers to the variables and the name are put aside. -/
def putAside (temp : Temp) (s : State D) : State D :=
  { s with
    process := { s.process with
      openStreams := [], pstdin := none, pstdout := none, pstderr := none, penvp := none,
      originalProgname := temp.originalProgname } }

def putBack (before : Process) (s : State D) : State D :=
  { s with
    process := { s.process with
      pstdin := before.pstdin, pstdout := before.pstdout, pstderr := before.pstderr, penvp := before.penvp,
      openStreams := before.openStreams, originalProgname := before.originalProgname } }

/-- The destructor unloads all modules. -/
def deleteLoader (elf : Elf D) (loader : Nat) (s : State D) : State D :=
  { s with system := UnloadAll elf loader s.system }

def freeAll (allocated : List Nat) (s : State D) : State D :=
  { s with buffers := allocated.reverse.foldl (fun buffers buffer => buffers.erase buffer) s.buffers }

/-- Either `-1` is returned, or the program is loaded and the process is made anew for it. -/
inductive Outcome (D : Type*)
  | failed (s : State D)
  | loaded (s : State D) (temp : Temp)

/-- From the creation of the loader on. -/
def execFile (host : Host elf) (filename : CString) (temp : Temp) (s : State D) : Outcome D :=
  let loader := s.nextLoader
  let created : State D := { s with system := s.system.put loader [], nextLoader := loader + 1 }
  match LoadMain host loader filename (putAside temp created) with
  | (t, .error e) =>
      .failed { freeAll temp.allocated (deleteLoader elf loader (putBack s.process t)) with err := some e }
  | (t, .ok handle) => .loaded t { temp with loader := loader, mainHandle := some handle }

def Execve (host : Host elf) (path argv0 : CString) (argv envp : Option (List CString)) (s : State D) : Outcome D :=
  match CopyEnv envp with
  | none => .failed { s with err := some .EINVAL }
  | some envs =>
    match host.CheckShellScript path with
    | some (shell, opt) =>
      let args := (if opt = [] then [] else [opt]) ++ argv0 :: CopyArgs argv
      let p := SetArgv args (s, ⟨[], 0, 0, 0, none⟩)
      match host.SearchExecFile shell with
      | .error e => .failed { p.1 with err := some e }
      | .ok filename =>
        let (s, temp) := SetEnvp envs p
        execFile host filename temp s
    | none =>
      let (s, temp) := SetEnvp envs (SetArgv (CopyArgs argv) (s, ⟨[], 0, 0, 0, none⟩))
      execFile host path temp s

end Dce.Execution

/- What is left of an attempt to execute a program that has failed. -/

namespace Dce.Execution

open Counted List Option
open Dce.Env (CString)
open Dce.Loader

variable {D : Type*} {elf : Elf D} {host : Host elf} {s s' t : State D} {system : System D} {loader new id b : Nat}
    {g : Globals D}
  {temp : Temp} {p : State D × Temp}

/-- What is in the data section of a module. -/
def dataOf (id : Nat) (system : System D) : Option D := (sectionOf id system).map Section.data_buffer

/-- The attempt has changed nothing: the process is what it was, it reads in its modules what it read before, what it
writes there is there again when it has been switched away from and back, and nothing that was taken is kept. -/
structure Unchanged (s s' : State D) : Prop where
  process : s'.process = s.process
  reads : ∀ id ∈ ids (modulesOf s.process.loader s.system), dataOf id s'.system = dataOf id s.system
  writes : ∀ id ∈ ids (modulesOf s.process.loader s.system), ∀ data other,
    dataOf id (NotifyStartExecute s.process.loader (NotifyStartExecute other (write id data s'.system))) = some data
  buffers : s'.buffers.Perm s.buffers
  streams : s'.streams.Perm s.streams
  references : ∀ id, count id s'.system.modules = count id s.system.modules
  opened : s'.system.handles.Perm s.system.handles

/-- A process that executes: it has been started by `LoadMain`, or comes from one that has, and all its modules have
their variables in the data sections. -/
structure Started (elf : Elf D) (s : State D) : Prop where
  shared : Shared elf (holders s.system) [] s.system
  placed : Placed elf s.system
  present : s.process.loader ∈ s.system.m_modules
  libc : ∀ id ∈ elf.gather "libc-ns3.so", id ∈ ids (modulesOf s.process.loader s.system)
  executes : ∀ id b, buffer s.process.loader id s.system = some b → ∃ v, sectionOf id s.system = some v ∧
    v.current_buffer = some b
  fresh : s.nextLoader ∉ s.system.m_modules

/-- What the processes have is what they have been seen to write. -/
def seen (loader : Nat) (blank : D) (system : System D) : Globals D where
  executing := some loader
  owner id := if id ∈ ids (modulesOf loader system) then some loader else none
  view other id := (buffer other id system).elim blank fun b => contents id b system

theorem Started.seen (started : Started elf s) (blank : D) :
    Private elf s.system (seen s.process.loader blank s.system) := by
  have owners : ∀ other id, (Execution.seen s.process.loader blank s.system).owner id = some other →
    other = s.process.loader := fun other id owner => by
    obtain ⟨-, same⟩ := ite_none_right_eq_some.mp owner
    exact (some.inj same).symm
  refine ⟨started.placed, fun other id b held => ?_, fun other id b owner held => ?_, fun other id owner => ?_⟩
  · simp [Execution.seen, held]
  · obtain rfl := owners other id owner
    exact started.executes id b held
  · exact owners other id owner ▸ started.present

theorem dataOf_of_reads (priv : Private elf system g) (owner : g.owner id = some loader)
    (held : buffer loader id system = some b) :
    dataOf id system = some (g.view loader id) := by
  obtain ⟨v, found, same⟩ := priv.reads owner held
  rw [dataOf, found, map_some, same]

theorem dataOf_again (shared : Shared elf (holders system) [] system) (priv : Private elf system g) (other : Nat)
    (held : buffer loader id system = some b) :
    dataOf id (NotifyStartExecute loader (NotifyStartExecute other system)) = some (g.view loader id) := by
  obtain ⟨shared', priv'⟩ := priv.start other shared
  obtain ⟨-, priv''⟩ := priv'.start loader shared'
  have first : buffer loader id (NotifyStartExecute other system) = some b := buffer_switchAll.trans held
  have second : buffer loader id (NotifyStartExecute loader (NotifyStartExecute other system)) = some b :=
    buffer_switchAll.trans first
  have owner : ((g.start other (ids (modulesOf other system))).start loader
    (ids (modulesOf loader (NotifyStartExecute other system)))).owner id =
      some loader := if_pos (mem_ids_of_buffer first)
  have reads := dataOf_of_reads priv'' owner second
  exact reads

theorem dataOf_written {data : D} (shared : Shared elf (holders system) [] system) (priv : Private elf system g)
    (owner : g.owner id = some loader) (other : Nat) (held : buffer loader id system = some b) :
    dataOf id (NotifyStartExecute loader (NotifyStartExecute other (write id data system))) = some data := by
  have reads := dataOf_again shared.write (priv.write data owner held) other held
  have view : Function.update g.view loader (Function.update (g.view loader) id data) loader id = data := by
    rw [Function.update_self, Function.update_self]
  exact reads.trans (congrArg some view)

/-- In every run of the loaders, a process that has the libc and is switched to can go on from there. -/
theorem Started.of_reach {blank : D} {q : System D × Globals D} (reach : (observed elf blank).ReachBy Owning q)
    (switched : s.system = NotifyStartExecute s.process.loader q.1) (present : s.process.loader ∈ s.system.m_modules)
    (libc : ∀ id ∈ elf.gather "libc-ns3.so", id ∈ ids (modulesOf s.process.loader s.system))
    (fresh : s.nextLoader ∉ s.system.m_modules) :
    Started elf s := by
  obtain ⟨shared, priv⟩ := private_reach reach
  obtain ⟨shared', priv'⟩ := priv.start s.process.loader shared
  rw [← switched] at shared' priv'
  refine ⟨shared', priv'.placed, present, libc, fun id b held =>
    priv'.owned s.process.loader id b (if_pos ?_) held, fresh⟩
  rw [switched] at held
  exact mem_ids_of_buffer (buffer_switchAll.symm.trans held)

section

theorem perm_foldl_erase {given live rest : List Nat} (perm : live.Perm (given ++ rest)) :
    (given.foldl (fun live buffer => live.erase buffer) live).Perm rest := by
  induction given generalizing live with
  | nil => exact perm
  | cons b given ih =>
    refine ih ((perm.erase b).trans ?_)
    rw [cons_append, erase_cons_head]

/-- All that has been allocated for `pTemp` is entered there, and beside the buffers nothing changes. -/
structure Allocates (start : List Nat) (s : State D) (p : State D × Temp) : Prop where
  buffers : p.1.buffers.Perm (p.2.allocated ++ start)
  rest : p.1 = { s with buffers := p.1.buffers, nextBuffer := p.1.nextBuffer }

variable {start : List Nat}

section

variable (before : Allocates start s p)
include before

theorem Allocates.allocate : Allocates start s (allocate p) where
  buffers := by
    have pushed : (p.1.nextBuffer :: p.1.buffers).Perm (p.1.nextBuffer :: (p.2.allocated ++ start)) :=
      before.buffers.cons _
    have moved : (p.1.nextBuffer :: (p.2.allocated ++ start)).Perm (p.2.allocated ++ [p.1.nextBuffer] ++ start) := by
      rw [append_assoc]
      exact perm_middle.symm
    exact pushed.trans moved
  rest := by
    have same := before.rest
    show ({ p.1 with buffers := _, nextBuffer := _ } : State D) = _
    rw [same]
    rfl

theorem Allocates.foldl {α : Type*} {l : List α} :
    Allocates start s (l.foldl (fun p _ => Execution.allocate p) p) := by
  induction l generalizing p with
  | nil => exact before
  | cons _ l ih => exact ih before.allocate

theorem Allocates.argv {args : List CString} : Allocates start s (SetArgv args p) := by
  have after := before.allocate.allocate.foldl (l := args)
  exact ⟨after.buffers, after.rest⟩

theorem Allocates.envp {envs : List (CString × CString)} : Allocates start s (SetEnvp envs p) := by
  have after := before.allocate.foldl (l := envs)
  exact ⟨after.buffers, after.rest⟩

end

theorem length_foldl_allocate {α : Type*} {l : List α} :
    (l.foldl (fun p _ => allocate p) p).1.buffers.length = p.1.buffers.length + l.length := by
  induction l generalizing p with
  | nil => rfl
  | cons _ l ih =>
    rw [foldl_cons, ih]
    show p.1.buffers.length + 1 + l.length = _
    rw [length_cons]
    omega

theorem length_argv (args : List CString) (p : State D × Temp) :
    (SetArgv args p).1.buffers.length = p.1.buffers.length + 2 + args.length :=
  length_foldl_allocate (p := allocate (allocate p)) (l := args)

end

section

/-- While the program is loaded for the new loader, the loader has all its modules in their data sections, and the
other loaders are left alone. `system` is what there was before. -/
structure Brings (elf : Elf D) (new : Nat) (libc : List Nat) (system t : System D) : Prop where
  exists_private : ∃ g, Private elf t g ∧ ∀ id ∈ ids (modulesOf new t), g.owner id = some new
  shared : Shared elf (holders t) [] t
  here : new ∈ t.m_modules
  others : ∀ other, other ≠ new → t.m_modules.lookup other = system.m_modules.lookup other
  libc : ∀ id ∈ libc, id ∈ ids (modulesOf new t)

variable {libc : List Nat} {u : System D}

theorem Brings.load (file : String) (brings : Brings elf new libc system u) :
    Brings elf new libc system (Load elf new file u).1 ∧
    ∀ id ∈ elf.gather file, id ∈ ids (modulesOf new (Load elf new file u).1) := by
  obtain ⟨⟨g, priv, owner⟩, shared, here, others, libc⟩ := brings
  obtain ⟨shared', priv'⟩ := priv.load file here shared
  obtain ⟨here', others', all⟩ := Load_spec file here shared
  refine ⟨⟨⟨_, priv', fun id inside => ?_⟩, shared', here', fun other apart =>
    (others' other apart).trans (others other apart),
    fun id inside => all id (.inl (libc id inside))⟩, fun id inside => all id (.inr inside)⟩
  by_cases fresh : id ∈ brought new u (Load elf new file u).1
  · exact if_pos fresh
  · have old : id ∈ ids (modulesOf new u) := by
      by_contra outside
      exact fresh (mem_brought.mpr ⟨inside, outside⟩)
    exact (if_neg fresh).trans (owner id old)

theorem Brings.setup {writes : List (Nat × D)} (brings : Brings elf new libc system u)
    (confined : ∀ p ∈ writes, p.1 ∈ ids (modulesOf new u)) :
    Brings elf new libc system (writes.foldl (fun t p => write p.1 p.2 t) u) := by
  induction writes generalizing u with
  | nil => exact brings
  | cons p writes ih =>
    obtain ⟨⟨g, priv, owner⟩, shared, here, others, libc⟩ := brings
    have inside := confined p mem_cons_self
    obtain ⟨b, held⟩ := buffer_of_mem_ids inside
    exact ih ⟨⟨_, priv.write p.2 (owner p.1 inside) held, owner⟩, shared.write, here, others, libc⟩
      fun q later => confined q (mem_cons_of_mem _ later)

theorem dce_fdopen_system {fd : Nat} : (dce_fdopen host fd s).system = s.system := by
  rw [dce_fdopen]
  split <;> rfl

theorem setup_system {library : Nat} : (dce_global_variables_setup host library s).system = s.system := by
  rw [dce_global_variables_setup]
  split
  · rfl
  · rw [dce_fdopen_system, dce_fdopen_system, dce_fdopen_system]

theorem Brings.library {file : String} {library : Nat} (brings : Brings elf new libc system u)
    (all : ∀ id ∈ elf.gather file, id ∈ ids (modulesOf new u)) :
    Brings elf new libc system (setupLibrary host file library { s with system := u }).system := by
  rw [setupLibrary, setup_system]
  exact brings.setup fun p inside => all p.1 (host.confined file p inside)

theorem Brings.loadAll {files : List String} (brings : Brings elf new libc system s.system) :
    Brings elf new libc system (loadLibraries host new files s).1.system := by
  induction files generalizing s with
  | nil => exact brings
  | cons file files ih =>
    obtain ⟨after, all⟩ := brings.load file
    rw [loadLibraries]
    cases loaded : Load elf new file s.system with
    | mk u library =>
      rw [loaded] at after all
      cases library with
      | none => exact after
      | some library => exact ih (after.library all)

theorem Load_eq_none {file : String} (missing : elf.gather file = [])
    (u : System D) : Load elf new file u = (u, none) := by
  simp [Load, LoadModule, missing]

theorem Load_snd {file : String} {u : System D} : (Load elf new file u).2 = (elf.gather file).getLast? := by
  rw [Load, LoadModule]
  cases (elf.gather file).getLast? <;> rfl

theorem Brings.main (host : Host elf) (filename : CString) (brings : Brings elf new [] system s.system) {id : Nat}
    (last : (elf.gather "libc-ns3.so").getLast? = some id) :
    Brings elf new (elf.gather "libc-ns3.so") system (LoadMain host new filename s).1.system := by
  obtain ⟨first, all⟩ := brings.load "libc-ns3.so"
  have whole : Brings elf new (elf.gather "libc-ns3.so") system (loadLibraries host new libraries s).1.system := by
    rw [libraries, loadLibraries]
    have found : (Load elf new "libc-ns3.so" s.system).2 = some id := Load_snd.trans last
    cases loaded : Load elf new "libc-ns3.so" s.system with
    | mk u library =>
      rw [loaded] at first all found
      obtain rfl : library = some id := found
      have here : Brings elf new (elf.gather "libc-ns3.so") system u :=
        ⟨first.exists_private, first.shared, first.here, first.others, all⟩
      exact (here.library all).loadAll
  rw [LoadMain]
  cases done : loadLibraries host new libraries s with
  | mk t whole' =>
    rw [done] at whole
    cases whole' with
    | false => exact whole
    | true =>
      have after := (whole.load (String.ofList filename)).1
      dsimp only
      cases loaded : Load elf new (String.ofList filename) t.system with
      | mk u handle =>
        rw [loaded] at after
        cases handle with
        | none => exact after
        | some handle => exact after

end

section

variable {filename path argv0 : CString} {argv envp : Option (List CString)}

/-- When the loader is deleted, nothing tells that the process that goes on had a module that the loader had: what
the process writes there is not saved. -/
theorem lost [Nontrivial D] {libc : List Nat} {u : System D} (brings : Brings elf new libc system u)
    (mem : id ∈ libc) (apart : loader ≠ new)
    (inside : id ∈ ids (modulesOf loader system)) :
    ∃ data, dataOf id (NotifyStartExecute loader (NotifyStartExecute loader (write id data (UnloadAll elf new u)))) ≠
    some data := by
  obtain ⟨⟨g, priv, owner⟩, shared, here, others, libc⟩ := brings
  obtain ⟨b, held⟩ := buffer_of_mem_ids (libc id mem)
  obtain ⟨v, before, now⟩ := priv.owned new id b (owner id (libc id mem)) held
  have nodup := priv.placed.nodup new
  obtain ⟨shared', priv'⟩ := priv.unloadAll here shared
  have still : modulesOf loader (UnloadAll elf new u) = modulesOf loader system := by
    rw [UnloadAll, modulesOf_put_of_ne apart, modulesOf, closeAll_frame.1, others loader apart, modulesOf]
  obtain ⟨c, theirs⟩ : ∃ c, buffer loader id (UnloadAll elf new u) = some c :=
    buffer_of_mem_ids (by rw [still]; exact inside)
  obtain ⟨v', after⟩ := shared'.hasSection theirs
  have cleared : v'.current_buffer = none := by
    have indebted : Shared elf (holders (u.put new [])) (ids (modulesOf new u) ++ []) u :=
      shared.indebted here (Perm.refl _) nodup
    obtain ⟨w, first, rfl⟩ : ∃ w, sectionOf id u = some w ∧ v' = cleared (modulesOf new u) id w :=
      indebted.sectionOf_closeAll after
    cases before.symm.trans first
    obtain ⟨m, there, rfl, rfl⟩ := exists_of_valueOf held
    exact cleared_of there now
  obtain ⟨data, other⟩ := exists_ne (g.view loader id)
  refine ⟨data, fun same => ?_⟩
  have reads := dataOf_again shared'.write (priv'.scribble data after cleared) loader theirs
  exact other (some.inj (same.symm.trans reads))

theorem execFile_missing (missing : elf.gather "libc-ns3.so" = []) : execFile host filename temp s = .failed
    { freeAll temp.allocated { s with
        system := UnloadAll elf s.nextLoader (s.system.put s.nextLoader []),
        nextLoader := s.nextLoader + 1 } with err := some .ENOMEM } := by
  have none : ∀ t : State D, LoadMain host s.nextLoader filename t = (t, .error .ENOMEM) := fun t => by
    simp only [LoadMain, libraries, loadLibraries, Load_eq_none missing]
  simp only [execFile, none]
  rfl

theorem Allocates.missing (started : Started elf s) (before : Allocates s.buffers s (t, temp))
    (missing : elf.gather "libc-ns3.so" = [])
    (failed : execFile host filename temp t = .failed s') : Unchanged s s' := by
  have same : t = { s with buffers := t.buffers, nextBuffer := t.nextBuffer } := before.rest
  have perm : t.buffers.Perm (temp.allocated.reverse ++ s.buffers) :=
    before.buffers.trans ((reverse_perm temp.allocated).symm.append_right s.buffers)
  rw [execFile_missing missing] at failed
  obtain rfl := Outcome.failed.inj failed
  have systems : t.system = s.system := by rw [same]
  have loaders : t.nextLoader = s.nextLoader := by rw [same]
  have apart : s.process.loader ≠ s.nextLoader := fun same => started.fresh (same ▸ started.present)
  let u := UnloadAll elf s.nextLoader (s.system.put s.nextLoader [])
  have unloaded : u = (s.system.put s.nextLoader []).put s.nextLoader [] := by
    simp [u, UnloadAll, modulesOf_put]
  have sections : ∀ id, sectionOf id u = sectionOf id s.system := fun id => by rw [unloaded]; rfl
  have buffers : ∀ id, buffer s.process.loader id u = buffer s.process.loader id s.system := fun id => by
    rw [unloaded, buffer_put_of_ne apart, buffer_put_of_ne apart]
  refine ⟨?_, fun id inside => ?_, fun id inside data other => ?_, perm_foldl_erase perm, ?_, fun id => ?_, ?_⟩
  · show t.process = s.process
    rw [same]
  · show dataOf id (UnloadAll elf t.nextLoader (t.system.put t.nextLoader [])) = _
    rw [systems, loaders, dataOf, sections, dataOf]
  · show dataOf id (NotifyStartExecute s.process.loader (NotifyStartExecute other
      (write id data (UnloadAll elf t.nextLoader (t.system.put t.nextLoader []))))) = some data
    rw [systems, loaders]
    obtain ⟨b, held⟩ := buffer_of_mem_ids inside
    have shared := started.shared.create started.fresh
    have priv := (started.seen data).create started.fresh
    obtain ⟨shared', priv'⟩ := priv.unloadAll ((AList.mem_insert _).mpr (.inl rfl)) shared
    have theirs : buffer s.process.loader id u = some b := (buffers id).trans held
    have owner : (Execution.seen s.process.loader data s.system).owner id = some s.process.loader := if_pos inside
    exact dataOf_written shared' priv' owner other theirs
  · show t.streams.Perm s.streams
    rw [same]
  · rw [systems, loaders, show UnloadAll elf s.nextLoader (s.system.put s.nextLoader []) = u from rfl, unloaded]
    rfl
  · rw [systems, loaders, show UnloadAll elf s.nextLoader (s.system.put s.nextLoader []) = u from rfl, unloaded]
    exact Perm.refl _

theorem Allocates.lost [Nontrivial D] (started : Started elf s) (before : Allocates s.buffers s (t, temp)) {id : Nat}
    (last : (elf.gather "libc-ns3.so").getLast? = some id) (failed : execFile host filename temp t = .failed s') :
    ¬ Unchanged s s' := by
  intro unchanged
  have same : t = { s with buffers := t.buffers, nextBuffer := t.nextBuffer } := before.rest
  have systems : t.system = s.system := by rw [same]
  have loaders : t.nextLoader = s.nextLoader := by rw [same]
  have apart : s.process.loader ≠ t.nextLoader := fun wrong => started.fresh (loaders ▸ wrong ▸ started.present)
  have absent : t.nextLoader ∉ t.system.m_modules := by
    rw [systems, loaders]
    exact started.fresh
  let created : State D := { t with system := t.system.put t.nextLoader [], nextLoader := t.nextLoader + 1 }
  have shared : Shared elf (holders t.system) [] t.system := systems ▸ started.shared
  have first : Brings elf t.nextLoader [] t.system (putAside temp created).system := by
    obtain ⟨blank, -⟩ := exists_pair_ne D
    have priv : Private elf t.system (Execution.seen s.process.loader blank s.system) := systems ▸ started.seen blank
    refine ⟨⟨_, priv.create absent, fun k inside => ?_⟩, shared.create absent, (AList.mem_insert _).mpr (.inl rfl),
      fun other apart => AList.lookup_insert_ne apart, fun _ inside => absurd inside not_mem_nil⟩
    have none : modulesOf t.nextLoader (putAside temp created).system = [] := modulesOf_put
    rw [none] at inside
    exact absurd inside not_mem_nil
  have brings := Brings.main host filename first last
  have mem : id ∈ elf.gather "libc-ns3.so" := mem_of_getLast? last
  have inside : id ∈ ids (modulesOf s.process.loader t.system) := systems ▸ started.libc id mem
  obtain ⟨data, wrong⟩ := Execution.lost brings mem apart inside
  refine wrong ?_
  have writes := unchanged.writes id (started.libc id mem) data s.process.loader
  have after : s'.system = UnloadAll elf t.nextLoader
      (LoadMain host t.nextLoader filename (putAside temp created)).1.system := by
    rw [execFile] at failed
    cases done : LoadMain host t.nextLoader filename (putAside temp created) with
    | mk u result =>
      simp only [created] at done
      simp only [done] at failed
      cases result with
      | error e =>
        obtain rfl := Outcome.failed.inj failed
        rfl
      | ok handle => cases failed
  rwa [after] at writes

theorem execFile_unchanged_iff [Nontrivial D] (started : Started elf s) (before : Allocates s.buffers s (t, temp))
    (failed : execFile host filename temp t = .failed s') : Unchanged s s' ↔ elf.gather "libc-ns3.so" = [] := by
  refine ⟨fun unchanged => ?_, fun missing => before.missing started missing failed⟩
  by_contra some
  obtain ⟨id, last⟩ : ∃ id, (elf.gather "libc-ns3.so").getLast? = .some id :=
    isSome_iff_exists.mp (getLast?_isSome.mpr some)
  exact before.lost started last failed unchanged

/-- The interpreter of a script is there. -/
def Interpretable (host : Host elf) (path : CString) : Prop :=
  ∀ shell opt, host.CheckShellScript path = some (shell, opt) → ∃ filename, host.SearchExecFile shell = .ok filename

/-- A failed call has changed nothing if and only if it failed for the environment, or had an interpreter where it
needed one and could not load the libc. -/
theorem unchanged_iff [Nontrivial D] (started : Started elf s)
    (failed : Execve host path argv0 argv envp s = .failed s') :
    Unchanged s s' ↔ CopyEnv envp = none ∨ Interpretable host path ∧ elf.gather "libc-ns3.so" = [] := by
  have start : Allocates s.buffers s (s, ⟨[], 0, 0, 0, none⟩) := ⟨Perm.refl _, rfl⟩
  rw [Execve] at failed
  cases copied : CopyEnv envp with
  | none =>
    simp only [copied] at failed
    obtain rfl := Outcome.failed.inj failed
    refine iff_of_true ⟨rfl, fun _ _ => rfl, fun id inside data other => ?_, Perm.refl _, Perm.refl _, fun _ => rfl,
      Perm.refl _⟩ (.inl rfl)
    obtain ⟨b, held⟩ := buffer_of_mem_ids inside
    exact dataOf_written started.shared (started.seen data) (if_pos inside) other held
  | some envs =>
    simp only [copied] at failed
    cases script : host.CheckShellScript path with
    | none =>
      simp only [script] at failed
      have free : Interpretable host path := fun shell opt wrong => by rw [script] at wrong; cases wrong
      rw [execFile_unchanged_iff started start.argv.envp failed]
      exact ⟨fun missing => .inr ⟨free, missing⟩, fun either => (either.resolve_left fun wrong => by cases wrong).2⟩
    | some line =>
      obtain ⟨shell, opt⟩ := line
      simp only [script] at failed
      cases found : host.SearchExecFile shell with
      | ok filename =>
        simp only [found] at failed
        have free : Interpretable host path := fun shell' opt' same => by
          rw [script] at same
          cases same
          exact ⟨filename, found⟩
        rw [execFile_unchanged_iff started start.argv.envp failed]
        exact ⟨fun missing => .inr ⟨free, missing⟩, fun either =>
          (either.resolve_left fun wrong => by cases wrong).2⟩
      | error e =>
        simp only [found] at failed
        obtain rfl := Outcome.failed.inj failed
        refine iff_of_false (fun unchanged => ?_) fun either => ?_
        · have same := unchanged.buffers.length_eq
          have more :=
            length_argv ((if opt = [] then [] else [opt]) ++ argv0 :: CopyArgs argv) (s, ⟨[], 0, 0, 0, none⟩)
          simp only at same more
          omega
        · rcases either with wrong | ⟨free, -⟩
          · cases wrong
          · obtain ⟨filename, there⟩ := free shell opt script
            rw [found] at there
            cases there

/-- The libraries, and one that is taken for a program. -/
def installed : Elf Nat where
  gather file := if file ∈ libraries then [libraries.idxOf file] else if file = "libz.so" then [5] else []
  deps _ := []
  data _ := 0
  rank _ := 0
  acyclic _ _ member := by cases member
  ordered _ _ _ _ _ _ member := by cases member
  needed file id member := by
    refine Or.inl ?_
    split at member
    next here => rw [if_pos here, List.mem_singleton.mp member, List.getLast?_singleton]
    next other =>
      split at member
      next here => rw [if_neg other, if_pos here, List.mem_singleton.mp member, List.getLast?_singleton]
      next => cases member

def outside : Host installed where
  CheckShellScript _ := none
  SearchExecFile _ := .error .ENOENT
  fopen _ := true
  main _ := false
  setup _ := []
  confined _ _ member := by cases member

/-- A process that has the libc and executes. -/
def running : State Nat where
  system := NotifyStartExecute 0 (Load installed 0 "libc-ns3.so" ((initial fun _ => 0).put 0 [])).1
  process := ⟨[], [0], [], [], [], [], 0, 0, 0, none, 0, 1, some 0, some 0, some 0, some 0, none, none,
    none, none, 0⟩
  buffers := [0, 1]
  nextBuffer := 2
  streams := []
  nextStream := 0
  nextLoader := 1
  err := none

theorem running_started : Started installed running := by
  let M := observed installed 0
  have first : M.ReachBy Owning (initial fun _ => 0, ⟨none, fun _ => none, fun _ _ => 0⟩) := .start ⟨⟨_, rfl⟩, rfl⟩
  have loaded : M.ReachBy Owning _ :=
    .next (a := .load 0 "libc-ns3.so") (.next (a := .create 0) first trivial rfl) trivial rfl
  exact .of_reach loaded rfl (by decide) (by decide) (by decide)

/-- An environment in which a string has no `=`. -/
theorem running_unchanged : ∃ s', Execve outside ['a'] ['a'] none (some [['x']]) running = .failed s' ∧
    Unchanged running s' :=
  have failed : Execve outside ['a'] ['a'] none (some [['x']]) running =
    .failed { running with err := some .EINVAL } := rfl
  ⟨_, failed, (unchanged_iff running_started failed).mpr (Or.inl rfl)⟩

/-- A library is executed, and has no `main`. What the process then writes in a variable of the libc is gone when it
is switched to again. -/
theorem not_unchanged : ¬ ∀ s s' : State Nat, Started installed s →
    Execve outside ['l', 'i', 'b', 'z', '.', 's', 'o'] ['l', 'i', 'b', 'z', '.', 's', 'o'] none none s = .failed s' →
    Unchanged s s' := by
  intro always
  have unchanged := always running _ running_started rfl
  have writes := unchanged.writes 0 (by decide) 7 0
  exact absurd writes (by decide)

end

end Dce.Execution
