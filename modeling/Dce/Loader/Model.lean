import Dce.Lib.Machine
import Dce.Lib.RefCount
import Dce.Lib.Table

/- The loaders of the processes, which share the modules that `dlopen` has mapped: each module is there once, and the
data section of it holds the globals of one process at a time. -/

namespace Dce.Loader

/-- What the files and their dependencies are. `gather` lists the modules of a file and of all that it depends on, as
`ElfDependencies` orders them and `ElfCache` names them; the file itself comes last. -/
structure Elf (D : Type*) where
  gather : String → List Nat
  deps : Nat → List Nat
  data : Nat → D
  rank : Nat → Nat
  acyclic : ∀ id, ∀ d ∈ deps id, rank d < rank id
  ordered : ∀ file before id after, gather file = before ++ id :: after → ∀ d ∈ deps id, d ∈ before
  needed : ∀ file, ∀ id ∈ gather file, (gather file).getLast? = some id ∨ ∃ j ∈ gather file, id ∈ deps j

/-- Buffers have the numbers that `malloc` gave them. -/
structure Section (D : Type*) where
  template_buffer : D
  data_buffer : D
  current_buffer : Option Nat
  deriving Repr

abbrev SharedModule (D : Type*) := Counted Nat (Section D)

/-- The value is the number of the buffer. -/
abbrev Module := Counted Nat Nat

/-- `modules` is what `Peek ()` leads to, `handles` are the modules that `dlopen` has opened and `dlclose` has not
closed, and `m_modules` tells the modules of each loader. -/
structure System (D : Type*) where
  modules : List (SharedModule D)
  handles : List Nat
  m_modules : Table Nat (List Module)
  memory : Nat → D
  nextBuffer : Nat

variable {D : Type*}

def modulesOf (loader : Nat) (s : System D) : List Module := (s.m_modules.lookup loader).getD []

def System.put (loader : Nat) (l : List Module) (s : System D) : System D :=
  { s with m_modules := s.m_modules.insert loader l }

/-- `memcpy (current_buffer, data_buffer)` where there is a current buffer. -/
def save (shared : SharedModule D) (memory : Nat → D) : Nat → D :=
  match shared.value.current_buffer with
  | none => memory
  | some buffer => Function.update memory buffer shared.value.data_buffer

/-- The template is put into the data section, which from now on is that of a new buffer. -/
def putTemplate (buffer : Nat) (shared : SharedModule D) : SharedModule D :=
  { shared with
    refcount := shared.refcount + 1
    value := ⟨shared.value.template_buffer, shared.value.template_buffer, some buffer⟩ }

/-- `current_buffer = 0` where it is the buffer. -/
def dropCurrent (buffer : Nat) (shared : SharedModule D) : SharedModule D :=
  if shared.value.current_buffer = some buffer then
    { shared with value := { shared.value with current_buffer := none } }
  else shared

/-- What was in the buffer is put into the data section. -/
def restore (buffer : Nat) (contents : D) (shared : SharedModule D) : SharedModule D :=
  { shared with value := ⟨shared.value.template_buffer, contents, some buffer⟩ }

def setData (data : D) (shared : SharedModule D) : SharedModule D :=
  { shared with value := { shared.value with data_buffer := data } }

/-- The part of `LoadModule` that looks for the shared module. -/
def addShared (elf : Elf D) (id : Nat) (s : System D) : System D :=
  match Counted.find id s.modules with
  | some _ => s
  | none =>
    { s with
      handles := id :: s.handles
      modules := (elf.deps id).foldl (fun l d => Counted.acquire d l) s.modules ++
        [⟨id, 0, elf.deps id, ⟨elf.data id, elf.data id, none⟩⟩] }

/-- The part of `LoadModule` that makes the module of the loader. -/
def newModule (elf : Elf D) (loader id : Nat) (s : System D) : System D :=
  match Counted.find id s.modules with
  | none => s
  | some shared =>
    { s with
      modules := Counted.alter id (putTemplate s.nextBuffer) s.modules
      m_modules := s.m_modules.insert loader
        ((elf.deps id).foldl (fun l d => Counted.acquire d l) (modulesOf loader s) ++
          [⟨id, 0, elf.deps id, s.nextBuffer⟩])
      memory := save shared s.memory
      nextBuffer := s.nextBuffer + 1 }

def loadOne (elf : Elf D) (loader : Nat) (s : System D) (id : Nat) : System D :=
  let s := addShared elf id s
  match Counted.find id (modulesOf loader s) with
  | some _ => s
  | none => newModule elf loader id s

def LoadModule (elf : Elf D) (loader : Nat) (file : String) (s : System D) : System D × Option Nat :=
  ((elf.gather file).foldl (loadOne elf loader) s, (elf.gather file).getLast?)

/-- The result is the handle, which stands for the module. -/
def Load (elf : Elf D) (loader : Nat) (file : String) (s : System D) : System D × Option Nat :=
  match LoadModule elf loader file s with
  | (s, none) => (s, none)
  | (s, some id) => (s.put loader (Counted.acquire id (modulesOf loader s)), some id)

/-- `dlclose` takes the handle of each shared module that goes. -/
def UnrefSharedModule (elf : Elf D) (id : Nat) (s : System D) : System D :=
  let (modules, handles) := Counted.releaseLastWith (fun n handles => handles.erase n.id) (elf.rank id + 1) id
    (s.modules, s.handles)
  { s with modules := modules, handles := handles }

def resetCurrent (m : Module) (s : System D) : System D :=
  { s with modules := Counted.alter m.id (dropCurrent m.value) s.modules }

/-- The end of a module of a loader, in `Unload` and in `UnloadAll`. -/
def closeModule (elf : Elf D) (m : Module) (s : System D) : System D := UnrefSharedModule elf m.id (resetCurrent m s)

def Unload (elf : Elf D) (loader handle : Nat) (s : System D) : System D :=
  let (l, s) := Counted.releaseWith (closeModule elf) (elf.rank handle + 1) handle (modulesOf loader s, s)
  s.put loader l

def UnloadAll (elf : Elf D) (loader : Nat) (s : System D) : System D :=
  ((modulesOf loader s).foldl (fun s m => closeModule elf m s) s).put loader []

/-- One module of `Clone`, beside the modules that the clone has so far. -/
def cloneOne (p : List Module × System D) (m : Module) : List Module × System D :=
  match Counted.find m.id p.2.modules with
  | none => p
  | some shared =>
    (m.deps.foldl (fun l d => Counted.acquire d l) p.1 ++ [⟨m.id, m.refcount, m.deps, p.2.nextBuffer⟩], { p.2 with
        modules := Counted.acquire m.id p.2.modules
        memory := Function.update p.2.memory p.2.nextBuffer shared.value.data_buffer
        nextBuffer := p.2.nextBuffer + 1 })

def Clone (loader clone : Nat) (s : System D) : System D :=
  let (l, s) := (modulesOf loader s).foldl cloneOne ([], s)
  s.put clone l

/-- One module of `NotifyStartExecute`. -/
def switchOne (s : System D) (m : Module) : System D :=
  match Counted.find m.id s.modules with
  | none => s
  | some shared =>
    if shared.value.current_buffer = some m.value then s
    else
      { s with
        memory := save shared s.memory
        modules := Counted.alter m.id (restore m.value (save shared s.memory m.value)) s.modules }

def NotifyStartExecute (loader : Nat) (s : System D) : System D := (modulesOf loader s).foldl switchOne s

/-- The program writes: `data` is what is in the data section of the module afterwards. -/
def write (id : Nat) (data : D) (s : System D) : System D :=
  { s with modules := Counted.alter id (setData data) s.modules }

inductive Label (D : Type*)
  | create (loader : Nat)
  | load (loader : Nat) (file : String)
  | unload (loader handle : Nat)
  | unloadAll (loader : Nat)
  | clone (loader clone : Nat)
  | start (loader : Nat)
  | write (loader id : Nat) (data : D)

/-- What a call leaves, and the handle that `Load` returns. A program whose loader is `loader` writes. -/
def respond (elf : Elf D) (s : System D) : Label D → Option (System D × Option Nat)
  | .create loader => if loader ∈ s.m_modules then none else some (s.put loader [], none)
  | .load loader file => if loader ∈ s.m_modules then some (Load elf loader file s) else none
  | .unload loader handle => if loader ∈ s.m_modules then some (Unload elf loader handle s, none) else none
  | .unloadAll loader => if loader ∈ s.m_modules then some (UnloadAll elf loader s, none) else none
  | .clone loader clone =>
    if loader ∈ s.m_modules ∧ clone ∉ s.m_modules then some (Clone loader clone s, none) else none
  | .start loader => if loader ∈ s.m_modules then some (NotifyStartExecute loader s, none) else none
  | .write _ id data => some (write id data s, none)

/-- `unmapped` is what is in the memory that `malloc` has not given away. -/
def initial (unmapped : Nat → D) : System D := ⟨[], [], ∅, unmapped, 0⟩

def machine (elf : Elf D) : Machine (System D) (Label D) where
  init s := ∃ unmapped, s = initial unmapped
  step s a := (respond elf s a).map Prod.fst

/-- A program and the library that it depends on. -/
def program : Elf Nat where
  gather file := if file = "program" then [0, 1] else []
  deps id := if id = 1 then [0] else []
  data _ := 0
  rank id := id
  acyclic id d member := by
    split at member
    next here =>
      rw [List.mem_singleton.mp member, here]
      decide
    next => cases member
  ordered file before id after gathered d member := by
    split at member
    next here =>
      split at gathered
      next =>
        subst here
        rw [List.mem_singleton.mp member]
        cases before with
        | nil => simp at gathered
        | cons first before =>
          obtain ⟨rfl, -⟩ := List.cons.inj gathered
          exact List.mem_cons_self
      next => simp at gathered
    next => cases member
  needed file id member := by
    split at member
    next here =>
      rw [if_pos here]
      rcases List.mem_cons.mp member with rfl | last
      · exact Or.inr ⟨1, by simp, by simp⟩
      · exact Or.inl (by simp [List.mem_singleton.mp last])
    next => cases member

end Dce.Loader
