import Dce.Lib.Dependencies
import Mathlib.Data.Finset.Card
import Mathlib.Data.Prod.Lex

/- The libraries that a file needs and the order in which they are loaded, `elf-ldd.cc`. -/

namespace Dce.ElfLdd

open OrderedSet (insert place)

section

abbrev Path := List Char

inductive SegmentType
  | PT_LOAD | other
  deriving DecidableEq, Repr

/-- `w` is the width of an `ElfW (Addr)`. -/
structure Phdr (w : Nat) where
  p_type : SegmentType
  p_offset : BitVec w
  p_vaddr : BitVec w
  p_memsz : BitVec w
  deriving DecidableEq, Repr

inductive Tag
  | DT_NEEDED | DT_STRTAB | DT_RPATH | DT_RUNPATH | other
  deriving DecidableEq, Repr

structure Dyn (w : Nat) where
  d_tag : Tag
  d_ptr : BitVec w
  deriving DecidableEq, Repr

inductive Arch
  | ELFCLASS32 | ELFCLASS64
  deriving DecidableEq, Repr

/-- `dynamics` has the entries before the `DT_NULL` of each section of type `SHT_DYNAMIC`, and `text` reads the
string at an offset. -/
structure ElfFile (w : Nat) where
  arch : Option Arch
  programTable : List (Phdr w)
  dynamics : List (List (Dyn w))
  text : BitVec w → Path

/-- The host: its environment, its directories and what can be read of its files. -/
structure Host (w : Nat) where
  LD_LIBRARY_PATH : Option Path
  opendir : Path → Bool
  stat : Path → Bool
  file : Path → Option (ElfFile w)

variable {w : Nat}

/-- The loop of `vaddr_2_foffset` over the rest of the program table. -/
def vaddr_2_foffset : List (Phdr w) → BitVec w → BitVec w
  | [], vma => vma
  | pr :: rest, vma => if pr.p_type = .PT_LOAD ∧ pr.p_vaddr ≤ vma then vma - pr.p_vaddr + pr.p_offset
      else vaddr_2_foffset rest vma

end

section

variable {w : Nat} (host : Host w)

/-- A short name with the file that is found for it. -/
abbrev Entry := Path × Path

def before (a b : Path) : Bool := decide (a < b)

/-- The order of a `pair <string, string>` -/
def beforePair (a b : Entry) : Bool := before a.1 b.1 || (!before b.1 a.1 && before a.2 b.2)

/-- `m_libs` and `m_path` before `SearchLibs` -/
structure Extracted where
  arch : Option Arch
  m_libs : List Path
  m_path : List Path
  deriving DecidableEq, Repr

def slashed (res : Path) : Path := if res.getLast? = some '/' then res else res ++ ['/']

def addPath (p : Path) (l : Extracted) : Extracted :=
  { l with m_path := l.m_path ++ (((p.splitOn ':').filter (· ≠ [])).map slashed).filter host.opendir }

def addLibrary (name : Path) (l : Extracted) : Extracted := { l with m_libs := insert before name l.m_libs }

/-- The second loop over the entries of a section. -/
def readEntry (elf : ElfFile w) (dt_strtab : BitVec w) (l : Extracted) (d : Dyn w) : Extracted :=
  match d.d_tag with
  | .DT_NEEDED => addLibrary (elf.text (dt_strtab + d.d_ptr)) l
  | .DT_RPATH | .DT_RUNPATH => addPath host (elf.text (dt_strtab + d.d_ptr)) l
  | _ => l

/-- Both loops over the entries of a section. -/
def readSection (elf : ElfFile w) (l : Extracted) (dynamics : List (Dyn w)) : Extracted :=
  let dt_strtab := match dynamics.find? fun d => d.d_tag = .DT_STRTAB with
    | some d => vaddr_2_foffset elf.programTable d.d_ptr
    | none => 0
  dynamics.foldl (readEntry host elf dt_strtab) l

def extractLibraries (fullPath : Path) : Option Extracted :=
  (host.file fullPath).map fun elf => elf.dynamics.foldl (readSection host elf) ⟨elf.arch, [], []⟩

def path32 : Path := "/lib/:/usr/lib/:/lib/i386-linux-gnu/:/usr/lib/i386-linux-gnu/".toList

def path64 : Path := "/lib64/:/usr/lib64/:/lib/x86_64-linux-gnu/:/usr/lib/x86_64-linux-gnu/:/lib/:/usr/lib/".toList

/-- The paths that `Loop` adds to those of the file. -/
def addPaths (l : Extracted) : Extracted :=
  let l := match host.LD_LIBRARY_PATH with
    | some p => addPath host p l
    | none => l
  match l.arch with
  | some .ELFCLASS32 => addPath host path32 l
  | some .ELFCLASS64 => addPath host path64 l
  | none => l

/-- `SearchLibs`, which finds all of them or fails. -/
def searchLibs (l : Extracted) : Option (List Entry) :=
  l.m_libs.mapM fun name => ((l.m_path.map (· ++ name)).find? host.stat).map (name, ·)

/-- The `m_libs` of the file, where it can be read and all of them are found. -/
def libsOf (fullPath : Path) : Option (List Entry) :=
  (extractLibraries host fullPath).bind fun l => searchLibs host (addPaths host l)

end

structure SharedLibrary where
  m_fullName : Path
  m_sName : Path
  m_libs : List Entry
  deriving DecidableEq, Repr

/-- `mapScanned`, in the order of its keys. -/
abbrev Scanned := List (Path × SharedLibrary)

def Scanned.find (m : Scanned) (p : Path) : Option SharedLibrary := m.lookup p

/-- `m_depth`, without its -1. -/
abbrev Depths := Path → Option Nat

/-- The loop of `CalcDepth` over the libraries, with `calc` as `deepest`. There is no result where a null pointer is
used. -/
def calcLoop (deeper : Path → Depths → Option (Bool × Depths)) : List Entry → Nat → Depths →
    Option (Option Nat × Depths)
  | [], deepest, depth => some (some deepest, depth)
  | i :: libs, deepest, depth =>
    match deeper i.2 depth with
    | none => none
    | some (false, depth) => some (none, depth)
    | some (true, depth) => calcLoop deeper libs (max deepest ((depth i.2).getD 0 + 1)) depth

/-- `CalcDepth (max, mapScanned)` of what `mapScanned` has for `p`; the first argument is `max + 1`. -/
def calcDepth (mapScanned : Scanned) : Nat → Path → Depths → Option (Bool × Depths)
  | fuel, p, depth =>
    match mapScanned.find p with
    | none => none
    | some l =>
      if (depth p).isSome then some (true, depth)
      else
        match fuel with
        | 0 => some (false, depth)
        | fuel + 1 =>
          match calcLoop (calcDepth mapScanned fuel) l.m_libs 0 depth with
          | none => none
          | some (none, depth) => some (false, depth)
          | some (some deepest, depth) => some (true, Function.update depth p (some deepest))

section

structure Scan where
  todo : List Entry
  done : List Path
  mapScanned : Scanned
  deriving DecidableEq, Repr

/-- `mapScanned [p] = l` -/
def assign (p : Path) (l : SharedLibrary) (m : Scanned) : Scanned :=
  if (m.lookup p).isSome then m.map fun x => if x.1 = p then (p, l) else x
  else place (fun a b => before a.1 b.1) (p, l) m

def addTodo (done : List Path) (todo : List Entry) (i : Entry) : List Entry :=
  if i.2 ∈ done then todo else insert beforePair i todo

/-- How far the loop is from its end: what is still to be scanned, what will be scanned again, what waits. -/
def distance (reached : Finset Path) (s : Scan) : Nat ×ₗ Nat ×ₗ Nat :=
  toLex ((reached \ s.done.toFinset).card, toLex (s.todo.countP fun j => decide (j.2 ∈ s.done), s.todo.length))

variable {w : Nat} (host : Host w)

/-- A turn of the first loop of `Loop`. -/
def turn (name : Entry) (todo : List Entry) (s : Scan) : Scan :=
  match libsOf host name.2 with
  | none => { s with todo := todo }
  | some libs =>
    let done := insert before name.2 s.done
    ⟨libs.foldl (addTodo done) todo, done, assign name.2 ⟨name.2, name.1, libs⟩ s.mapScanned⟩

/-- The first loop of `Loop`. There is no result where it has not come to its end. -/
def scanLoop : Nat → Scan → Option Scan
  | 0, _ => none
  | fuel + 1, s =>
    match s.todo with
    | [] => some s
    | name :: todo => scanLoop fuel (turn host name todo s)

structure Dependency where
  required : Path
  found : Path
  deriving DecidableEq, Repr

/-- `missing` and `loop` leave `m_deps` empty, and say so in the log; `crashed` is the use of a null pointer. -/
inductive Outcome
  | deps (m_deps : List Dependency)
  | missing
  | loop
  | crashed
  deriving DecidableEq, Repr

/-- The libraries of a depth. -/
def tri (mapScanned : Scanned) (depth : Depths) (j : Nat) : List Dependency :=
  (mapScanned.filter fun x => depth x.1 = some j).map fun x => ⟨x.2.m_sName, x.2.m_fullName⟩

/-- The greatest depth. -/
def maxi (mapScanned : Scanned) (depth : Depths) : Nat := (mapScanned.map fun x => (depth x.1).getD 0).foldl max 0

/-- What follows the first loop. -/
def sort (f : Path) (mapScanned : Scanned) : Outcome :=
  match mapScanned.find f with
  | none => .missing
  | some _ =>
    match calcDepth mapScanned (mapScanned.length + 1) f (fun _ => none) with
    | none => .crashed
    | some (false, _) => .loop
    | some (true, depth) => .deps ((List.range (maxi mapScanned depth + 1)).flatMap (tri mapScanned depth))

def loop (fuel : Nat) (s f : Path) : Option Outcome :=
  (scanLoop host fuel ⟨[(s, f)], [], []⟩).map fun scan => sort f scan.mapScanned

end

end Dce.ElfLdd
