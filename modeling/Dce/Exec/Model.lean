import Dce.Exec.Splitting
import Dce.Lib.UnixPath
import Mathlib.Data.List.Basic

/- The search for a file to execute, `exec-utils.cc`. -/

namespace Dce.Exec

/-- To C a string ends before its first zero. -/
def c_str (s : List Char) : List Char := s.takeWhile (· ≠ Char.ofNat 0)

/-- The states 0 to 3 of `CanonizePath`. -/
inductive State
  | start | dot | other | dotdot
  deriving DecidableEq, Repr

structure Canonizer where
  state : State
  cur : List Char
  profs : List (List Char)
  level : Int
  deriving DecidableEq, Repr

/-- `case 0: case '/':` -/
def ends (crsr : Option Char) : Bool := crsr = none ∨ crsr = some '/'

/-- A turn of the loop of `CanonizePath`, at the end of the string with `none`. It is `none` where the
function returns false. -/
def turn (ChRootProtected SlashStart : Bool) (s : Canonizer) (crsr : Option Char) : Option Canonizer :=
  match s.state with
  | .start =>
    if crsr = some '.' then some { s with state := .dot }
    else if ends crsr then some s
    else some { s with cur := s.cur ++ crsr.toList, state := .other }
  | .dot =>
    if crsr = some '.' then some { s with state := .dotdot }
    else if ends crsr then some { s with state := .start }
    else some { s with cur := s.cur ++ '.' :: crsr.toList, state := .other }
  | .other =>
    if ends crsr then some { state := .start, cur := [], profs := s.profs ++ [s.cur], level := s.level + 1 }
    else some { s with cur := s.cur ++ crsr.toList }
  | .dotdot =>
    if ends crsr then
      let level := s.level - 1
      if ChRootProtected && !SlashStart && level < 0 then none
      else some { s with
        level := level
        profs := if 0 ≤ level then s.profs.dropLast else s.profs ++ [['.', '.']]
        state := .start }
    else some { s with cur := s.cur ++ '.' :: '.' :: crsr.toList, state := .other }

/-- What `CanonizePath` writes to its result. -/
def written (SlashStart : Bool) : List (List Char) → List Char
  | [] => if SlashStart then ['/'] else ['.']
  | e :: profs => (if SlashStart then ['/'] else []) ++ e ++ profs.flatMap fun e => '/' :: e

def CanonizePath (path : List Char) (ChRootProtected : Bool) : Option (List Char) :=
  let crsr := c_str path
  let SlashStart : Bool := crsr.head? = some '/'
  ((crsr.map some ++ [none]).foldlM (turn ChRootProtected SlashStart) ⟨.start, [], [], 0⟩).map fun s : Canonizer =>
    written SlashStart s.profs

/-- What the loop of `Split` comes to. -/
def Split (input : List Char) (sep : Char) : List (List Char) := Splitting.segments sep input

theorem Split_eq (input : List Char) (sep : Char) : Splitting.Split input sep = some (Split input sep) :=
  Splitting.splitLoop_eq 0 [] (Nat.zero_le _)

structure SearchPath where
  m_basePath : List Char
  m_virtual : Bool
  m_paths : List (List Char)

/-- The paths that the checker was asked about, and the one that is returned; each with the
`m_virtual` of the `SearchPath` that made it. -/
structure Lookup where
  examined : List (Bool × List Char)
  found : Option (Bool × List Char)
  deriving DecidableEq, Repr

namespace SearchPath

def new (basepath paths : List Char) (virt : Bool) : SearchPath where
  m_basePath := basepath
  m_virtual := virt
  m_paths :=
    let prot := 0 < basepath.length
    (Split paths ':').filterMap fun i => (CanonizePath i prot).filter fun e => 0 < e.length

/-- `pp`, before it is made canonical. -/
def candidate (s : SearchPath) (p file cwd : List Char) : List Char :=
  if (c_str p).head? = some '/' then
    if s.m_virtual then
      if 0 < p.length then s.m_basePath ++ '/' :: p ++ '/' :: file
      else s.m_basePath ++ '/' :: file
    else p ++ '/' :: file
  else
    if s.m_virtual then
      if 0 < cwd.length ∧ 0 < p.length then s.m_basePath ++ '/' :: cwd ++ '/' :: p ++ '/' :: file
      else if 0 < cwd.length then s.m_basePath ++ '/' :: cwd ++ '/' :: file
      else s.m_basePath ++ '/' :: file
    else p ++ '/' :: file

/-- The loop of `SeekFile` over `m_paths`. -/
def seek (s : SearchPath) (file cwd : List Char) (checker : List Char → Bool) : List (List Char) → Lookup
  | [] => ⟨[], none⟩
  | p :: rest =>
    let pp := (CanonizePath (s.candidate p file cwd) false).getD []
    if 0 < pp.length then
      if checker pp then ⟨[(s.m_virtual, pp)], some (s.m_virtual, pp)⟩
      else
        let later := s.seek file cwd checker rest
        ⟨(s.m_virtual, pp) :: later.examined, later.found⟩
    else s.seek file cwd checker rest

def SeekFile (s : SearchPath) (file cwd : List Char) (checker : List Char → Bool) : Lookup :=
  s.seek file cwd checker s.m_paths

end SearchPath

/-- `if (res.length () > 0) return res;` -/
def Lookup.orElse (first second : Lookup) : Lookup :=
  if first.found.isSome then first else ⟨first.examined ++ second.examined, second.found⟩

def SearchAbsoluteFile (file vroot altRoots : List Char) (checker : List Char → Bool) : Lookup :=
  ((SearchPath.new vroot ['.'] true).SeekFile file [] checker).orElse
    ((SearchPath.new [] altRoots false).SeekFile file [] checker)

def SearchRelativeFile (file vroot cwd : List Char) (checker : List Char → Bool) : Lookup :=
  (SearchPath.new vroot cwd true).SeekFile file [] checker

def SearchSimpleFile (file vroot vpath cwd dcepath : List Char) (checker : List Char → Bool) : Lookup :=
  ((SearchPath.new vroot vpath true).SeekFile file cwd checker).orElse
    ((SearchPath.new [] dcepath false).SeekFile file [] checker)

/-- The search of the calls whose name ends in `p`. -/
def SearchFile (file vroot vpath dcepath cwd altRoots : List Char) (checker : List Char → Bool) : Lookup :=
  if (c_str file).head? = some '/' then SearchAbsoluteFile file vroot altRoots checker
  else if '/' ∈ file then SearchRelativeFile file vroot cwd checker
  else SearchSimpleFile file vroot vpath cwd dcepath checker

/-- The search of the other ones. -/
def SearchFileWithoutPath (file vroot cwd altRoots : List Char) (checker : List Char → Bool) : Lookup :=
  if (c_str file).head? = some '/' then SearchAbsoluteFile file vroot altRoots checker
  else SearchRelativeFile file vroot cwd checker

/-- What `SearchExecFile` asks its process, its manager and its environment for. -/
structure Environment where
  vroot : List Char
  cwd : List Char
  virtualPath : List Char
  DCE_PATH : Option (List Char)
  DCE_ROOT : Option (List Char)

/-- `vpath` is that of the process, or `none` in the calls that take none. -/
def SearchExecFile (env : Environment) (file : List Char) (vpath : Option (List Char))
    (CheckFileExe : List Char → Bool) :
    Lookup :=
  match vpath with
  | none => SearchFileWithoutPath file env.vroot env.cwd (env.DCE_ROOT.getD []) CheckFileExe
  | some vpath =>
    let vpath :=
      if vpath.length = 0 then env.virtualPath
      else if 0 < env.virtualPath.length then vpath ++ ':' :: env.virtualPath
      else vpath
    SearchFile file env.vroot vpath (env.DCE_PATH.getD []) env.cwd (env.DCE_ROOT.getD []) CheckFileExe

end Dce.Exec
