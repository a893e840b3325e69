import Dce.Lib.Machine
import Dce.Lib.UnixPath

/- The working directory of a process: `dce_getcwd`, `dce_chdir` and `dce_fchdir` of `dce.cc`, with the paths of
`utils.cc`. -/

namespace Dce.CurrentDirectory

open Option

inductive Errno
  | EBADF | ERANGE
  | host (errno : Nat)

abbrev Path := List Char

/-- The host: the directory that `open` with `O_DIRECTORY` finds, and the path that `readlink` gives for a descriptor
of one, which is empty where it fails. A path leads on from where its first part leads, and a slash at its end
changes nothing. -/
structure Host (D : Type*) where
  open_ : Path → Except Errno D
  PathOfFd : D → Path
  UtilsGetCurrentDirName : Path
  DCE_FILES_DIR : Option Path
  under : ∀ a b d rest, open_ a = .ok d → open_ b = .ok d → open_ (a ++ '/' :: rest) = open_ (b ++ '/' :: rest)
  slash : ∀ a d, open_ a = .ok d → open_ (a ++ ['/']) = .ok d

/-- The directory that the process has entered last is not in the source. `fault` tells that an exception has left a
call. -/
structure Process (D : Type*) where
  cwd : Path
  fault : Bool
  entered : D

/-- `getcwd` without a buffer, or with one, of some size. A descriptor is known by its directory; a bad one has
none. -/
inductive Call (D : Type*)
  | chdir (path : Path)
  | fchdir (fd : Option D)
  | getcwd (buf : Bool) (size : Nat)

section

variable {D : Type*} (h : Host D) (nodeId : Nat) (s : Process D)

/-- `UtilsGetRealFilePath` of a node. -/
def nodeDir : Path :=
  let base := match h.DCE_FILES_DIR with
    | none => []
    | some base => if base = [] then [] else if base.getLast? ≠ some '/' then base ++ ['/'] else base
  base ++ "files-".toList ++ (toString nodeId).toList

def UtilsGetVirtualFilePath (path : Path) : Path := if path.head? = some '/' then path else s.cwd ++ '/' :: path

def UtilsGetRealFilePath (path : Path) : Path := nodeDir h nodeId ++ UtilsGetVirtualFilePath s path

def dce_chdir (path : Path) : Except Errno Path × Process D :=
  match h.open_ (UtilsGetRealFilePath h nodeId s path) with
  | .error errno => (.error errno, s)
  | .ok d => (.ok [], { s with cwd := UtilsGetVirtualFilePath s path, entered := d })

/-- How much of the path of a directory is cut off. -/
def cut : Nat := (h.UtilsGetCurrentDirName ++ '/' :: UtilsGetRealFilePath h nodeId s ['/']).length - 1

/-- A string that is begun behind the end of another one is an exception. -/
def dce_fchdir : Option D → Except Errno Path × Process D
  | none => (.error .EBADF, s)
  | some d =>
    let p := h.PathOfFd d
    if p = [] then (.error .EBADF, s)
    else if p.length < cut h nodeId s then (.ok [], { s with fault := true })
    else (.ok [], { s with cwd := UtilsGetVirtualFilePath s (p.drop (cut h nodeId s)), entered := d })

/-- The size is kept in an `uint32_t`. A buffer is made where none is given. -/
def dce_getcwd (buf : Bool) (size : Nat) : Except Errno Path :=
  if (buf ∨ size ≠ 0) ∧ size < (s.cwd.length + 1) % 2 ^ 32 then .error .ERANGE else .ok s.cwd

def call : Call D → Except Errno Path × Process D
  | .chdir path => dce_chdir h nodeId s path
  | .fchdir fd => dce_fchdir h nodeId s fd
  | .getcwd buf size => (dce_getcwd s buf size, s)

/-- A process starts in the directory of its node. -/
def machine : Machine (Process D) (Call D) where
  init s := s.cwd = ['/'] ∧ s.fault = false ∧ h.open_ (nodeDir h nodeId ++ ['/']) = .ok s.entered
  step s a := if s.fault then none else some (call h nodeId s a).2

/-- The working directory is the one that was entered: a name stands for what it names there, and so does what
`getcwd` gives. -/
structure There : Prop where
  fault : s.fault = false
  absolute : s.cwd.head? = some '/'
  resolves : h.open_ (UtilsGetRealFilePath h nodeId s s.cwd) = .ok s.entered
  relative : ∀ name : Path, name.head? ≠ some '/' →
    ∃ dir, h.open_ dir = .ok s.entered ∧ UtilsGetRealFilePath h nodeId s name = dir ++ '/' :: name

/-- The path of the directory still leads to it, and what is cut off is as long as the path of the node's directory;
or, where that leaves a name, as that of the working directory and a slash; or it is all of the path of the working
directory. -/
def Cuts : Call D → Prop
  | .fchdir (some d) =>
    let p := h.PathOfFd d
    p = [] ∨ h.open_ p = .ok d ∧
      ((∃ q rest node, p = q ++ '/' :: rest ∧ q.length = cut h nodeId s ∧ h.open_ q = .ok node ∧
          h.open_ (nodeDir h nodeId) = .ok node) ∨
        (∃ q rest, p = q ++ '/' :: rest ∧ q.length + 1 = cut h nodeId s ∧ rest.head? ≠ some '/' ∧
          h.open_ q = .ok s.entered) ∨
        p.length = cut h nodeId s ∧ s.entered = d)
  | _ => True

end

variable {D : Type*} {h : Host D} {nodeId : Nat} {s t : Process D} {a : Call D} {path p : Path} {d : D}

theorem real_absolute (absolute : path.head? = some '/') :
    UtilsGetRealFilePath h nodeId s path = nodeDir h nodeId ++ path := by
  rw [UtilsGetRealFilePath, UtilsGetVirtualFilePath, if_pos absolute]

theorem virtual_absolute (absolute : s.cwd.head? = some '/') :
    (UtilsGetVirtualFilePath s path).head? = some '/' := by
  unfold UtilsGetVirtualFilePath
  split
  next slash => exact slash
  next => simp [absolute]

/-- A path that leads to a directory makes it the one that was entered. -/
theorem there_of_opens (s : Process D) (fault : s.fault = false) (absolute : s.cwd.head? = some '/')
    (found : h.open_ (UtilsGetRealFilePath h nodeId s path) = .ok d) :
    There h nodeId { s with cwd := UtilsGetVirtualFilePath s path, entered := d } where
  fault := fault
  absolute := virtual_absolute absolute
  resolves := (congrArg h.open_ (real_absolute (virtual_absolute absolute))).trans found
  relative name other :=
    ⟨_, found, by rw [UtilsGetRealFilePath, UtilsGetVirtualFilePath, if_neg other, UtilsGetRealFilePath,
      List.append_assoc]⟩

theorem There.here (there : There h nodeId s) : h.open_ (nodeDir h nodeId ++ s.cwd) = .ok s.entered :=
  @real_absolute _ h nodeId s _ there.absolute ▸ there.resolves

theorem There.fchdir (there : There h nodeId s) (cuts : Cuts h nodeId s (.fchdir (some d))) :
    There h nodeId (dce_fchdir h nodeId s (some d)).2 := by
  unfold dce_fchdir
  dsimp only
  split
  next => exact there
  next some =>
    obtain ⟨found, ways⟩ := cuts.resolve_left some
    have long : ¬ (h.PathOfFd d).length < cut h nodeId s := by
      rcases ways with ⟨q, rest, node, is, length, -⟩ | ⟨q, rest, is, length, -⟩ | ⟨length, -⟩
      · simp [is, ← length]
      · simp [is, ← length]
      · exact length.not_lt
    rw [if_neg long]
    refine there_of_opens s there.fault there.absolute ?_
    rcases ways with ⟨q, rest, node, is, length, named, root⟩ | ⟨q, rest, is, length, name, named⟩ | ⟨length, same⟩
    · rw [is, List.drop_left' length, real_absolute rfl, h.under _ _ _ _ root named, ← is]
      exact found
    · have left : (h.PathOfFd d).drop (cut h nodeId s) = rest := by
        rw [is, ← length, List.append_cons]
        exact List.drop_left' (by simp)
      rw [left, UtilsGetRealFilePath, UtilsGetVirtualFilePath, if_neg name, ← List.append_assoc,
        h.under _ _ _ _ there.here named, ← is]
      exact found
    · rw [List.drop_of_length_le length.le, UtilsGetRealFilePath, UtilsGetVirtualFilePath, if_neg nofun,
        ← List.append_assoc]
      exact same ▸ h.slash _ _ there.here

theorem There.step (there : There h nodeId s) (cuts : Cuts h nodeId s a)
    (run : (machine h nodeId).step s a = some t) :
    There h nodeId t := by
  obtain ⟨-, rfl⟩ : ¬ s.fault = true ∧ (call h nodeId s a).2 = t := by simpa [machine] using run
  cases a with
  | chdir path =>
    show There h nodeId (dce_chdir h nodeId s path).2
    unfold dce_chdir
    split
    next => exact there
    next d found => exact there_of_opens s there.fault there.absolute found
  | fchdir fd =>
    cases fd with
    | none => exact there
    | some d => exact there.fchdir cuts
  | getcwd => exact there

theorem call_fails {errno : Errno} (fails : (call h nodeId s a).1 = .error errno) : (call h nodeId s a).2 = s := by
  cases a with
  | chdir path =>
    unfold call dce_chdir at fails ⊢
    dsimp only at fails ⊢
    split at fails <;> simp_all
  | fchdir fd =>
    cases fd with
    | none => rfl
    | some d =>
      unfold call dce_fchdir at fails ⊢
      dsimp only at fails ⊢
      split at fails
      next none => rw [if_pos none]
      next => split at fails <;> cases fails
  | getcwd => rfl

/-- As long as each `fchdir` cuts at the right place the process is where it went, and what fails leaves it there. -/
theorem there_of_cuts (h : Host D) (nodeId : Nat) (s : Process D)
    (reach : (machine h nodeId).ReachBy (Cuts h nodeId) s) :
    There h nodeId s ∧ (∀ buf size path, dce_getcwd s buf size = .ok path → path = s.cwd) ∧
      ∀ a errno, (call h nodeId s a).1 = .error errno → (call h nodeId s a).2 = s := by
  refine ⟨?_, fun buf size path given => ?_, fun a errno => call_fails⟩
  · refine reach.invariant (fun s first => ?_) fun s a t there cuts run => there.step cuts run
    obtain ⟨cwd, fault, found⟩ := first
    have same : s = { s with cwd := UtilsGetVirtualFilePath s ['/'], entered := s.entered } := by
      rw [UtilsGetVirtualFilePath, if_pos (show ['/'].head? = some '/' from rfl), ← cwd]
    exact same ▸ there_of_opens s fault (by rw [cwd]; rfl) ((congrArg h.open_ (real_absolute rfl)).trans found)
  · unfold dce_getcwd at given
    split at given
    next => cases given
    next => exact (Except.ok.inj given).symm

theorem resolve_slash (here : UnixPath.Dir) (some : path ≠ []) :
    UnixPath.resolve here (path ++ ['/']) = UnixPath.resolve here path := by
  rw [UnixPath.resolve, UnixPath.parts_append, UnixPath.walk_append, List.head?_append_of_ne_nil _ some]
  rfl

/-- A host without links, on which all directories are there. Its own working directory is `/h`. -/
def plain : Host UnixPath.Dir where
  open_ path := if path = [] then .error (.host 2) else .ok (UnixPath.resolve [['h']] path)
  PathOfFd d := d.reverse.flatMap ('/' :: ·)
  UtilsGetCurrentDirName := ['/', 'h']
  DCE_FILES_DIR := none
  under a b d rest first second := by
    split at first
    next => cases first
    next left =>
      split at second
      next => cases second
      next right =>
        have same : UnixPath.resolve [['h']] a = UnixPath.resolve [['h']] b :=
          Except.ok.inj (first.trans second.symm)
        rw [if_neg (by simp), if_neg (by simp), UnixPath.resolve_append _ a, UnixPath.resolve_append _ b,
          resolve_slash _ left,
          resolve_slash _ right, same]
  slash a d found := by
    split at found
    next => cases found
    next some => rw [if_neg (by simp), resolve_slash _ some, found]

/-- In the directory `/a` of its node. -/
def inside : Process UnixPath.Dir := ⟨['/', 'a'], false, [['a'], "files-0".toList, ['h']]⟩

theorem there_of_cuts_inside : There plain 0 inside := by
  have first : (machine plain 0).ReachBy (Cuts plain 0) ⟨['/'], false, ["files-0".toList, ['h']]⟩ :=
    .start ⟨rfl, rfl, rfl⟩
  refine (there_of_cuts plain 0 inside (.next (a := .fchdir (some inside.entered)) first ?_ rfl)).1
  exact .inr ⟨rfl, .inl ⟨"/h/files-0".toList, ['a'], ["files-0".toList, ['h']], rfl, rfl, rfl, rfl⟩⟩

/-- From there, `fchdir` to the root of the node leaves it there: all of the root's path is cut off. -/
theorem not_there : ¬ ∀ s, (machine plain 0).Reach s → There plain 0 s := by
  intro all
  have first : (machine plain 0).Reach ⟨['/'], false, ["files-0".toList, ['h']]⟩ := .start ⟨rfl, rfl, rfl⟩
  have entered : (machine plain 0).Reach inside := .next (a := .chdir ['/', 'a']) first trivial rfl
  have left : (machine plain 0).Reach ⟨['/', 'a', '/'], false, ["files-0".toList, ['h']]⟩ :=
    .next (a := .fchdir (some ["files-0".toList, ['h']])) entered trivial rfl
  have wrong : plain.open_ (UtilsGetRealFilePath plain 0 ⟨['/', 'a', '/'], false, ["files-0".toList, ['h']]⟩
    ['/', 'a', '/']) =
      .ok inside.entered := rfl
  exact absurd (Except.ok.inj (wrong.symm.trans (all _ left).resolves)) (by decide)

end Dce.CurrentDirectory
