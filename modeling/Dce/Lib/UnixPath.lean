import Mathlib.Data.List.Basic

/- What paths mean where no directory is a link: a walk from the root or from where one is. -/

namespace UnixPath

open List

abbrev Part := List Char

/-- A directory by the names that lead to it, the last one first. -/
abbrev Dir := List Part

def parts (path : List Char) : List Part := path.splitOn '/'

/-- A part that leads into a directory. -/
def IsName (part : Part) : Prop := part ≠ [] ∧ part ≠ ['.'] ∧ part ≠ ['.', '.'] ∧ '/' ∉ part

/-- The root is its own parent. -/
def enter (dir : Dir) (part : Part) : Dir :=
  if part = [] ∨ part = ['.'] then dir
  else if part = ['.', '.'] then dir.tail
  else part :: dir

def walk (dir : Dir) (path : List Part) : Dir := path.foldl enter dir

/-- The directory or the file that is meant by a path. -/
def resolve (here : Dir) (path : List Char) : Dir :=
  walk (if path.head? = some '/' then [] else here) (parts path)

/-- No more is taken back than `depth` names and those that were entered since. -/
def Stays : Nat → List Part → Prop
  | _, [] => True
  | depth, part :: rest =>
    if part = [] ∨ part = ['.'] then Stays depth rest
    else if part = ['.', '.'] then 0 < depth ∧ Stays (depth - 1) rest
    else Stays (depth + 1) rest

instance decidableStays : (depth : Nat) → (path : List Part) → Decidable (Stays depth path)
  | _, [] => .isTrue trivial
  | depth, part :: rest =>
    have := decidableStays depth rest
    have := decidableStays (depth - 1) rest
    have := decidableStays (depth + 1) rest
    inferInstanceAs (Decidable (if part = [] ∨ part = ['.'] then Stays depth rest
      else if part = ['.', '.'] then 0 < depth ∧ Stays (depth - 1) rest else Stays (depth + 1) rest))

section

variable {dir : Dir} {part : Part} {path : List Part} {depth : Nat}

@[simp]
theorem walk_nil : walk dir [] = dir := rfl

@[simp]
theorem walk_cons : walk dir (part :: path) = walk (enter dir part) path := rfl

theorem walk_append (path' : List Part) : walk dir (path ++ path') = walk (walk dir path) path' := foldl_append

theorem enter_name (name : IsName part) : enter dir part = part :: dir := by
  rw [enter, if_neg (by simp [name.1, name.2.1]), if_neg name.2.2.1]

theorem enter_up : enter dir ['.', '.'] = dir.tail := rfl

theorem enter_same (same : part = [] ∨ part = ['.']) : enter dir part = dir := if_pos same

theorem parts_append (path path' : List Char) : parts (path ++ '/' :: path') = parts path ++ parts path' :=
  splitOn_append_cons_self path path'

theorem resolve_append (here : Dir) (path path' : List Char) :
    resolve here (path ++ '/' :: path') = walk (resolve here (path ++ ['/'])) (parts path') := by
  have head : (path ++ '/' :: path').head? = (path ++ ['/']).head? := by cases path <;> rfl
  have same : walk (walk (if (path ++ ['/']).head? = some '/' then [] else here) (parts path)) (parts []) =
      walk (if (path ++ ['/']).head? = some '/' then [] else here) (parts path) := rfl
  rw [resolve, resolve, head, parts_append, parts_append, walk_append, walk_append, same]

theorem Stays.suffix {names base : Dir} (stays : Stays names.length path) : base <:+ walk (names ++ base) path := by
  induction path generalizing names with
  | nil => exact suffix_append names base
  | cons part rest ih =>
    rw [Stays] at stays
    rw [walk_cons, enter]
    split at stays
    next same =>
      rw [if_pos same]
      exact ih stays
    next other =>
      rw [if_neg other]
      split at stays
      next up =>
        rw [if_pos up]
        obtain ⟨positive, stays⟩ := stays
        cases names with
        | nil => exact absurd positive (Nat.lt_irrefl 0)
        | cons name names => exact ih stays
      next name =>
        rw [if_neg name]
        have stays : Stays (part :: names).length rest := stays
        exact ih stays

theorem mem_walk (hmem : part ∈ walk dir path) : part ∈ dir ∨ part ∈ path := by
  induction path generalizing dir with
  | nil => exact .inl hmem
  | cons first rest ih =>
    rcases ih hmem with here | there
    · rw [enter] at here
      split at here
      · exact .inl here
      · split at here
        · exact .inl (mem_of_mem_tail here)
        · rcases mem_cons.mp here with rfl | old
          · exact .inr mem_cons_self
          · exact .inl old
    · exact .inr (mem_cons_of_mem _ there)

theorem Stays.of_mem {names : Dir} (unknown : part ∉ path) (reached : part ∈ walk (names ++ [part]) path) :
    Stays names.length path := by
  induction path generalizing names with
  | nil => exact trivial
  | cons first rest ih =>
    have later : part ∉ rest := fun hmem => unknown (mem_cons_of_mem _ hmem)
    rw [walk_cons, enter] at reached
    rw [Stays]
    split
    next same => exact ih later (by rwa [if_pos same] at reached)
    next other =>
      rw [if_neg other] at reached
      split
      next up =>
        rw [if_pos up] at reached
        cases names with
        | nil =>
          rcases mem_walk reached with here | there
          · exact absurd here not_mem_nil
          · exact absurd there later
        | cons name names => exact ⟨Nat.succ_pos _, ih later reached⟩
      next name =>
        rw [if_neg name] at reached
        have reached : part ∈ walk ((first :: names) ++ [part]) rest := reached
        exact ih later reached

end

end UnixPath
