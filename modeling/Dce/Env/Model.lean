import Mathlib.Algebra.Order.Ring.Int
import Mathlib.Algebra.Order.Ring.Nat
import Mathlib.Data.List.TakeWhile

/- The environment of a process: `seek_env` and the calls on the array that `penvp` leads to. -/

namespace Dce.Env

open List

/-- The characters before the NUL. -/
abbrev CString := List Char

/-- The memory of the array from `*penvp` on. `none` is the null pointer. -/
abbrev Slots := List (Option CString)

/-- The entries that a loop over the array meets before the null pointer. -/
def entries : Slots → List CString
  | some cur :: rest => cur :: entries rest
  | _ => []

/-- The array with these entries, its null pointer, and what memory there is after that. -/
def array (l : List CString) (spare : Slots) : Slots := l.map some ++ none :: spare

/-- Whether `strncmp (a, b, n)` is not zero. -/
def strncmp (a b : CString) (n : Nat) : Bool := a.take n != b.take n

def fromSign (s : CString) : CString := s.dropWhile (· ≠ '=')

/-- `strchr (s, '=')`: the string from the first `=` on. -/
def equal (s : CString) : Option CString := if '=' ∈ s then some (fromSign s) else none

def seek_env (name : CString) : Slots → Option CString
  | some cur :: rest =>
    match equal cur with
    | none => seek_env name rest
    | some equal => if strncmp cur name name.length then seek_env name rest else some equal.tail
  | _ => none

def dce_getenv (name : CString) : Option Slots → Option CString
  | none => none
  | some env => seek_env name env

/-- `for (i = cur + 1, prev = cur; *i != 0; i++, prev++) *prev = *i`, on the memory from `prev` on. There is no
result where it runs out of the array. -/
def shift : Slots → Option Slots
  | _ :: some i :: rest => (shift (some i :: rest)).map (some i :: ·)
  | prev :: none :: rest => some (prev :: none :: rest)
  | _ => none

/-- The loop of `dce_unsetenv`, with `cur` between the two parts of the array. There is no result where it has
not come to its end. -/
def unsetenvLoop (name : CString) : Nat → Slots → Slots → Option Slots
  | 0, _, _ => none
  | _ + 1, _, [] => none
  | _ + 1, before, none :: rest => some (before ++ none :: rest)
  | fuel + 1, before, some cur :: rest =>
    match equal cur with
    -- `continue`, and `cur` stays where it is
    | none => unsetenvLoop name fuel before (some cur :: rest)
    | some _ =>
      if strncmp cur name name.length then
        unsetenvLoop name fuel (before ++ [some cur]) rest
      else
        match rest with
        | [] => none
        | next :: _ => (shift (next :: rest)).bind (unsetenvLoop name fuel before)

def dce_unsetenv (fuel : Nat) (name : CString) (env : Slots) : Option Slots := unsetenvLoop name fuel [] env

/-- Enough for every call that comes back. -/
def enough (env : Slots) : Nat := 2 * (entries env).length + 2

/-- `*cur = string` for each entry that agrees with it. -/
def replace (string : CString) (namelen : Nat) : Slots → Slots
  | some cur :: rest => some (if strncmp string cur namelen then cur else string) :: replace string namelen rest
  | rest => rest

def dce_putenv (string : CString) (env : Slots) : Option Slots :=
  match equal string with
  | none => dce_unsetenv (enough env) string env
  | some equal =>
    let namelen := string.length - equal.length + 1
    if (entries env).any fun cur => !strncmp string cur namelen then some (replace string namelen env)
    else some (array (entries env ++ [string]) [])

def dce_setenv (name value : CString) (overwrite : Int) (env : Slots) : Option Slots :=
  (if overwrite ≠ 0 then dce_unsetenv (enough env) name env else some env).bind fun env =>
    if overwrite = 0 ∧ (entries env).any (fun cur => !strncmp cur name name.length) then some env
    else some (array (entries env ++ [name ++ '=' :: value]) [])

def dce_clearenv : Slots := array [] []

/-- What an entry says: its name and its value. -/
def nameOf (entry : CString) : CString := entry.takeWhile (· ≠ '=')

def valueOf (entry : CString) : CString := (fromSign entry).tail

/-- The entry is one of `name`. -/
def Binds (name entry : CString) : Prop := '=' ∈ entry ∧ nameOf entry = name

instance (name entry : CString) : Decidable (Binds name entry) := inferInstanceAs (Decidable (_ ∧ _))

section

variable {name s t : CString}

theorem strncmp_eq_false : strncmp s name name.length = false ↔ name <+: s := by
  rw [strncmp, bne_eq_false_iff_eq, take_length, prefix_iff_eq_take]
  exact eq_comm

theorem equal_of_mem (mem : '=' ∈ s) : equal s = some (fromSign s) := if_pos mem

theorem equal_of_notMem (absent : '=' ∉ s) : equal s = none := if_neg absent

theorem notMem_nameOf : '=' ∉ nameOf s := fun mem => by
  simpa using mem_takeWhile_imp mem

theorem nameOf_append_fromSign : nameOf s ++ fromSign s = s := takeWhile_append_dropWhile

theorem nameOf_append_valueOf (mem : '=' ∈ s) : nameOf s ++ '=' :: valueOf s = s := by
  have rest : fromSign s ≠ [] := fun empty => by
    have whole := nameOf_append_fromSign (s := s)
    rw [empty, append_nil] at whole
    exact notMem_nameOf (whole.symm ▸ mem)
  have first : (fromSign s).head rest = '=' := by
    have stop : decide ((fromSign s).head rest ≠ '=') = false := head_dropWhile_not _ rest
    simpa using stop
  have split : '=' :: valueOf s = fromSign s := (congrArg (· :: valueOf s) first).symm.trans (cons_head_tail rest)
  rw [split]
  exact nameOf_append_fromSign

theorem plain_iff : '=' ∉ name ↔ ∀ c ∈ name, decide (c ≠ '=') = true := by
  constructor
  · intro absent c mem
    simpa using fun same : c = '=' => absent (same ▸ mem)
  · intro all mem
    simpa using all _ mem

theorem nameOf_pair (plain : '=' ∉ name) : nameOf (name ++ '=' :: t) = name := by
  rw [nameOf, takeWhile_append_of_pos (plain_iff.mp plain), takeWhile_cons_of_neg (by simp), append_nil]

theorem valueOf_pair (plain : '=' ∉ name) : valueOf (name ++ '=' :: t) = t := by
  rw [valueOf, fromSign, dropWhile_append_of_pos (plain_iff.mp plain), dropWhile_cons_of_neg (by simp), tail_cons]

theorem binds_pair (plain : '=' ∉ name) : Binds name (name ++ '=' :: t) := ⟨by simp, nameOf_pair plain⟩

theorem Binds.plain (binds : Binds name s) : '=' ∉ name := binds.2 ▸ notMem_nameOf

theorem Binds.starts (binds : Binds name s) : name <+: s :=
  ⟨_, binds.2 ▸ nameOf_append_valueOf binds.1⟩

theorem binds_iff_starts (plain : '=' ∉ name) : Binds name s ↔ name ++ ['='] <+: s := by
  constructor
  · rintro ⟨mem, rfl⟩
    exact ⟨valueOf s, by rw [append_assoc]; exact nameOf_append_valueOf mem⟩
  · rintro ⟨value, rfl⟩
    rw [append_assoc]
    exact binds_pair plain

end

section

variable {l : List CString} {spare env : Slots}

@[simp] theorem entries_array : entries (array l spare) = l := by
  induction l with
  | nil => rfl
  | cons e l ih => exact congrArg (e :: ·) ih

theorem exists_array (terminated : none ∈ env) : ∃ spare, env = array (entries env) spare := by
  induction env with
  | nil => cases terminated
  | cons first rest ih =>
    cases first with
    | none => exact ⟨rest, rfl⟩
    | some e =>
      obtain ⟨spare, same⟩ := ih (by simpa using terminated)
      exact ⟨spare, congrArg (some e :: ·) same⟩

theorem none_mem_array : none ∈ array l spare := by simp [array]

end

end Dce.Env
