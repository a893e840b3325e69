import Dce.Env.Model

/- How an environment is handed over to a process: `SetEnvp` writes it, and `CopyEnv` reads it back. -/

namespace Dce.Env

open List

def INT_MAX : Nat := 2 ^ 31 - 1

/-- A `std::string` may hold any characters, zeros among them. -/
abbrev StdString := List Char

abbrev Pair := StdString × StdString

/-- What a `char *` to this memory reads as. -/
def cString (memory : List Char) : CString := memory.takeWhile (· ≠ Char.ofNat 0)

/-- The block of an entry, and nothing where its length is more than the `int size` holds. -/
def block (env : Pair) : Option (List Char) :=
  if env.1.length + env.2.length + 2 ≤ INT_MAX then some (env.1 ++ '=' :: env.2 ++ [Char.ofNat 0]) else none

/-- The vector as it reads. -/
def SetEnvp (envs : List Pair) : Option Slots :=
  if envs.length + 1 ≤ INT_MAX then (envs.mapM block).map fun blocks => array (blocks.map cString) [] else none

/-- What `CopyEnv` changes: `err` and the vector that it is given. -/
structure Copied where
  err : Int
  envs : List Pair

def EINVAL : Int := 22

/-- The loop, on the entries before the null pointer. `nameOf s` is what `c` passes. -/
def copyLoop : List CString → Copied → Int × Copied
  | [], k => (0, k)
  | s :: rest, k =>
    if '=' ∉ s ∨ nameOf s = [] then (-1, { k with err := EINVAL })
    else copyLoop rest { k with envs := k.envs ++ [(nameOf s, valueOf s)] }

def CopyEnv : Option Slots → Copied → Int × Copied
  | none, k => (0, k)
  | some envp, k => copyLoop (entries envp) k

/-- A name that is neither empty nor has a `=`. -/
def ProperlyNamed (env : Pair) : Prop := env.1 ≠ [] ∧ '=' ∉ env.1

/-- No zero is in the name or in the value. -/
def Plain (env : Pair) : Prop := Char.ofNat 0 ∉ env.1 ∧ Char.ofNat 0 ∉ env.2

/-- The lengths are those that an `int` holds. -/
def Fits (envs : List Pair) : Prop :=
  envs.length + 1 ≤ INT_MAX ∧ ∀ env ∈ envs, env.1.length + env.2.length + 2 ≤ INT_MAX

instance (env : Pair) : Decidable (ProperlyNamed env) := inferInstanceAs (Decidable (_ ∧ _))

instance (env : Pair) : Decidable (Plain env) := inferInstanceAs (Decidable (_ ∧ _))

def written (env : Pair) : CString := env.1 ++ '=' :: env.2

section

variable {env : Pair} {envs : List Pair} {k : Copied} {s : CString} {l : List CString}

theorem cString_written (plain : Plain env) : cString (env.1 ++ '=' :: env.2 ++ [Char.ofNat 0]) = written env := by
  have all : ∀ c ∈ written env, decide (c ≠ Char.ofNat 0) = true := by
    intro c mem
    refine decide_eq_true ?_
    rintro rfl
    rcases mem_append.mp mem with inName | inRest
    · exact plain.1 inName
    · rcases mem_cons.mp inRest with sign | inValue
      · exact absurd sign (by decide)
      · exact plain.2 inValue
  exact (takeWhile_append_of_pos all).trans (append_nil _)

theorem setEnvp_eq (fits : Fits envs) (plain : ∀ env ∈ envs, Plain env) :
    SetEnvp envs = some (array (envs.map written) []) := by
  have blocks : envs.mapM block = some (envs.map fun env => env.1 ++ '=' :: env.2 ++ [Char.ofNat 0]) := by
    have sizes := fits.2
    clear fits plain
    induction envs with
    | nil => rfl
    | cons env rest ih =>
      have first : block env = some _ := if_pos (sizes env mem_cons_self)
      have others := ih fun e mem => sizes e (mem_cons_of_mem _ mem)
      simp [first, others]
  rw [SetEnvp, if_pos fits.1, blocks, Option.map_some, map_map]
  exact congrArg (fun l => some (array l [])) (map_congr_left fun env mem => cString_written (plain env mem))

theorem copyLoop_written (named : ∀ env ∈ envs, ProperlyNamed env) :
    copyLoop (envs.map written) k = (0, { k with envs := k.envs ++ envs }) := by
  induction envs generalizing k with
  | nil => simp [copyLoop]
  | cons env rest ih =>
    obtain ⟨nonempty, noSign⟩ := named env mem_cons_self
    have name : nameOf (written env) = env.1 := nameOf_pair noSign
    have value : valueOf (written env) = env.2 := valueOf_pair noSign
    have sign : '=' ∈ written env := by simp [written]
    rw [map_cons, copyLoop, if_neg (by simp [sign, name, nonempty]), name, value,
      ih fun e mem => named e (mem_cons_of_mem _ mem)]
    simp

theorem copyLoop_fails_iff : (copyLoop l k).1 ≠ 0 ↔ ∃ s ∈ l, '=' ∉ s ∨ nameOf s = [] := by
  fun_induction copyLoop l k with
  | case1 => simp
  | case2 s rest _ bad => exact iff_of_true nofun ⟨_, mem_cons_self, bad⟩
  | case3 s rest _ good ih =>
    simp only [ih, mem_cons, or_and_right, exists_or, exists_eq_left]
    exact (or_iff_right good).symm

end

/-- The entries that a string array has, none where there is no array. -/
def listed (envp : Option Slots) : List CString := (envp.map entries).getD []

theorem handed_over (envs : List Pair) (named : ∀ env ∈ envs, ProperlyNamed env) (plain : ∀ env ∈ envs, Plain env)
    (fits : Fits envs) :
    (∃ envp, SetEnvp envs = some envp ∧ ∀ err, CopyEnv (some envp) ⟨err, []⟩ = (0, ⟨err, envs⟩)) ∧
    ∀ envp k, (CopyEnv envp k).1 ≠ 0 ↔ ∃ s ∈ listed envp, '=' ∉ s ∨ nameOf s = [] := by
  refine ⟨⟨_, setEnvp_eq fits plain, fun err => ?_⟩, ?_⟩
  · rw [CopyEnv, entries_array, copyLoop_written named]
    rfl
  · rintro (_ | envp) k
    · simp [CopyEnv, listed]
    · exact copyLoop_fails_iff

theorem handed_over_home : (∃ envp, SetEnvp [(['H'], ['/', '=']), (['A'], [])] = some envp ∧
      ∀ err, CopyEnv (some envp) ⟨err, []⟩ = (0, ⟨err, [(['H'], ['/', '=']), (['A'], [])]⟩)) ∧
    ∀ envp k, (CopyEnv envp k).1 ≠ 0 ↔ ∃ s ∈ listed envp, '=' ∉ s ∨ nameOf s = [] :=
  handed_over _ (by decide) (by decide) (by simp [Fits, INT_MAX])

/-- A value with a zero comes back without what is behind it. -/
theorem not_handed_over : ¬ ∀ envs : List Pair, (∀ env ∈ envs, ProperlyNamed env) →
      ∃ envp, SetEnvp envs = some envp ∧ ∀ err, CopyEnv (some envp) ⟨err, []⟩ = (0, ⟨err, envs⟩) := by
  intro all
  obtain ⟨envp, set, copied⟩ := all [(['A'], ['x', Char.ofNat 0, 'y'])] (by decide)
  have read : SetEnvp [(['A'], ['x', Char.ofNat 0, 'y'])] = some [some ['A', '=', 'x'], none] := by decide
  cases set.symm.trans read
  exact absurd (congrArg (fun r => r.2.envs) (copied 0)) (by decide)

end Dce.Env
