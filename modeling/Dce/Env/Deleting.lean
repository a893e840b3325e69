import Dce.Env.Model
import Mathlib.Data.List.Basic

/- What the loop of `dce_unsetenv` does to an array. It deletes what begins with the name, and it moves what comes
after a deleted entry, but not the null pointer. -/

namespace Dce.Env

open List Option

variable {name e x : CString} {l : List CString} {before spare slots : Slots} {fuel k : Nat}

section

/-- Every entry has an equals sign. -/
def WellFormed (l : List CString) : Prop := ∀ e ∈ l, '=' ∈ e

/-- What `strncmp` lets through. -/
def Begins (name entry : CString) : Prop := name <+: entry

instance (name entry : CString) : Decidable (Begins name entry) := inferInstanceAs (Decidable (_ <+: _))

/-- How many iterations delete an entry. -/
def deletions (name : CString) (l : List CString) : Nat := l.countP fun e => Begins name e

/-- What is left where the last entry stays. -/
def remaining (name : CString) (l : List CString) : List CString := l.filter fun e => ¬ Begins name e

theorem deletions_cons_of_begins (begins : Begins name e) : deletions name (e :: l) = deletions name l + 1 :=
  countP_cons_of_pos (decide_eq_true begins)

theorem deletions_cons_of_not_begins (differs : ¬ Begins name e) : deletions name (e :: l) = deletions name l :=
  countP_cons_of_neg (by simpa using differs)

theorem remaining_cons_of_begins (begins : Begins name e) : remaining name (e :: l) = remaining name l :=
  filter_cons_of_neg (by simpa using begins)

theorem remaining_cons_of_not_begins (differs : ¬ Begins name e) : remaining name (e :: l) = e :: remaining name l :=
  filter_cons_of_pos (decide_eq_true differs)

theorem shift_array {prev : Option CString} : shift (prev :: array (l ++ [x]) spare) =
    some (array (l ++ [x] ++ [x]) spare) := by
  induction l generalizing prev with
  | nil => rfl
  | cons e l ih =>
    show (shift (some e :: array (l ++ [x]) spare)).map (some e :: ·) = _
    rw [ih]
    rfl

theorem loop_null : unsetenvLoop name (fuel + 1) before (array [] spare) = some (before ++ none :: spare) := rfl

theorem loop_some {cur : CString} {rest : Slots} : unsetenvLoop name (fuel + 1) before (some cur :: rest) =
    (equal cur).elim (unsetenvLoop name fuel before (some cur :: rest)) fun _ =>
      if strncmp cur name name.length then unsetenvLoop name fuel (before ++ [some cur]) rest
      else rest.head?.bind fun next => (shift (next :: rest)).bind (unsetenvLoop name fuel before) := by
  rw [unsetenvLoop.eq_def]
  dsimp only
  cases equal cur with
  | none => rfl
  | some _ => cases rest <;> rfl

theorem loop_malformed (absent : '=' ∉ e) :
    unsetenvLoop name (fuel + 1) before (array (e :: l) spare) = unsetenvLoop name fuel before
    (array (e :: l) spare) := by
  refine loop_some.trans ?_
  rw [equal_of_notMem absent]
  rfl

variable (member : '=' ∈ e)
include member

theorem loop_keep (differs : ¬ Begins name e) : unsetenvLoop name (fuel + 1) before (array (e :: l) spare) =
      unsetenvLoop name fuel (before ++ [some e]) (array l spare) := by
  have compare : strncmp e name name.length = true := by
    simpa using mt strncmp_eq_false.mp differs
  refine loop_some.trans ?_
  rw [equal_of_mem member, if_pos compare]
  rfl

theorem loop_delete_last (begins : Begins name e) :
    unsetenvLoop name (fuel + 1) before (array [e] spare) = unsetenvLoop name fuel before
    (array [] (none :: spare)) := by
  refine loop_some.trans ?_
  rw [equal_of_mem member, strncmp_eq_false.mpr begins]
  rfl

theorem loop_delete (begins : Begins name e) : unsetenvLoop name (fuel + 1) before (array (e :: (l ++ [x])) spare) =
      unsetenvLoop name fuel before (array (l ++ [x] ++ [x]) spare) := by
  obtain ⟨next, rest, same⟩ : ∃ next rest, array (l ++ [x]) spare = next :: rest :=
    exists_cons_of_ne_nil (by simp [array])
  have moved : shift (next :: array (l ++ [x]) spare) = some (array (l ++ [x] ++ [x]) spare) := shift_array
  rw [same] at moved
  have cells : array (e :: (l ++ [x])) spare = some e :: next :: rest := congrArg (some e :: ·) same
  rw [cells]
  refine loop_some.trans ?_
  rw [equal_of_mem member, elim_some, strncmp_eq_false.mpr begins, if_neg Bool.false_ne_true, head?_cons,
    bind_some, moved, bind_some]

end

section

theorem loop_of_malformed (malformed : ¬ WellFormed l) : unsetenvLoop name fuel before (array l spare) = none := by
  induction fuel generalizing before l with
  | zero => rfl
  | succ fuel ih =>
    cases l with
    | nil => exact absurd (fun e mem => by cases mem) malformed
    | cons e l =>
      by_cases mem : '=' ∈ e
      · have rest : ¬ WellFormed l := fun wf => malformed fun e' inside =>
          (mem_cons.mp inside).elim (fun same => same ▸ mem) (wf e')
        by_cases begins : Begins name e
        · obtain rfl | ⟨l, x, rfl⟩ := eq_nil_or_concat' l
          · exact absurd (fun e mem => by cases mem) rest
          · rw [loop_delete mem begins]
            exact ih fun wf => rest fun e' inside => wf e' (mem_append_left _ inside)
        · rw [loop_keep mem begins]
          exact ih rest
      · rw [loop_malformed mem]
        exact ih malformed

variable (wf : WellFormed (l ++ [x]))
include wf

theorem loop_of_last (last : Begins name x) (earlier : ∃ e ∈ l, Begins name e) :
    unsetenvLoop name fuel before (array (l ++ [x]) spare) = none := by
  induction fuel generalizing before l with
  | zero => rfl
  | succ fuel ih =>
    obtain ⟨e', inside, begins'⟩ := earlier
    cases l with
    | nil => cases inside
    | cons e l =>
      have mem : '=' ∈ e := wf e mem_cons_self
      have rest : WellFormed (l ++ [x]) := fun e' inside => wf e' (mem_cons_of_mem _ inside)
      by_cases begins : Begins name e
      · rw [cons_append, loop_delete mem begins]
        refine ih (fun e' inside => ?_) ⟨x, by simp, last⟩
        exact rest e' (by simpa using inside)
      · rw [cons_append, loop_keep mem begins]
        refine ih rest ⟨e', ?_, begins'⟩
        exact (mem_cons.mp inside).resolve_left fun same => begins (same ▸ begins')

omit wf in
theorem loop_kept (wf : WellFormed l) (kept : ∀ e ∈ l, ¬ Begins name e) (enough : l.length < fuel) :
    unsetenvLoop name fuel before (array l spare) = some (before ++ array l spare) := by
  induction l generalizing before fuel with
  | nil =>
    obtain ⟨fuel, rfl⟩ := Nat.exists_eq_add_of_lt enough
    exact loop_null
  | cons e l ih =>
    obtain ⟨fuel, rfl⟩ : ∃ n, fuel = n + 1 := ⟨fuel - 1, by omega⟩
    rw [loop_keep (wf e mem_cons_self) (kept e mem_cons_self), ih (fun e' inside => wf e' (mem_cons_of_mem _ inside))
      (fun e' inside => kept e' (mem_cons_of_mem _ inside)) (by simpa using enough), append_assoc]
    rfl

theorem loop_kept_last (kept : ∀ e ∈ l, ¬ Begins name e) (last : Begins name x) (enough : l.length + 1 < fuel) :
    unsetenvLoop name fuel before (array (l ++ [x]) spare) = some (before ++ array l (none :: spare)) := by
  induction l generalizing before fuel with
  | nil =>
    obtain ⟨fuel, rfl⟩ : ∃ n, fuel = n + 2 := ⟨fuel - 2, by simp at enough; omega⟩
    rw [nil_append, loop_delete_last (wf x (by simp)) last]
    rfl
  | cons e l ih =>
    obtain ⟨fuel, rfl⟩ : ∃ n, fuel = n + 1 := ⟨fuel - 1, by omega⟩
    rw [cons_append, loop_keep (wf e mem_cons_self) (kept e mem_cons_self),
      ih (fun e' inside => wf e' (mem_cons_of_mem _ inside)) (fun e' inside => kept e' (mem_cons_of_mem _ inside))
        (by simpa using enough), append_assoc]
    rfl

theorem loop_remaining (last : ¬ Begins name x) (enough : 2 * l.length + k + 2 ≤ fuel) :
    unsetenvLoop name fuel before (array (l ++ List.replicate (k + 1) x) spare) =
      some (before ++ array (remaining name l ++ List.replicate (k + deletions name l + 1) x) spare) := by
  induction l generalizing before fuel k with
  | nil =>
    have all : ∀ e ∈ replicate (k + 1) x, e = x := fun e inside => (mem_replicate.mp inside).2
    refine loop_kept (fun e inside => ?_) (fun e inside => ?_) (by simp at enough ⊢; omega)
    · rw [all e inside]
      exact wf x (by simp)
    · rw [all e inside]
      exact last
  | cons e l ih =>
    obtain ⟨fuel, rfl⟩ : ∃ n, fuel = n + 1 := ⟨fuel - 1, by omega⟩
    have mem : '=' ∈ e := wf e mem_cons_self
    have rest : WellFormed (l ++ [x]) := fun e' inside => wf e' (mem_cons_of_mem _ inside)
    simp only [length_cons] at enough
    by_cases begins : Begins name e
    · have grown : l ++ replicate k x ++ [x] ++ [x] = l ++ replicate (k + 1 + 1) x := by
        simp [replicate_succ']
      have counted : k + 1 + deletions name l + 1 = k + deletions name (e :: l) + 1 := by
        rw [deletions_cons_of_begins begins]
        omega
      rw [cons_append, replicate_succ', ← append_assoc, loop_delete mem begins, grown,
        ih rest (by omega), remaining_cons_of_begins begins, counted]
    · rw [cons_append, loop_keep mem begins, ih rest (by omega), remaining_cons_of_not_begins begins,
        deletions_cons_of_not_begins begins, append_assoc]
      rfl

end

/-- `name` is to be deleted at the end of the array and before it. -/
def Returns (name : CString) (l : List CString) : Prop :=
  WellFormed l ∧ ∀ init x, l = init ++ [x] → Begins name x → ∀ e ∈ init, ¬ Begins name e

/-- What a call that comes back leaves. -/
def left (name : CString) (l : List CString) : List CString :=
  match l.getLast? with
  | none => []
  | some x => if Begins name x then l.dropLast else remaining name l ++ List.replicate (deletions name l) x

theorem left_last (last : Begins name x) : left name (l ++ [x]) = l := by
  simp [left, last]

theorem left_append (last : ¬ Begins name x) :
    left name (l ++ [x]) = remaining name l ++ x :: List.replicate (deletions name l) x := by
  simp [left, last, remaining, deletions]

theorem unsetenv_of_returns (returns : Returns name l) (enough : 2 * l.length + 2 ≤ fuel) :
    ∃ spare', dce_unsetenv fuel name (array l spare) = some (array (left name l) spare') := by
  obtain rfl | ⟨l, x, rfl⟩ := eq_nil_or_concat' l
  · obtain ⟨fuel, rfl⟩ : ∃ n, fuel = n + 1 := ⟨fuel - 1, by omega⟩
    exact ⟨spare, rfl⟩
  · simp only [length_append] at enough
    by_cases last : Begins name x
    · refine ⟨none :: spare, ?_⟩
      rw [left_last last]
      exact loop_kept_last returns.1 (returns.2 l x rfl last) last (by omega)
    · refine ⟨spare, ?_⟩
      have run : unsetenvLoop name fuel [] (array (l ++ replicate (0 + 1) x) spare) =
          some ([] ++ array (remaining name l ++ replicate (0 + deletions name l + 1) x) spare) :=
        loop_remaining returns.1 last (by omega)
      rw [left_append last, ← replicate_succ]
      simpa [dce_unsetenv] using run

theorem unsetenv_of_not_returns (never : ¬ Returns name l) : dce_unsetenv fuel name (array l spare) = none := by
  by_cases wf : WellFormed l
  · obtain ⟨init, x, same, last, earlier⟩ : ∃ init x, l = init ++ [x] ∧ Begins name x ∧
      ∃ e ∈ init, Begins name e := by
      simpa [Returns, wf] using never
    rw [same]
    exact loop_of_last (same ▸ wf) last earlier
  · exact loop_of_malformed wf

theorem loop_mono {rest : Slots} (run : unsetenvLoop name fuel before rest = some slots) :
    unsetenvLoop name (fuel + 1) before rest = some slots := by
  induction fuel generalizing before rest with
  | zero => cases run
  | succ fuel ih =>
    match rest, run with
    | none :: rest, run => exact run
    | some cur :: rest, run =>
      rw [loop_some] at run ⊢
      cases sign : equal cur with
      | none =>
        rw [sign] at run
        exact ih run
      | some _ =>
        rw [sign] at run
        split at run
        next differs =>
          rw [if_pos differs]
          exact ih run
        next agrees =>
          obtain ⟨next, first, run⟩ := bind_eq_some_iff.mp run
          obtain ⟨moved, moves, run⟩ := bind_eq_some_iff.mp run
          rw [if_neg agrees, first, bind_some, moves]
          exact ih run

theorem unsetenv_mono {env : Slots} {n : Nat} (run : dce_unsetenv fuel name env = some slots) (le : fuel ≤ n) :
    dce_unsetenv n name env = some slots := by
  induction n, le using Nat.le_induction with
  | base => exact run
  | succ n _ ih => exact loop_mono ih

theorem left_of_unsetenv (run : dce_unsetenv fuel name (array l spare) = some slots) :
    entries slots = left name l := by
  have returns : Returns name l := by
    by_contra never
    rw [unsetenv_of_not_returns never] at run
    cases run
  obtain ⟨spare', same⟩ : ∃ spare', dce_unsetenv (max fuel (2 * l.length + 2)) name (array l spare) =
      some (array (left name l) spare') := unsetenv_of_returns returns (Nat.le_max_right ..)
  rw [unsetenv_mono run (Nat.le_max_left ..)] at same
  rw [some.inj same, entries_array]

/-- No entry begins with the name, or the last one only, and it is one of the name. -/
def Deletes (name : CString) (l : List CString) : Prop :=
  (∀ e ∈ l, ¬ Begins name e) ∨ ∃ init x, l = init ++ [x] ∧ (∀ e ∈ init, ¬ Begins name e) ∧ nameOf x = name

theorem begins_of_nameOf (mem : '=' ∈ e) (same : nameOf e = name) : Begins name e :=
  Binds.starts ⟨mem, same⟩

theorem filter_of_kept (wf : WellFormed l) (kept : ∀ e ∈ l, ¬ Begins name e) :
    (l.filter fun e => nameOf e ≠ name) = l :=
  filter_eq_self.mpr fun e inside => decide_eq_true fun same => kept e inside (begins_of_nameOf (wf e inside) same)

theorem kept_of_left (last : ¬ Begins name x)
    (same : left name (l ++ [x]) = (l ++ [x]).filter fun e => nameOf e ≠ name) :
    ∀ e ∈ l ++ [x], ¬ Begins name e := by
  have counted : (remaining name l).length + deletions name l = l.length := by
    rw [remaining, deletions, ← countP_eq_length_filter]
    have whole := length_eq_countP_add_countP (fun e => decide (Begins name e)) (l := l)
    simp only [decide_not, Bool.decide_eq_true] at whole ⊢
    omega
  have long : (left name (l ++ [x])).length = (l ++ [x]).length := by
    rw [left_append last]
    simp only [length_append, length_cons, length_replicate, length_nil]
    omega
  have whole : (l ++ [x]).filter (fun e => nameOf e ≠ name) = l ++ [x] :=
    filter_sublist.eq_of_length (same ▸ long)
  intro e inside
  rw [← whole, ← same, left_append last] at inside
  rcases mem_append.mp inside with first | rest
  · simpa using (mem_filter.mp first).2
  · rcases mem_cons.mp rest with rfl | copy
    · exact last
    · exact (mem_replicate.mp copy).2 ▸ last

/-- For entries of the form `name=value`, `dce_unsetenv` comes back and leaves exactly the entries of the other
names, in order and ended by the null pointer, if and only if it has at most the last entry to delete and
this one is of the name. -/
theorem unsetenv_deletes_iff (wf : WellFormed l) :
    (∃ fuel spare', dce_unsetenv fuel name (array l spare) =
      some (array (l.filter fun e => nameOf e ≠ name) spare')) ↔
      Deletes name l := by
  constructor
  · rintro ⟨fuel, spare', run⟩
    have same : (l.filter fun e => nameOf e ≠ name) = left name l := entries_array.symm.trans (left_of_unsetenv run)
    have returns : Returns name l := by
      by_contra never
      rw [unsetenv_of_not_returns never] at run
      cases run
    obtain rfl | ⟨init, x, rfl⟩ := eq_nil_or_concat' l
    · exact .inl fun e inside => by cases inside
    by_cases last : Begins name x
    · have earlier := returns.2 init x rfl last
      have inits : WellFormed init := fun e inside => wf e (mem_append_left _ inside)
      refine .inr ⟨init, x, rfl, earlier, ?_⟩
      by_contra other
      rw [left_last last, filter_append, filter_of_kept inits earlier,
        filter_cons_of_pos (by simpa using other)] at same
      simpa using congrArg length same
    · exact .inl (kept_of_left last same.symm)
  · rintro (kept | ⟨init, x, rfl, kept, same⟩)
    · refine ⟨l.length + 1, spare, ?_⟩
      rw [filter_of_kept wf kept]
      exact loop_kept wf kept (Nat.lt_succ_self _)
    · have inits : WellFormed init := fun e inside => wf e (mem_append_left _ inside)
      have last : Begins name x := begins_of_nameOf (wf x (by simp)) same
      refine ⟨init.length + 2, none :: spare, ?_⟩
      rw [filter_append, filter_of_kept inits kept, filter_cons_of_neg (by simpa using same), filter_nil, append_nil]
      exact loop_kept_last wf kept last (Nat.lt_succ_self _)

/-- The last one of two entries goes. -/
theorem unsetenv_deletes_last : ∃ fuel spare', dce_unsetenv fuel
    ['b'] (array [['a', '=', '1'], ['b', '=', '2']] []) =
    some (array ([['a', '=', '1'], ['b', '=', '2']].filter fun e => nameOf e ≠ ['b']) spare') := by
  refine (unsetenv_deletes_iff ?_).mpr (.inr ⟨[['a', '=', '1']], ['b', '=', '2'], rfl, ?_, rfl⟩)
  · unfold WellFormed
    decide
  · decide

/-- Of the entries `a=1` and `b=2`, to delete `a` leaves `b=2` twice. -/
theorem not_unsetenv_deletes : ¬ ∀ (l : List CString) (spare : Slots) (name : CString), WellFormed l → name ≠ [] →
    '=' ∉ name → ∃ fuel spare', dce_unsetenv fuel name (array l spare) =
      some (array (l.filter fun e => nameOf e ≠ name) spare') := by
  intro deletes
  obtain ⟨fuel, spare', run⟩ :=
    deletes [['a', '=', '1'], ['b', '=', '2']] [] ['a'] (by unfold WellFormed; decide) (by decide) (by decide)
  have there := left_of_unsetenv run
  rw [entries_array] at there
  exact absurd there (by decide)

end Dce.Env
