import Dce.Env.Deleting
import Dce.Lib.Machine

/- The environment as a map from names to values, and the calls that treat it as one. -/

namespace Dce.Env

open Function List Option

variable {name string value e x m : CString} {l : List CString} {env env' : Slots} {fuel : Nat}

/-- The value of the first entry of a name. -/
def meaning (l : List CString) (name : CString) : Option CString :=
  (l.find? fun e => Binds name e).map valueOf

theorem meaning_eq_none : meaning l m = none ↔ ∀ e ∈ l, ¬ Binds m e := by
  simp [meaning]

theorem meaning_cons : meaning (e :: l) m = if Binds m e then some (valueOf e) else meaning l m := by
  rw [meaning]
  by_cases binds : Binds m e
  · simp [binds]
  · simp [binds, meaning]

theorem meaning_of_not_plain (sign : '=' ∈ m) : meaning l m = none :=
  meaning_eq_none.mpr fun _ _ binds => binds.plain sign

theorem meaning_append : meaning (l ++ [e]) m = (meaning l m).or (if Binds m e then some (valueOf e) else none) := by
  rw [meaning, find?_append, meaning]
  by_cases binds : Binds m e
  · simp [binds]
  · simp [binds]

theorem meaning_append_pair (plain : '=' ∉ name) (none : meaning l name = none) :
    meaning (l ++ [name ++ '=' :: value]) = update (meaning l) name (some value) := by
  funext m
  rw [meaning_append]
  by_cases same : m = name
  · rw [same, none, if_pos (binds_pair plain), valueOf_pair plain, update_self]
    rfl
  · have other : ¬ Binds m (name ++ '=' :: value) := fun binds => same (binds.2.symm.trans (nameOf_pair plain))
    rw [if_neg other, or_none, update_of_ne same]

/-- No other name loses its entries: what begins with `name` is of `name`. -/
def Named (name : CString) (l : List CString) : Prop := ∀ e ∈ l, Begins name e → nameOf e = name

theorem find?_left (returns : Returns name l) {p : CString → Bool} :
    (left name l).find? p = (remaining name l).find? p := by
  obtain rfl | ⟨init, x, rfl⟩ := eq_nil_or_concat' l
  · rfl
  have split : remaining name (init ++ [x]) = remaining name init ++ remaining name [x] := filter_append ..
  by_cases last : Begins name x
  · have all : remaining name init = init := filter_eq_self.mpr fun e inside =>
      decide_eq_true (returns.2 init x rfl last e inside)
    rw [left_last last, split, all, remaining_cons_of_begins last]
    simp [remaining]
  · rw [left_append last, split, remaining_cons_of_not_begins last]
    simp only [find?_append, find?_cons, find?_replicate]
    cases p x <;> simp [remaining]

theorem meaning_remaining (apart : ∀ e ∈ l, Binds m e → ¬ Begins name e) :
    meaning (remaining name l) m = meaning l m := by
  induction l with
  | nil => rfl
  | cons e l ih =>
    have rest := ih fun e' inside => apart e' (mem_cons_of_mem _ inside)
    by_cases begins : Begins name e
    · have other : ¬ Binds m e := fun binds => apart e mem_cons_self binds begins
      rw [remaining_cons_of_begins begins, rest, meaning_cons, if_neg other]
    · rw [remaining_cons_of_not_begins begins, meaning_cons, meaning_cons, rest]

theorem meaning_remaining_eq_none (all : ∀ e ∈ l, Binds m e → Begins name e) : meaning (remaining name l) m = none :=
  meaning_eq_none.mpr fun e inside binds => by
    obtain ⟨mem, kept⟩ := mem_filter.mp inside
    exact of_decide_eq_true kept (all e mem binds)

theorem Binds.begins (plain : '=' ∉ name) (here : Binds m e) (begins : Begins name e)
    (there : Binds m x) : Begins name x := by
  have sign : m ++ ['='] <+: e := (binds_iff_starts here.plain).mp here
  have shorter : name <+: m ++ ['='] := (List.prefix_or_prefix_of_prefix begins sign).resolve_right fun longer =>
    plain (longer.subset (by simp))
  have inside : name <+: m := (prefix_concat_iff.mp shorter).resolve_left fun same => plain (same ▸ by simp)
  exact inside.trans there.starts

theorem meaning_left (returns : Returns name l) : meaning (left name l) m = meaning (remaining name l) m := by
  rw [meaning, find?_left returns, meaning]

theorem meaning_left_self (returns : Returns name l) : meaning (left name l) name = none :=
  (meaning_left returns).trans (meaning_remaining_eq_none fun _ _ binds => binds.starts)

/-- The entries that are left mean the same for all other names exactly if no other name begins with this one. -/
theorem meaning_left_iff (plain : '=' ∉ name) (returns : Returns name l) :
    meaning (left name l) = update (meaning l) name none ↔ Named name l := by
  constructor
  · intro same e inside begins
    by_contra other
    have mem : '=' ∈ e := returns.1 e inside
    have gone : meaning (remaining name l) (nameOf e) = none :=
      meaning_remaining_eq_none fun x _ binds => Binds.begins plain ⟨mem, rfl⟩ begins binds
    have still : meaning l (nameOf e) = none := by
      rw [← gone, ← meaning_left returns, same, update_of_ne other]
    exact meaning_eq_none.mp still e inside ⟨mem, rfl⟩
  · intro named
    funext m
    by_cases same : m = name
    · rw [same, update_self]
      exact meaning_left_self returns
    · rw [meaning_left returns, update_of_ne same]
      exact meaning_remaining fun e inside binds begins => same (binds.2.symm.trans (named e inside begins))

theorem seek_env_eq : seek_env name env = ((entries env).find? fun e => '=' ∈ e ∧ Begins name e).map fun e =>
    valueOf e := by
  induction env with
  | nil => rfl
  | cons first rest ih =>
    cases first with
    | none => rfl
    | some e =>
      rw [seek_env, show entries (some e :: rest) = e :: entries rest from rfl]
      by_cases mem : '=' ∈ e
      · rw [equal_of_mem mem]
        dsimp only
        by_cases begins : Begins name e
        · rw [strncmp_eq_false.mpr begins, find?_cons_of_pos (by simp [mem, begins])]
          rfl
        · have compare : strncmp e name name.length = true := by
            simpa using mt strncmp_eq_false.mp begins
          rw [if_pos compare, ih, find?_cons_of_neg (by simp [begins])]
      · rw [equal_of_notMem mem, find?_cons_of_neg (by simp [mem])]
        exact ih

theorem any_begins : ((entries env).any fun cur => !strncmp cur name name.length) = true ↔
    ∃ e ∈ entries env, Begins name e := by
  simp [strncmp_eq_false, Begins]

theorem unsetenv_spec (name : CString) (terminated : none ∈ env) :
    (Returns name (entries env) → ∃ env', dce_unsetenv (enough env) name env = some env' ∧ none ∈ env' ∧
      entries env' = left name (entries env)) ∧
    (¬ Returns name (entries env) → dce_unsetenv (enough env) name env = none) := by
  obtain ⟨spare, same⟩ := exists_array terminated
  constructor
  · intro returns
    obtain ⟨spare', run⟩ : ∃ spare', dce_unsetenv (enough env) name (array (entries env) spare) =
        some (array (left name (entries env)) spare') := unsetenv_of_returns returns le_rfl
    rw [← same] at run
    exact ⟨_, run, none_mem_array, entries_array⟩
  · intro never
    have run : dce_unsetenv (enough env) name (array (entries env) spare) = none := unsetenv_of_not_returns never
    rwa [← same] at run

theorem strncmp_sign (mem : '=' ∈ string) :
    strncmp string e (string.length - (fromSign string).length + 1) = false ↔ Binds (nameOf string) e := by
  have whole : (nameOf string ++ ['=']) ++ valueOf string = string := by
    rw [append_assoc]
    exact nameOf_append_valueOf mem
  have count : string.length - (fromSign string).length + 1 = (nameOf string ++ ['=']).length := by
    have split : (nameOf string).length + (fromSign string).length = string.length := by
      rw [← length_append]
      exact congrArg length nameOf_append_fromSign
    rw [length_append, length_singleton]
    omega
  have taken : string.take (nameOf string ++ ['=']).length = nameOf string ++ ['='] := by
    exact (congrArg (take _) whole.symm).trans take_left
  rw [strncmp, bne_eq_false_iff_eq, count, taken, binds_iff_starts notMem_nameOf, prefix_iff_eq_take]

theorem entries_replace {n : Nat} :
    entries (replace string n env) = (entries env).map fun cur => if strncmp string cur n then cur else string := by
  induction env with
  | nil => rfl
  | cons first rest ih =>
    cases first with
    | none => rfl
    | some e => exact congrArg (_ :: ·) ih

theorem none_mem_replace {n : Nat} (terminated : none ∈ env) : none ∈ replace string n env := by
  induction env with
  | nil => cases terminated
  | cons first rest ih =>
    cases first with
    | none => exact mem_cons_self
    | some e => exact mem_cons_of_mem _ (ih (by simpa using terminated))

/-- `string` in the place of each entry of its name. -/
def replaced (string : CString) (l : List CString) : List CString :=
  l.map fun cur => if Binds (nameOf string) cur then string else cur

theorem meaning_replaced_of_ne (other : m ≠ nameOf string) : meaning (replaced string l) m = meaning l m := by
  induction l with
  | nil => rfl
  | cons e l ih =>
    have rest : meaning (replaced string (e :: l)) m = if Binds m (if Binds (nameOf string) e
      then string else e) then
          some (valueOf (if Binds (nameOf string) e then string else e))
            else meaning (replaced string l) m := meaning_cons
    rw [rest, ih, meaning_cons]
    by_cases here : Binds (nameOf string) e
    · rw [if_pos here, if_neg fun binds : Binds m string => other binds.2.symm,
        if_neg fun binds : Binds m e => other (binds.2.symm.trans here.2)]
    · rw [if_neg here]

theorem meaning_replaced_self (mem : '=' ∈ string) (present : ∃ e ∈ l, Binds (nameOf string) e) :
    meaning (replaced string l) (nameOf string) = some (valueOf string) := by
  induction l with
  | nil => exact nomatch present
  | cons e l ih =>
    have own : Binds (nameOf string) string := ⟨mem, rfl⟩
    by_cases here : Binds (nameOf string) e
    · have first : replaced string (e :: l) = string :: replaced string l := by simp [replaced, here]
      rw [first, meaning_cons, if_pos own]
    · have first : replaced string (e :: l) = e :: replaced string l := by simp [replaced, here]
      rw [first, meaning_cons, if_neg here]
      obtain ⟨e', inside, binds⟩ := present
      exact ih ⟨e', (mem_cons.mp inside).resolve_left fun same => here (same ▸ binds), binds⟩

theorem meaning_replaced (mem : '=' ∈ string) (present : ∃ e ∈ l, Binds (nameOf string) e) :
    meaning (replaced string l) = update (meaning l) (nameOf string) (some (valueOf string)) := by
  funext m
  by_cases same : m = nameOf string
  · rw [same, update_self]
    exact meaning_replaced_self mem present
  · rw [update_of_ne same]
    exact meaning_replaced_of_ne same

theorem putenv_pair (terminated : none ∈ env) (mem : '=' ∈ string) : ∃ env', dce_putenv string env = some env' ∧
    none ∈ env' ∧ meaning (entries env') = update (meaning (entries env)) (nameOf string)
    (some (valueOf string)) := by
  have agrees : ∀ cur, strncmp string cur (string.length - (fromSign string).length + 1) =
      !decide (Binds (nameOf string) cur) := fun cur => by
    have exactly := strncmp_sign (e := cur) mem
    cases compare : strncmp string cur (string.length - (fromSign string).length + 1) with
    | true => simpa using mt exactly.mpr (by simp [compare])
    | false => simpa using exactly.mp compare
  rw [dce_putenv, equal_of_mem mem]
  simp only [agrees]
  by_cases present : ∃ e ∈ entries env, Binds (nameOf string) e
  · rw [if_pos (by simpa using present)]
    refine ⟨_, rfl, none_mem_replace terminated, ?_⟩
    rw [← meaning_replaced mem present, entries_replace, replaced]
    simp [agrees]
  · rw [if_neg (by simpa using present)]
    refine ⟨_, rfl, none_mem_array, ?_⟩
    have absent : meaning (entries env) (nameOf string) = none :=
      meaning_eq_none.mpr fun e inside binds => present ⟨e, inside, binds⟩
    have appended : meaning (entries env ++ [nameOf string ++ '=' :: valueOf string]) =
        update (meaning (entries env)) (nameOf string) (some (valueOf string)) :=
      meaning_append_pair notMem_nameOf absent
    rw [nameOf_append_valueOf mem] at appended
    rw [entries_array, appended]

inductive Label
  | getenv (name : CString)
  | putenv (string : CString)
  | setenv (name value : CString) (overwrite : Int)
  | clearenv
  deriving DecidableEq, Repr

/-- The array that a call leaves and the string that it returns. There is none where it does not come back. -/
def call (env : Slots) : Label → Option (Slots × Option CString)
  | .getenv name => some (env, dce_getenv name (some env))
  | .putenv string => (dce_putenv string env).map fun env => (env, none)
  | .setenv name value overwrite => (dce_setenv name value overwrite env).map fun env => (env, none)
  | .clearenv => some (dce_clearenv, none)

/-- What the calls are to do to a map, and what they are to return. -/
def Label.act (map : CString → Option CString) : Label → (CString → Option CString) × Option CString
  | .getenv name => (map, map name)
  | .putenv string =>
    if '=' ∈ string then (update map (nameOf string) (some (valueOf string)), none)
    else (update map string none, none)
  | .setenv name value overwrite =>
    if overwrite = 0 ∧ (map name).isSome then (map, none) else (update map name (some value), none)
  | .clearenv => (fun _ => none, none)

/-- The process that begins with the array `start`. Its state is `none` while it is in a call that does not
come back. -/
def machine (start : Slots) : Machine (Option Slots) Label where
  init s := s = some start
  step s a := s.map fun env => (call env a).map Prod.fst

/-- The map goes along. -/
def mapped (start : Slots) : Machine (Option Slots × (CString → Option CString)) Label :=
  (machine start).ledgered (meaning (entries start)) fun _ a map => (a.act map).1

/-- The call comes back with what the map says, and its array then says what the map does. -/
def Lawful (p : Option Slots × (CString → Option CString)) (a : Label) : Prop :=
  ∃ env env' answer, p.1 = some env ∧ call env a = some (env', answer) ∧ (meaning (entries env'), answer) = a.act p.2

/-- What is asked of a call on an array with the entries `l`. -/
def CarefulCall (l : List CString) : Label → Prop
  | .getenv name => ∀ e, (l.find? fun e => '=' ∈ e ∧ Begins name e) = some e →
      nameOf e = name ∨ meaning l name = some (valueOf e)
  | .putenv string => '=' ∉ string → Returns string l ∧ Named string l
  | .setenv name _ overwrite => '=' ∉ name ∧
      if overwrite = 0 then (∃ e ∈ l, Begins name e) → ∃ e ∈ l, Binds name e else Returns name l ∧ Named name l
  | .clearenv => True

def Careful (p : Option Slots × (CString → Option CString)) (a : Label) : Prop :=
  ∀ env, p.1 = some env → CarefulCall (entries env) a

/-- The call comes back with what the map says. -/
def Meets (env : Slots) (a : Label) : Prop :=
  ∃ env' answer, call env a = some (env', answer) ∧ (meaning (entries env'), answer) = a.act (meaning (entries env))

theorem getenv_meets_iff : Meets env (.getenv name) ↔ CarefulCall (entries env) (.getenv name) := by
  have meets_iff : Meets env (.getenv name) ↔ seek_env name env = meaning (entries env) name := by
    constructor
    · rintro ⟨env', answer, run, same⟩
      cases run
      exact congrArg Prod.snd same
    · intro same
      exact ⟨env, _, rfl, congrArg (Prod.mk _) same⟩
  rw [meets_iff, seek_env_eq, CarefulCall]
  cases found : (entries env).find? fun e => '=' ∈ e ∧ Begins name e with
  | none =>
    have absent : meaning (entries env) name = none := meaning_eq_none.mpr fun e inside binds =>
      absurd (show decide ('=' ∈ e ∧ Begins name e) = true from decide_eq_true ⟨binds.1, binds.starts⟩)
        (find?_eq_none.mp found e inside)
    rw [absent]
    exact iff_of_true rfl fun e wrong => by cases wrong
  | some e =>
    constructor
    · intro same e' there
      cases there
      exact .inr same.symm
    · intro careful
      rcases careful e rfl with own | same
      · -- the first entry that begins with the name is the first one of the name
        obtain ⟨holds, before, after, split, earlier⟩ := find?_eq_some_iff_append.mp found
        have binds : Binds name e := ⟨(of_decide_eq_true holds).1, own⟩
        have first : (entries env).find? (fun e => Binds name e) = some e := by
          refine find?_eq_some_iff_append.mpr ⟨decide_eq_true binds, before, after, split, fun x inside => ?_⟩
          have other := earlier x inside
          rw [Bool.not_eq_true', decide_eq_false_iff_not] at other ⊢
          exact fun binds => other ⟨binds.1, binds.starts⟩
        rw [meaning, first]
      · exact same.symm

section

variable (terminated : none ∈ env)
include terminated

theorem unset_meets_iff (plain : '=' ∉ string) : Meets env (.putenv string) ↔
    CarefulCall (entries env) (.putenv string) := by
  have call_eq : call env (.putenv string) = (dce_unsetenv (enough env) string env).map fun env => (env, none) := by
    simp only [call, dce_putenv, equal_of_notMem plain]
  have act_eq : Label.act (meaning (entries env)) (.putenv string) =
      (update (meaning (entries env)) string none, none) :=
    if_neg plain
  obtain ⟨back, never⟩ := unsetenv_spec string terminated
  rw [Meets, call_eq, act_eq]
  by_cases returns : Returns string (entries env)
  · obtain ⟨env', run, -, same⟩ := back returns
    rw [run]
    constructor
    · rintro ⟨env'', answer, there, meets⟩ -
      cases there
      refine ⟨returns, (meaning_left_iff plain returns).mp ?_⟩
      rw [← same]
      exact congrArg Prod.fst meets
    · intro careful
      refine ⟨env', none, rfl, congrArg (·, none) ?_⟩
      rw [same]
      exact (meaning_left_iff plain returns).mpr (careful plain).2
  · rw [never returns]
    exact iff_of_false (fun ⟨_, _, wrong, _⟩ => by cases wrong) fun careful => returns (careful plain).1

theorem setenv_meets_iff {overwrite : Int} :
    Meets env (.setenv name value overwrite) ↔ CarefulCall (entries env) (.setenv name value overwrite) := by
  by_cases plain : '=' ∉ name
  case neg =>
    -- no entry has such a name
    refine iff_of_false ?_ fun careful => plain careful.1
    rintro ⟨env', answer, -, same⟩
    have empty : ∀ l : List CString, meaning l name = none := fun l => meaning_of_not_plain (not_not.mp plain)
    have set : ((Label.setenv name value overwrite).act (meaning (entries env))).1 name = some value := by
      simp [Label.act, empty]
    rw [← same] at set
    exact absurd ((empty _).symm.trans set) nofun
  rw [CarefulCall, and_iff_right plain]
  by_cases keep : overwrite = 0
  · rw [if_pos keep]
    have run : dce_setenv name value overwrite env =
        if ∃ e ∈ entries env, Begins name e then some env
        else some (array (entries env ++ [name ++ '=' :: value]) []) := by
      simp only [dce_setenv, keep, ne_eq, not_true_eq_false, if_false, bind_some, true_and, any_begins]
    rw [Meets, call, run]
    by_cases begins : ∃ e ∈ entries env, Begins name e
    · rw [if_pos begins, Label.act, keep]
      constructor
      · rintro ⟨env', answer, there, same⟩ -
        cases there
        by_contra absent
        have none : meaning (entries env) name = none :=
          meaning_eq_none.mpr fun e inside binds => absent ⟨e, inside, binds⟩
        have set := congrFun (congrArg Prod.fst same) name
        simp [none] at set
      · intro own
        obtain ⟨e, inside, binds⟩ := own begins
        have present : (meaning (entries env) name).isSome := by
          rw [isSome_iff_ne_none]
          exact fun none => meaning_eq_none.mp none e inside binds
        exact ⟨env, none, rfl, (if_pos ⟨rfl, present⟩).symm⟩
    · rw [if_neg begins]
      have none : meaning (entries env) name = none :=
        meaning_eq_none.mpr fun e inside binds => begins ⟨e, inside, binds.starts⟩
      refine iff_of_true ⟨_, _, rfl, ?_⟩ fun some => absurd some begins
      rw [entries_array, meaning_append_pair plain none, Label.act, none]
      simp
  · rw [if_neg keep]
    have run : dce_setenv name value overwrite env =
        (dce_unsetenv (enough env) name env).map fun env => array (entries env ++ [name ++ '=' :: value]) [] := by
      simp only [dce_setenv, keep, ne_eq]
      cases dce_unsetenv (enough env) name env <;> rfl
    have act : (Label.setenv name value overwrite).act (meaning (entries env)) =
        (update (meaning (entries env)) name (some value), none) := by
      simp [Label.act, keep]
    obtain ⟨back, never⟩ := unsetenv_spec name terminated
    rw [Meets, call, run, act]
    by_cases returns : Returns name (entries env)
    · obtain ⟨env', unset, -, left_eq⟩ := back returns
      have gone := meaning_left_self returns
      have after : meaning (entries (array (entries env' ++ [name ++ '=' :: value]) [])) =
          update (meaning (left name (entries env))) name (some value) := by
        rw [entries_array, left_eq, meaning_append_pair plain gone]
      rw [unset]
      constructor
      · rintro ⟨env'', answer, there, same⟩
        cases there
        have set := after.symm.trans (congrArg Prod.fst same)
        have cleared := congrArg (update · name none) set
        rw [update_idem, update_idem, ← gone, update_eq_self, gone] at cleared
        exact ⟨returns, (meaning_left_iff plain returns).mp cleared⟩
      · intro careful
        refine ⟨_, none, rfl, congrArg (·, none) ?_⟩
        rw [after, (meaning_left_iff plain returns).mpr careful.2, update_idem]
    · rw [never returns]
      exact iff_of_false (fun ⟨_, _, wrong, _⟩ => by cases wrong) fun careful => returns careful.1

theorem meets_iff {a : Label} : Meets env a ↔ CarefulCall (entries env) a := by
  cases a with
  | getenv name => exact getenv_meets_iff
  | putenv string =>
    by_cases plain : '=' ∉ string
    · exact unset_meets_iff terminated plain
    · obtain ⟨env', run, -, means⟩ := putenv_pair terminated (not_not.mp plain)
      refine iff_of_true ⟨env', none, by rw [call, run]; rfl, ?_⟩ fun wrong => absurd wrong plain
      rw [means]
      exact (if_pos (not_not.mp plain)).symm
  | setenv name value overwrite => exact setenv_meets_iff terminated
  | clearenv => exact iff_of_true ⟨_, _, rfl, rfl⟩ trivial

theorem none_mem_call {a : Label} {answer : Option CString} (run : call env a = some (env', answer)) :
    none ∈ env' := by
  have unset : ∀ {name env'}, dce_unsetenv (enough env) name env = some env' → none ∈ env' :=
    fun {name env'} run => by
    obtain ⟨back, never⟩ := unsetenv_spec name terminated
    by_cases returns : Returns name (entries env)
    · obtain ⟨left, there, ends, -⟩ := back returns
      exact some.inj (there.symm.trans run) ▸ ends
    · rw [never returns] at run
      cases run
  cases a with
  | getenv name => cases run; exact terminated
  | putenv string =>
    obtain ⟨after, put, same⟩ := map_eq_some_iff.mp run
    obtain rfl : after = env' := congrArg Prod.fst same
    by_cases plain : '=' ∉ string
    · rw [dce_putenv, equal_of_notMem plain] at put
      exact unset put
    · obtain ⟨set, there, ends, -⟩ := putenv_pair terminated (not_not.mp plain)
      exact some.inj (there.symm.trans put) ▸ ends
  | setenv name value overwrite =>
    obtain ⟨after, set, same⟩ := map_eq_some_iff.mp run
    obtain rfl : after = env' := congrArg Prod.fst same
    obtain ⟨env₁, first, rest⟩ := bind_eq_some_iff.mp set
    have ends : none ∈ env₁ := by
      split at first
      · exact unset first
      · exact some.inj first ▸ terminated
    split at rest
    · exact some.inj rest ▸ ends
    · exact some.inj rest ▸ none_mem_array
  | clearenv => cases run; exact none_mem_array

end

/-- The process is in no call that does not come back, and its array says what the map does. -/
def Sound (p : Option Slots × (CString → Option CString)) : Prop :=
  ∃ env, p.1 = some env ∧ none ∈ env ∧ meaning (entries env) = p.2

/-- From any array on, the calls of a run all do what the map says exactly if they all are careful. -/
theorem lawful_iff_careful {start : Slots} {s : Option Slots} {map : CString → Option CString} {k : Machine.Verdict}
    (terminated : none ∈ start) (reach : ((mapped start).judged Careful Lawful).Reach ((s, map), k)) :
    k.good ↔ k.careful := by
  refine Machine.judged_iff Sound (fun p first => ?_) (fun p a q sound run => ?_) reach
  · exact ⟨start, first.1, terminated, first.2.symm⟩
  · obtain ⟨env, here, ends, same⟩ := sound
    have careful_iff : Careful p a ↔ CarefulCall (entries env) a :=
      ⟨fun careful => careful env here, fun careful env' there => some.inj (here.symm.trans there) ▸ careful⟩
    have lawful_iff : Lawful p a ↔ Meets env a := by
      constructor
      · rintro ⟨env₁, env', answer, there, run, meets⟩
        cases here.symm.trans there
        exact ⟨env', answer, run, same ▸ meets⟩
      · rintro ⟨env', answer, run, meets⟩
        exact ⟨env, env', answer, here, run, same ▸ meets⟩
    refine ⟨(lawful_iff.trans (meets_iff ends)).trans careful_iff.symm, fun careful => ?_⟩
    obtain ⟨env', answer, called, meets⟩ := (meets_iff ends).mpr (careful_iff.mp careful)
    obtain ⟨step, noted⟩ := Machine.ledgered_step run
    refine ⟨env', ?_, none_mem_call ends called, ?_⟩
    · have stepped : (machine start).step p.1 a = some (some env') := by
        simp [machine, here, called]
      exact some.inj (step.symm.trans stepped)
    · rw [noted, ← same]
      exact congrArg Prod.fst meets

/-- Two names are set. -/
theorem lawful_after_setenv : ∃ p : (Option Slots × (CString → Option CString)) × Machine.Verdict,
    ((mapped (array [] [])).judged Careful Lawful).replay ((some (array [] []), meaning []), ⟨True, True⟩)
      [.putenv ['a', '=', '1'], .getenv ['a'], .setenv ['b'] ['2'] 0] = some p ∧ p.2.good := by
  let M := (mapped (array [] [])).judged Careful Lawful
  have run : M.replay ((some (array [] []), meaning []), ⟨True, True⟩)
    [.putenv ['a', '=', '1'], .getenv ['a'], .setenv ['b'] ['2'] 0] = some _ := rfl
  have first : M.Reach ((some (array [] []), meaning []), ⟨True, True⟩) := .start ⟨⟨rfl, rfl⟩, rfl⟩
  have reach := first.replay (fun _ _ => trivial) run
  refine ⟨_, run, (lawful_iff_careful none_mem_array reach).mpr ⟨⟨⟨trivial, ?_⟩, ?_⟩, ?_⟩⟩
  · intro env here
    exact fun wrong => absurd (by decide) wrong
  · intro env here
    cases here
    intro e found
    cases found
    exact .inl rfl
  · intro env here
    cases here
    exact ⟨by decide, fun begins => absurd begins (by decide)⟩

/-- `PATH` is set, and `getenv` of `PA` returns its value. -/
theorem not_lawful : ¬ ∀ (start : Slots) (s : Option Slots) (map : CString → Option CString)
    (a : Label), none ∈ start →
    ((entries start).map nameOf).Nodup → (mapped start).Reach (s, map) → Lawful (s, map) a := by
  intro lawful
  let start := array [['P', 'A', 'T', 'H', '=', '/']] []
  obtain ⟨env, env', answer, here, run, meets⟩ :=
    lawful start (some start) (meaning [['P', 'A', 'T', 'H', '=', '/']])
    (.getenv ['P', 'A']) none_mem_array (by decide) (.start ⟨rfl, rfl⟩)
  cases here
  cases run
  exact absurd (congrArg Prod.snd meets) (by decide)

end Dce.Env
