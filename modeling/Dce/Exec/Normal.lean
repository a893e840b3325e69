import Dce.Exec.Canonical
import Mathlib.Data.List.TakeWhile

/- Which paths `CanonizePath` brings to their normal form. -/

namespace Dce.Exec

open UnixPath List Option

/-- The parts of a path, of which `/` and `.` have none. -/
def components (path : List Char) : List Part :=
  if path = ['/'] ∨ path = ['.'] then [] else if path.head? = some '/' then parts path.tail else parts path

/-- What should hold of the result. -/
structure Normal (path : List Char) (prot : Bool) (canonical : List Char) : Prop where
  same : ∀ here, resolve here canonical = resolve here (c_str path)
  plain : ∀ part ∈ components canonical, part ≠ [] ∧ part ≠ ['.']
  leading : ∃ ups names, components canonical = List.replicate ups ['.', '.'] ++ names ∧ ['.', '.'] ∉ names ∧
    (canonical.head? = some '/' → ups = 0)
  again : CanonizePath canonical prot = some canonical

/-- There is no result only where a relative path is to be protected and leaves. -/
structure Normalises (path : List Char) (prot : Bool) : Prop where
  normal : ∀ canonical, CanonizePath path prot = some canonical → Normal path prot canonical
  refused : CanonizePath path prot = none → prot = true ∧ (c_str path).head? ≠ some '/' ∧
    ¬ Stays 0 (parts (c_str path))

/-- After so many `..` that took back nothing, with so many names to take back: each `..` takes back one of more
names than there were such `..`, or there is none to take back and the path is relative. -/
def Regular (slash : Bool) : Nat → Nat → List Part → Prop
  | _, _, [] => True
  | ups, names, part :: rest =>
    if part = [] ∨ part = ['.'] then Regular slash ups names rest
    else if part = ['.', '.'] then
      if names = 0 then slash = false ∧ Regular slash (ups + 1) 0 rest
      else ups < names ∧ Regular slash ups (names - 1) rest
    else Regular slash ups (names + 1) rest

variable {prot slash : Bool} {r r' : List Part × Int} {part : Part} {path profs names : List Part} {ups : Nat}

theorem head_written (e : Part) (rest : List Part) (kind : IsName e ∨ e = ['.', '.']) :
    (written false (e :: rest)).head? ≠ some '/' := by
  have hpath : written false (e :: rest) = e ++ rest.flatMap fun e => '/' :: e := rfl
  rw [hpath]
  rcases kind with name | rfl
  · cases e with
    | nil => exact absurd rfl name.1
    | cons c e =>
      exact fun heq => name.2.2.2 (some.inj heq ▸ mem_cons_self)
  · simp

theorem slash_notMem (kind : IsName part ∨ part = ['.', '.']) : '/' ∉ part := by
  rcases kind with name | rfl
  · exact name.2.2.2
  · decide

theorem parts_written (e : Part) (rest : List Part) (kinds : ∀ p ∈ e :: rest, IsName p ∨ p = ['.', '.']) :
    parts (written false (e :: rest)) = e :: rest :=
  parts_flatMap (slash_notMem (kinds e mem_cons_self)) fun p hp => slash_notMem (kinds p (mem_cons_of_mem _ hp))

section

variable (kinds : ∀ p ∈ profs, IsName p ∨ p = ['.', '.'])
include kinds

theorem components_written : components (written slash profs) = profs := by
  cases profs with
  | nil => cases slash <;> rfl
  | cons e rest =>
    have relative := head_written e rest (kinds e mem_cons_self)
    have hparts := parts_written e rest kinds
    cases slash with
    | false =>
      have away : ¬ (written false (e :: rest) = ['/'] ∨ written false (e :: rest) = ['.']) := by
        rintro (root | dot)
        · exact relative (root ▸ rfl)
        · have one : [['.']] = e :: rest := by rw [← hparts, dot]; rfl
          obtain ⟨rfl, -⟩ := cons.inj one
          exact (kinds _ mem_cons_self).elim (fun name => name.2.1 rfl) (by decide)
      rw [components, if_neg away, if_neg relative, hparts]
    | true =>
      have hpath : written true (e :: rest) = '/' :: written false (e :: rest) := rfl
      have away : ¬ ('/' :: written false (e :: rest) = ['/'] ∨ '/' :: written false (e :: rest) = ['.']) := by
        rintro (root | dot)
        · have none : written false (e :: rest) = [] := (cons.inj root).2
          have one : [[]] = e :: rest := by rw [← hparts, none]; rfl
          obtain ⟨rfl, -⟩ := cons.inj one
          exact (kinds _ mem_cons_self).elim (fun name => name.1 rfl) (by decide)
        · exact absurd (cons.inj dot).1 (by decide)
      rw [hpath, components, if_neg away, head?_cons, if_pos rfl, tail_cons, hparts]

theorem head_written_iff : (written slash profs).head? = some '/' ↔ slash = true := by
  cases slash with
  | true => cases profs <;> exact ⟨fun _ => rfl, fun _ => rfl⟩
  | false =>
    refine ⟨fun absolute => ?_, nofun⟩
    cases profs with
    | nil => cases absolute
    | cons e rest => exact absurd absolute (head_written e rest (kinds e mem_cons_self))

theorem foldlM_written : (parts (written slash profs)).foldlM (note prot slash) r =
    profs.foldlM (note prot slash) r := by
  cases profs with
  | nil => cases slash <;> rfl
  | cons e rest =>
    have hparts := parts_written e rest kinds
    cases slash with
    | false => rw [hparts]
    | true =>
      have hpath : written true (e :: rest) = [] ++ '/' :: written false (e :: rest) := rfl
      rw [hpath, parts_append, hparts]
      rfl

end

theorem mem_of_mem_parts {c : Char} {whole : List Char} (mem : part ∈ parts whole)
    (inside : c ∈ part) : c ∈ whole := by
  induction whole generalizing part with
  | nil =>
    obtain rfl : part = [] := by simpa [parts] using mem
    exact inside
  | cons d rest ih =>
    rw [parts, splitOn_cons_eq_if_modifyHead] at mem
    split at mem
    · rcases mem_cons.mp mem with rfl | later
      · cases inside
      · exact mem_cons_of_mem _ (ih later inside)
    · cases hrest : rest.splitOn '/' with
      | nil => exact absurd hrest (splitOn_ne_nil _ _)
      | cons first others =>
        rw [hrest] at mem
        rcases mem_cons.mp mem with rfl | later
        · rcases mem_cons.mp inside with rfl | inside
          · exact mem_cons_self
          · exact mem_cons_of_mem _ (ih (by rw [parts, hrest]; exact mem_cons_self) inside)
        · exact mem_cons_of_mem _ (ih (by rw [parts, hrest]; exact mem_cons_of_mem _ later) inside)

section

/-- A name that was entered. -/
def Entered (p : Part) : Prop := IsName p ∧ Char.ofNat 0 ∉ p

/-- The `..` come first, of which an absolute path has none, and the level counts the names less these. -/
structure Leveled (slash : Bool) (ups : Nat) (names : List Part) (r : List Part × Int) : Prop where
  profs : r.1 = List.replicate ups ['.', '.'] ++ names
  level : r.2 = names.length - ups
  entered : ∀ p ∈ names, Entered p
  top : slash = true → ups = 0

/-- A `..` is where no result should have one, behind a name or in an absolute path. -/
def Misplaced (slash : Bool) (profs : List Part) : Prop :=
  ∃ front back, profs = front ++ ['.', '.'] :: back ∧ (slash = true ∨ ∃ p ∈ front, IsName p)

theorem Misplaced.append (misplaced : Misplaced slash profs) (more : List Part) :
    Misplaced slash (profs ++ more) := by
  obtain ⟨front, back, rfl, why⟩ := misplaced
  exact ⟨front, back ++ more, by simp, why⟩

theorem Misplaced.note (misplaced : Misplaced slash r.1) (shape : Shape r) (inside : '/' ∉ part)
    (h : note prot slash r part = some r') : Misplaced slash r'.1 := by
  by_cases same : part = [] ∨ part = ['.']
  · rw [note_same same] at h
    exact some.inj h ▸ misplaced
  by_cases up : part = ['.', '.']
  · subst up
    obtain rfl := note_up h
    split
    · obtain ⟨-, front, names, hsplit, hlevel, hnames⟩ := shape
      obtain ⟨first, last, rfl⟩ : ∃ first last, names = first ++ [last] := by
        refine (eq_nil_or_concat' names).resolve_left ?_
        rintro rfl
        simp only [length_nil] at hlevel
        omega
      have hlast : IsName last := hnames last (mem_append_right _ mem_cons_self)
      obtain ⟨before, after, whole, why⟩ := misplaced
      rcases eq_nil_or_concat' after with rfl | ⟨after, final, rfl⟩
      · have ends : ['.', '.'] = last := by
          have both := (congrArg getLast? whole).symm.trans (congrArg getLast? hsplit)
          simpa using both
        exact absurd ends.symm hlast.2.2.1
      · refine ⟨before, after, ?_, why⟩
        have regroup : before ++ ['.', '.'] :: (after ++ [final]) = (before ++ ['.', '.'] :: after) ++
          [final] := by simp
        rw [whole, regroup, dropLast_concat]
    · exact misplaced.append _
  · have name : IsName part := ⟨fun h => same (.inl h), fun h => same (.inr h), up, inside⟩
    rw [note_name name] at h
    exact some.inj h ▸ misplaced.append _

theorem Misplaced.foldlM (misplaced : Misplaced slash r.1) (shape : Shape r) (inside : ∀ p ∈ path, '/' ∉ p)
    (h : path.foldlM (Exec.note prot slash) r = some r') : Misplaced slash r'.1 := by
  induction path generalizing r with
  | nil => exact some.inj h ▸ misplaced
  | cons part rest ih =>
    obtain ⟨r₁, here, there⟩ := bind_eq_some_iff.mp h
    have inside_part := inside part mem_cons_self
    exact ih (misplaced.note shape inside_part here) (note_walk shape inside_part here).1
      (fun p hp => inside p (mem_cons_of_mem _ hp)) there

/-- The parts of a path without a zero. -/
def Plain (path : List Part) : Prop := ∀ p ∈ path, '/' ∉ p ∧ Char.ofNat 0 ∉ p

variable (leveled : Leveled slash ups names r)
include leveled

theorem Leveled.kinds : ∀ p ∈ r.1, IsName p ∨ p = ['.', '.'] := by
  intro p hp
  rw [leveled.profs] at hp
  rcases mem_append.mp hp with old | name
  · exact .inr (eq_of_mem_replicate old)
  · exact .inl (leveled.entered p name).1

theorem Leveled.shape : Shape r := by
  refine ⟨leveled.kinds, _, names, leveled.profs, ?_, fun p hp => (leveled.entered p hp).1⟩
  have level := leveled.level
  omega

theorem Leveled.name (entered : Entered part) : Leveled slash ups (names ++ [part]) (r.1 ++ [part], r.2 + 1) := by
  refine ⟨by rw [leveled.profs, append_assoc], ?_, fun p hp => ?_, leveled.top⟩
  · rw [leveled.level, length_append, length_singleton]
    push_cast
    omega
  · rcases mem_append.mp hp with old | new
    · exact leveled.entered p old
    · exact mem_singleton.mp new ▸ entered

omit leveled in
theorem Leveled.above (leveled : Leveled slash ups [] r) (relative : slash = false)
    (h : note prot slash r ['.', '.'] = some r') :
    Leveled slash (ups + 1) [] r' := by
  have level := leveled.level
  rw [length_nil] at level
  obtain rfl := note_up h
  refine ⟨?_, ?_, nofun, fun absolute => by rw [relative] at absolute; cases absolute⟩
  · have negative : ¬ (0 ≤ r.2 - 1) := by omega
    rw [if_neg negative, leveled.profs, append_nil, append_nil, replicate_succ']
  · rw [length_nil]
    push_cast
    omega

omit leveled in
theorem Leveled.back (leveled : Leveled slash ups (names ++ [part]) r) (enough : ups ≤ names.length)
    (h : note prot slash r ['.', '.'] = some r') : Leveled slash ups names r' := by
  have level := leveled.level
  rw [length_append, length_singleton] at level
  obtain rfl := note_up h
  have positive : 0 ≤ r.2 - 1 := by omega
  refine ⟨?_, ?_, fun p hp => leveled.entered p (mem_append_left _ hp), leveled.top⟩
  · rw [if_pos positive, leveled.profs, ← append_assoc, dropLast_concat]
  · omega

theorem Leveled.misplaced (few : names.length ≤ ups) (wrong : slash = true ∨ names ≠ [])
    (h : note prot slash r ['.', '.'] = some r') : Misplaced slash r'.1 := by
  have level := leveled.level
  obtain rfl := note_up h
  have negative : ¬ (0 ≤ r.2 - 1) := by omega
  refine ⟨r.1, [], by rw [if_neg negative], wrong.imp_right fun some => ?_⟩
  obtain ⟨p, hp⟩ := exists_mem_of_ne_nil names some
  exact ⟨p, by rw [leveled.profs]; exact mem_append_right _ hp, (leveled.entered p hp).1⟩

omit leveled in
theorem Plain.unslashed (plain : Plain path) : ∀ p ∈ path, '/' ∉ p := fun p hp => (plain p hp).1

/-- The whole loop keeps the `..` in front where the path is regular, and misplaces one where it is not. -/
theorem Leveled.foldlM (plain : Plain path) (h : path.foldlM (Exec.note prot slash) r = some r') :
    (Regular slash ups names.length path → ∃ ups' names', Leveled slash ups' names' r') ∧
      (¬ Regular slash ups names.length path → Misplaced slash r'.1) := by
  induction path generalizing r ups names with
  | nil =>
    cases h
    exact ⟨fun _ => ⟨ups, names, leveled⟩, fun irregular => absurd trivial irregular⟩
  | cons part rest ih =>
    obtain ⟨r₁, here, there⟩ := bind_eq_some_iff.mp h
    have others : Plain rest := fun p hp => plain p (mem_cons_of_mem _ hp)
    rw [Regular]
    by_cases same : part = [] ∨ part = ['.']
    · rw [note_same same] at here
      cases here
      rw [if_pos same]
      exact ih leveled others there
    rw [if_neg same]
    by_cases up : part = ['.', '.']
    · subst up
      have wrong : names.length ≤ ups → slash = true ∨ names ≠ [] → Misplaced slash r'.1 := fun few why =>
        (leveled.misplaced few why here).foldlM (note_walk leveled.shape (by decide) here).1 others.unslashed there
      rcases eq_nil_or_concat' names with rfl | ⟨names, last, rfl⟩
      · cases relative : slash with
        | true => exact ⟨fun regular => absurd regular.1 (by decide), fun _ =>
            relative ▸ wrong (Nat.zero_le _) (.inl relative)⟩
        | false =>
          subst relative
          obtain ⟨regular, irregular⟩ := ih (leveled.above rfl here) others there
          exact ⟨fun both => regular both.2, fun either => irregular fun rest => either ⟨rfl, rest⟩⟩
      · have length : (names ++ [last]).length = names.length + 1 := by rw [length_append, length_singleton]
        rw [length]
        by_cases enough : ups ≤ names.length
        · obtain ⟨regular, irregular⟩ := ih (leveled.back enough here) others there
          exact ⟨fun both => regular both.2, fun either => irregular fun rest =>
            either ⟨Nat.lt_succ_of_le enough, rest⟩⟩
        · refine ⟨fun both => absurd (Nat.le_of_lt_succ both.1) enough, fun _ => wrong (by omega) (.inr (by simp))⟩
    · rw [if_neg up]
      obtain ⟨inside, zero⟩ := plain part mem_cons_self
      have name : IsName part := ⟨fun h => same (.inl h), fun h => same (.inr h), up, inside⟩
      rw [note_name name] at here
      cases here
      have length : (names ++ [part]).length = names.length + 1 := by rw [length_append, length_singleton]
      rw [← length]
      exact ih (leveled.name ⟨name, zero⟩) others there

end

theorem Leveled.guarded (leveled : Leveled false 0 names r) (plain : Plain path) :
    (Stays names.length path → ∃ r' names', path.foldlM (Exec.note true false) r = some r' ∧
      Leveled false 0 names' r') ∧
      (¬ Stays names.length path → path.foldlM (Exec.note true false) r = none) := by
  induction path generalizing r names with
  | nil => exact ⟨fun _ => ⟨r, names, rfl, leveled⟩, fun leaves => absurd trivial leaves⟩
  | cons part rest ih =>
    have others : Plain rest := fun p hp => plain p (mem_cons_of_mem _ hp)
    have level := leveled.level
    rw [Stays, foldlM_cons]
    by_cases same : part = [] ∨ part = ['.']
    · rw [note_same same, if_pos same]
      exact ih leveled others
    rw [if_neg same]
    by_cases up : part = ['.', '.']
    · subst up
      rcases eq_nil_or_concat' names with rfl | ⟨names, last, rfl⟩
      · have refused : note true false r ['.', '.'] = none := by
          rw [note, if_neg (by decide), if_pos rfl]
          exact if_pos (by simp [level])
        rw [refused]
        exact ⟨fun both => absurd both.1 (lt_irrefl 0), fun _ => rfl⟩
      · have length : (names ++ [last]).length = names.length + 1 := by rw [length_append, length_singleton]
        rw [length] at level ⊢
        obtain ⟨r₁, here⟩ : ∃ r₁, note true false r ['.', '.'] = some r₁ := by
          rw [note, if_neg (by decide), if_pos rfl, if_neg]
          · exact ⟨_, rfl⟩
          · simp only [Bool.not_false, Bool.true_and, decide_eq_true_eq]
            omega
        rw [here]
        obtain ⟨stays, leaves⟩ := ih (leveled.back (Nat.zero_le _) here) others
        exact ⟨fun both => stays both.2, fun either => leaves fun rest => either ⟨Nat.succ_pos _, rest⟩⟩
    · rw [if_neg up]
      obtain ⟨inside, zero⟩ := plain part mem_cons_self
      have name : IsName part := ⟨fun h => same (.inl h), fun h => same (.inr h), up, inside⟩
      have length : (names ++ [part]).length = names.length + 1 := by rw [length_append, length_singleton]
      rw [note_name name, ← length]
      exact ih (leveled.name ⟨name, zero⟩) others

theorem note_free (free : (prot && !slash) = false) : note prot slash = note false slash := by
  funext r part
  unfold note
  rw [free, Bool.false_and, Bool.false_and, Bool.false_and]

section

variable {whole : List Char}

theorem plain_parts (whole : List Char) : Plain (parts (c_str whole)) := by
  refine fun p mem => ⟨parts_inside mem, fun zero => ?_⟩
  have inside : Char.ofNat 0 ∈ c_str whole := mem_of_mem_parts mem zero
  have nonzero := mem_takeWhile_imp inside
  cases nonzero

theorem c_str_eq (zero : Char.ofNat 0 ∉ whole) : c_str whole = whole :=
  takeWhile_eq_self_iff.mpr fun _ hc => decide_eq_true fun same => zero (same ▸ hc)

theorem zero_notMem_written (zero : ∀ p ∈ profs, Char.ofNat 0 ∉ p) : Char.ofNat 0 ∉ written slash profs := by
  cases profs with
  | nil => cases slash <;> decide
  | cons e rest =>
    rw [written, mem_append, mem_append, mem_flatMap]
    rintro ((first | first) | ⟨p, later, first⟩)
    · cases slash <;> exact absurd first (by decide)
    · exact zero e mem_cons_self first
    · rcases mem_cons.mp first with same | inside
      · exact absurd same (by decide)
      · exact zero p (mem_cons_of_mem _ later) inside

theorem foldlM_ups (unprotected : prot = false) (k n : Nat) :
    (List.replicate n ['.', '.']).foldlM (note prot slash) (List.replicate k ['.', '.'], -(k : Int)) =
      some (List.replicate (k + n) ['.', '.'], -((k + n : Nat) : Int)) := by
  induction n generalizing k with
  | zero => rfl
  | succ n ih =>
    have here : note prot slash (replicate k ['.', '.'], -(k : Int)) ['.', '.'] =
        some (replicate (k + 1) ['.', '.'], -((k + 1 : Nat) : Int)) := by
      have negative : ¬ (0 ≤ -(k : Int) - 1) := by omega
      rw [note, if_neg (by decide), if_pos rfl, unprotected, Bool.false_and, Bool.false_and, if_neg (by decide),
        if_neg negative,
        replicate_succ']
      congr 2
      push_cast
      omega
    have count : k + (n + 1) = k + 1 + n := by omega
    rw [replicate_succ, foldlM_cons, here, count]
    exact ih (k + 1)

theorem foldlM_names (all : ∀ p ∈ names, IsName p) (r : List Part × Int) :
    names.foldlM (note prot slash) r = some (r.1 ++ names, r.2 + names.length) := by
  induction names generalizing r with
  | nil => simp
  | cons name names ih =>
    rw [foldlM_cons, note_name (all name mem_cons_self)]
    refine (ih (fun p hp => all p (mem_cons_of_mem _ hp)) _).trans ?_
    rw [append_assoc, length_cons]
    congr 2
    push_cast
    omega

theorem Leveled.again (leveled : Leveled slash ups names r) (free : prot = true → slash = false → ups = 0) :
    r.1.foldlM (Exec.note prot slash) ([], 0) = some r := by
  have all : ∀ p ∈ names, IsName p := fun p hp => (leveled.entered p hp).1
  have first : (replicate ups ['.', '.']).foldlM (Exec.note prot slash) ([], 0) =
      some (replicate ups ['.', '.'], -(ups : Int)) := by
    by_cases none : ups = 0
    · subst none
      rfl
    · have unprotected : prot = false := by
        cases prot with
        | false => rfl
        | true =>
          cases slash with
          | false => exact absurd (free rfl rfl) none
          | true => exact absurd (leveled.top rfl) none
      exact (foldlM_ups unprotected 0 ups).trans (by rw [Nat.zero_add])
  have same : (replicate ups ['.', '.'] ++ names, -(ups : Int) + names.length) = r :=
    Prod.ext leveled.profs.symm (by rw [leveled.level]; dsimp only; omega)
  rw [leveled.profs, foldlM_append, first, ← same]
  exact foldlM_names all _

theorem Leveled.normal (leveled : Leveled slash ups names r) (free : prot = true → slash = false → ups = 0)
    (result : CanonizePath whole prot = some (written slash r.1)) : Normal whole prot (written slash r.1) := by
  have kinds := leveled.kinds
  have alone : components (written slash r.1) = r.1 := components_written kinds
  refine ⟨fun here => resolve_canonized here result, fun part mem => ?_,
    ⟨ups, names, ?_, fun mem => ?_, fun absolute => ?_⟩, ?_⟩
  · rw [alone] at mem
    rcases kinds part mem with name | rfl
    · exact ⟨name.1, name.2.1⟩
    · decide
  · rw [alone, leveled.profs]
  · exact (leveled.entered _ mem).1.2.2.1 rfl
  · exact leveled.top ((head_written_iff kinds).mp absolute)
  · have zero : ∀ p ∈ r.1, Char.ofNat 0 ∉ p := by
      intro p mem
      rw [leveled.profs] at mem
      rcases mem_append.mp mem with up | name
      · rw [eq_of_mem_replicate up]
        decide
      · exact (leveled.entered p name).2
    have head : decide ((written slash r.1).head? = some '/') = slash := by
      rw [Bool.eq_iff_iff, decide_eq_true_iff]
      exact head_written_iff kinds
    rw [CanonizePath_eq, c_str_eq (zero_notMem_written zero), head, foldlM_written kinds, leveled.again free]
    rfl

/-- No result is normal where one is misplaced. -/
theorem Misplaced.not_normal (misplaced : Misplaced slash profs) (kinds : ∀ p ∈ profs, IsName p ∨ p = ['.', '.']) :
    ¬ Normal whole prot (written slash profs) := by
  rintro ⟨-, -, ⟨ups, names, split, clean, top⟩, -⟩
  rw [components_written kinds] at split
  obtain ⟨front, back, rfl, why⟩ := misplaced
  have early : ∃ rest, replicate ups ['.', '.'] = front ++ ['.', '.'] :: rest := by
    rcases append_eq_append_iff.mp split with ⟨rest, first, second⟩ | ⟨rest, first, second⟩
    · cases rest with
      | nil =>
        have same : ['.', '.'] :: back = names := second
        exact absurd (same ▸ mem_cons_self) clean
      | cons p rest =>
        obtain ⟨rfl, -⟩ := cons.inj second
        exact ⟨rest, first⟩
    · exact absurd (second ▸ mem_append_right _ mem_cons_self) clean
  obtain ⟨rest, early⟩ := early
  rcases why with absolute | ⟨p, mem, name⟩
  · have none := top ((head_written_iff kinds).mpr absolute)
    subst none
    have length := congrArg length early
    simp at length
  · have up : p = ['.', '.'] := eq_of_mem_replicate (early ▸ mem_append_left _ mem)
    exact name.2.2.1 up

end

/-- `CanonizePath` of any path, protected or not. -/
theorem normalises_iff (path : List Char) (prot : Bool) : Normalises path prot ↔
      prot = true ∧ (c_str path).head? ≠ some '/' ∨
      Regular ((c_str path).head? = some '/') 0 0 (parts (c_str path)) := by
  have start (slash : Bool) : Leveled slash 0 [] ([], 0) := ⟨rfl, rfl, nofun, fun _ => rfl⟩
  have equation := CanonizePath_eq path prot
  have head : decide ((c_str path).head? = some '/') = true ↔ (c_str path).head? = some '/' := decide_eq_true_iff
  generalize decide ((c_str path).head? = some '/') = slash at equation head ⊢
  have relative : (c_str path).head? ≠ some '/' ↔ slash ≠ true := not_congr head.symm
  rw [relative]
  by_cases bound : prot = true ∧ slash ≠ true
  · refine ⟨fun _ => .inl bound, fun _ => ?_⟩
    obtain ⟨rfl, bound⟩ := bound
    obtain rfl : slash = false := by simpa using bound
    obtain ⟨stays, leaves⟩ := (start false).guarded (plain_parts path)
    refine ⟨fun canonical result => ?_, fun none => ⟨rfl, relative.mpr bound, fun inside => ?_⟩⟩
    · rw [equation] at result
      obtain ⟨r, fold, rfl⟩ := map_eq_some_iff.mp result
      have inside : Stays 0 (parts (c_str path)) := by
        by_contra outside
        cases (leaves outside).symm.trans fold
      obtain ⟨r', names, fold', leveled⟩ := stays inside
      cases fold.symm.trans fold'
      exact leveled.normal (fun _ _ => rfl) (equation.trans result)
    · obtain ⟨r', names, fold, -⟩ := stays inside
      rw [equation, fold] at none
      cases none
  · have free : (prot && !slash) = false := by
      cases prot <;> cases slash <;> simp at bound ⊢
    obtain ⟨r, fold⟩ := foldlM_unprotected slash ([], 0) (parts (c_str path))
    rw [← note_free free] at fold
    have result : CanonizePath path prot = some (written slash r.1) := by
      rw [equation, fold]
      rfl
    obtain ⟨regular, irregular⟩ := (start slash).foldlM (plain_parts _) fold
    rw [or_iff_right bound]
    constructor
    · intro normalises
      by_contra wrong
      exact (irregular wrong).not_normal (foldlM_note (start slash).shape (fun p => parts_inside) fold).1.1
        (normalises.normal _ result)
    · intro right
      obtain ⟨ups, names, leveled⟩ := regular right
      refine ⟨fun canonical same => ?_, fun none => by cases none.symm.trans result⟩
      cases result.symm.trans same
      refine leveled.normal (fun yes no => ?_) result
      rw [yes, no] at free
      cases free

/-- After `../a` a `..` takes nothing back, and `/..` is not the root. -/
theorem not_normalised : ¬ Normalises "../a/..".toList false ∧ ¬ Normalises "/..".toList false := by
  refine ⟨fun normalises => ?_, fun normalises => ?_⟩
  · have result : CanonizePath "../a/..".toList false =
      some (written false [['.', '.'], ['a'], ['.', '.']]) := by decide
    have misplaced : Misplaced false [['.', '.'], ['a'], ['.', '.']] :=
      ⟨[['.', '.'], ['a']], [], rfl, .inr ⟨['a'], by decide, by decide, by decide, by decide, by decide⟩⟩
    refine misplaced.not_normal (fun p member => ?_) (normalises.normal _ result)
    rcases mem_cons.mp member with rfl | member
    · exact .inr rfl
    · rcases mem_pair.mp member with rfl | rfl
      · exact .inl ⟨by decide, by decide, by decide, by decide⟩
      · exact .inr rfl
  · have result : CanonizePath "/..".toList false = some (written true [['.', '.']]) := by decide
    have misplaced : Misplaced true [['.', '.']] := ⟨[], [], rfl, .inl rfl⟩
    exact misplaced.not_normal (fun p member => .inr (mem_singleton.mp member)) (normalises.normal _ result)

end Dce.Exec
