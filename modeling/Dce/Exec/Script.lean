import Mathlib.Data.List.Basic
import Mathlib.Data.List.TakeWhile

/- The first line of a script, `utils.cc`. -/

namespace Dce.Exec

open List Option

def NUL : Char := Char.ofNat 0

/-- The first loop, from `crsr` to the end of what was read. It has no result where the function returns false. -/
def startShellName : List Char → Option (List Char)
  | [] => some []
  | c :: rest => if c = ' ' then if rest = [] then none else startShellName rest else some (c :: rest)

/-- The condition of the second loop. -/
def inShellName (c : Char) : Bool := c ≠ NUL ∧ c ≠ ' ' ∧ c ≠ '\n'

/-- The condition of the third loop. -/
def inOpt (c : Char) : Bool := c ≠ NUL ∧ c ≠ '\n'

/-- The name and the argument, or `none` where the function returns false. A file that cannot be opened is `none`. -/
def CheckShellScript (file : Option (List Char)) : Option (List Char × List Char) :=
  match file with
  | none => none
  | some bytes =>
    let firstLine := bytes.take 127
    if firstLine.length ≤ 2 ∨ firstLine[0]? ≠ some '#' ∨ firstLine[1]? ≠ some '!' then none
    else
      match startShellName (firstLine.drop 2) with
      | none => none
      | some [] => none
      | some (c :: rest) => some (c :: rest.takeWhile inShellName, (rest.dropWhile inShellName).takeWhile inOpt)

section

/-- A space, and a tab where tabs count. -/
def blank (tabs : Bool) (c : Char) : Bool := c = ' ' ∨ tabs = true ∧ c = '\t'

def line (file : List Char) : List Char := file.takeWhile (· ≠ '\n')

/-- `#!` and a name with blanks around it, or with an argument between these. -/
structure Interpreter (tabs : Bool) (l name arg : List Char) : Prop where
  split : ∃ lead gap trail, l = '#' :: '!' :: (lead ++ (name ++ (gap ++ (arg ++ trail)))) ∧
    (∀ c ∈ lead ++ gap ++ trail, blank tabs c) ∧ (arg ≠ [] → gap ≠ [])
  some_name : name ≠ []
  one_name : ∀ c ∈ name, ¬ blank tabs c
  trimmed : (∀ c, arg.head? = some c → ¬ blank tabs c) ∧ ∀ c, arg.getLast? = some c → ¬ blank tabs c

/-- What should hold of the result. -/
structure Parses (tabs : Bool) (file : List Char) : Prop where
  accepted : ∀ name arg, Interpreter tabs (line file) name arg → CheckShellScript (some file) = some (name, arg)
  rejected : (¬ ∃ name arg, Interpreter tabs (line file) name arg) → CheckShellScript (some file) = none

variable {tabs : Bool} {file rest name arg : List Char} {c : Char} {n : Nat}

theorem blank_space : blank tabs ' ' = true := by simp [blank]

theorem not_blank_nul : ¬ blank tabs NUL = true := by cases tabs <;> decide

theorem newline_notMem_line (file : List Char) : '\n' ∉ line file := fun mem => by
  have other := mem_takeWhile_imp mem
  exact absurd other (by decide)

theorem read_eq (short : (line file).length ≤ 127) :
    ∃ tail, file.take 127 = line file ++ tail ∧ (tail = [] ↔ file = line file ∨ (line file).length = 127) ∧
      ∀ d more, tail = d :: more → d = '\n' := by
  have whole : line file ++ file.dropWhile (· ≠ '\n') = file := takeWhile_append_dropWhile
  refine ⟨(file.dropWhile (· ≠ '\n')).take (127 - (line file).length), ?_, ?_, ?_⟩
  · have split : (line file ++ file.dropWhile (· ≠ '\n')).take 127 = _ := take_append
    rw [whole, take_of_length_le short] at split
    exact split
  · rw [take_eq_nil_iff]
    constructor
    · rintro (full | none)
      · exact .inr (by omega)
      · rw [none, append_nil] at whole
        exact .inl whole.symm
    · rintro (all | full)
      · right
        have none := whole.trans all
        exact append_right_eq_self.mp none
      · exact .inl (by omega)
  · intro d more some
    have first : (file.dropWhile (· ≠ '\n')).head? = Option.some d := by
      have head := congrArg head? some
      rw [head?_take] at head
      split at head
      · cases head
      · exact head
    have stops := head?_dropWhile_not (· ≠ '\n') file
    rw [first] at stops
    simpa using stops

end

section

variable {tabs : Bool} {file rest tail name arg : List Char} {c : Char} {n : Nat}

theorem exists_spaces (rest : List Char) : ∃ n more, rest = List.replicate n ' ' ++ more ∧
    more.head? ≠ some ' ' := by
  induction rest with
  | nil => exact ⟨0, [], rfl, nofun⟩
  | cons c rest ih =>
    by_cases space : c = ' '
    · obtain ⟨n, more, rfl, other⟩ := ih
      exact ⟨n + 1, more, by rw [space]; rfl, other⟩
    · exact ⟨0, c :: rest, rfl, fun same => space (some.inj same)⟩

theorem startShellName_spaces (other : c ≠ ' ') :
    startShellName (List.replicate n ' ' ++ c :: rest) = some (c :: rest) := by
  induction n with
  | zero => rw [replicate_zero, nil_append, startShellName, if_neg other]
  | succ n ih =>
    have more : replicate n ' ' ++ c :: rest ≠ [] := by simp
    rw [replicate_succ, cons_append, startShellName, if_pos rfl, if_neg more, ih]

theorem startShellName_only : startShellName (List.replicate (n + 1) ' ') = none := by
  induction n with
  | zero => rfl
  | succ n ih =>
    have more : replicate (n + 1) ' ' ≠ [] := by simp
    rw [replicate_succ, startShellName, if_pos rfl, if_neg more, ih]

theorem check_other (read : file.take 127 = tail) (other : ¬ ['#', '!'] <+: tail) :
    CheckShellScript (some file) = none := by
  unfold CheckShellScript
  dsimp only
  rw [read]
  refine if_pos ?_
  rcases tail with _ | ⟨a, _ | ⟨b, tail⟩⟩
  · exact .inl (Nat.zero_le _)
  · exact .inl (by decide : 1 ≤ 2)
  · by_cases first : a = '#'
    · refine .inr (.inr fun second => other ⟨tail, ?_⟩)
      rw [first, ← some.inj second]
      rfl
    · exact .inr (.inl fun same => first (some.inj same))

theorem check_spaces (read : file.take 127 = '#' :: '!' :: List.replicate n ' ') :
    CheckShellScript (some file) = none := by
  unfold CheckShellScript
  dsimp only
  rw [read]
  cases n with
  | zero => rfl
  | succ n =>
    rw [if_neg nofun, drop_succ_cons, drop_succ_cons, drop_zero, startShellName_only]

theorem check_name (read : file.take 127 = '#' :: '!' :: (List.replicate n ' ' ++ c :: rest)) (other : c ≠ ' ') :
    CheckShellScript (some file) = some (c :: rest.takeWhile inShellName,
      (rest.dropWhile inShellName).takeWhile inOpt) := by
  unfold CheckShellScript
  dsimp only
  rw [read, if_neg (by simp), drop_succ_cons, drop_succ_cons, drop_zero, startShellName_spaces other]

end

section

variable {tabs : Bool} {l rest first name arg : List Char} {n : Nat}

theorem Interpreter.begins (interpreter : Interpreter tabs l name arg) : ['#', '!'] <+: l := by
  obtain ⟨lead, gap, trail, rfl, -⟩ := interpreter.split
  exact ⟨_, rfl⟩

theorem Interpreter.not_spaces (interpreter : Interpreter tabs ('#' :: '!' :: List.replicate n ' ') name arg) :
    False := by
  obtain ⟨lead, gap, trail, same, -⟩ := interpreter.split
  obtain ⟨c, mem⟩ := exists_mem_of_ne_nil name interpreter.some_name
  have inside : c ∈ lead ++ (name ++ (gap ++ (arg ++ trail))) := mem_append_right _ (mem_append_left _ mem)
  rw [← (cons.inj (cons.inj same).2).2] at inside
  exact interpreter.one_name c mem (eq_of_mem_replicate inside ▸ blank_space)

theorem Interpreter.unique (interpreter : Interpreter tabs ('#' :: '!' :: (List.replicate n ' ' ++ first)) name arg)
    (one : ∀ c ∈ first, ¬ blank tabs c) : name = first ∧ arg = [] := by
  obtain ⟨lead, gap, trail, same, blanks, apart⟩ := interpreter.split
  have body : replicate n ' ' ++ first = lead ++ (name ++ (gap ++ (arg ++ trail))) := (cons.inj (cons.inj same).2).2
  have stops (l more : List Char) (none : ∀ c ∈ l, ¬ blank tabs c) (some : l ≠ []) :
      (l ++ more).dropWhile (blank tabs) = l ++ more := by
    cases l with
    | nil => exact absurd rfl some
    | cons c l => exact dropWhile_cons_of_neg (none c mem_cons_self)
  have left : (replicate n ' ' ++ first).dropWhile (blank tabs) = first := by
    rw [dropWhile_append_of_pos fun c mem => eq_of_mem_replicate mem ▸ blank_space]
    by_cases none : first = []
    · rw [none]
      rfl
    · have all := stops first [] one none
      rwa [append_nil] at all
  have right : (lead ++ (name ++ (gap ++ (arg ++ trail)))).dropWhile (blank tabs) = name ++
      (gap ++ (arg ++ trail)) := by
    rw [dropWhile_append_of_pos fun c mem => blanks c (mem_append_left _ (mem_append_left _ mem))]
    exact stops name _ interpreter.one_name interpreter.some_name
  have whole : first = name ++ (gap ++ (arg ++ trail)) := by rw [← left, body, right]
  have none (l : List Char) (inside : ∀ c ∈ l, c ∈ first) (all : ∀ c ∈ l, blank tabs c) : l = [] :=
    eq_nil_iff_forall_not_mem.mpr fun c mem => one c (inside c mem) (all c mem)
  have no_gap : gap = [] := none gap (fun c mem => by rw [whole]; simp [mem]) fun c mem => blanks c (by simp [mem])
  have no_trail : trail = [] := none trail (fun c mem => by rw [whole]; simp [mem]) fun c mem =>
    blanks c (by simp [mem])
  have no_arg : arg = [] := by
    by_contra some
    exact apart some no_gap
  rw [no_gap, no_trail, no_arg] at whole
  exact ⟨by simpa using whole.symm, no_arg⟩

theorem interpreter_alone (some : first ≠ []) (one : ∀ c ∈ first, ¬ blank tabs c) :
    Interpreter tabs ('#' :: '!' :: (List.replicate n ' ' ++ first)) first [] := by
  refine ⟨⟨replicate n ' ', [], [], by simp, fun c mem => ?_, fun some => absurd rfl some⟩, some, one, nofun, nofun⟩
  have space : c = ' ' := eq_of_mem_replicate (by simpa using mem)
  exact space ▸ blank_space

end

section

variable {tabs : Bool} {file tail l m name : List Char} {c : Char} {n : Nat}

/-- The line does not begin with `#!`, or has only spaces behind it and no newline was read, or it ends with the
name, which spaces alone precede. -/
def Simple (tabs : Bool) (file : List Char) : Prop :=
  ¬ ['#', '!'] <+: line file ∨
    (∃ n, line file = '#' :: '!' :: List.replicate n ' ' ∧ (file = line file ∨ (line file).length = 127)) ∨
    ∃ n name, line file = '#' :: '!' :: (List.replicate n ' ' ++ name) ∧ name ≠ [] ∧ (∀ c ∈ name, ¬ blank tabs c) ∧
    NUL ∉ name.tail

theorem prefix_of_append (newline : ∀ d more, tail = d :: more → d = '\n') (starts : ['#', '!'] <+: l ++ tail) :
    ['#', '!'] <+: l := by
  obtain ⟨rest, same⟩ := starts
  rcases l with _ | ⟨a, _ | ⟨b, l⟩⟩
  · exact absurd (newline '#' ('!' :: rest) same.symm) (by decide)
  · exact absurd (newline '!' rest (cons.inj same).2.symm) (by decide)
  · obtain ⟨one, later⟩ := cons.inj same
    obtain ⟨two, -⟩ := cons.inj later
    exact ⟨l, by rw [← one, ← two]; rfl⟩

theorem takeWhile_of_all {p : Char → Bool} (all : ∀ d ∈ m, p d = true)
    (newline : ∀ d more, tail = d :: more → d = '\n')
    (stops : p '\n' = false) : (m ++ tail).takeWhile p = m ∧ (m ++ tail).dropWhile p = tail := by
  rw [takeWhile_append_of_pos all, dropWhile_append_of_pos all]
  cases tail with
  | nil => simp
  | cons d more =>
    obtain rfl := newline d more rfl
    have no : ¬ p '\n' = true := by rw [stops]; decide
    rw [takeWhile_cons_of_neg no, dropWhile_cons_of_neg no, append_nil]
    exact ⟨rfl, rfl⟩

theorem parses_alone (newline : ∀ d more, tail = d :: more → d = '\n') (read : file.take 127 = line file ++ tail)
    (split : line file = '#' :: '!' :: (List.replicate n ' ' ++ c :: m)) (one : ∀ d ∈ c :: m, ¬ blank tabs d)
    (clean : NUL ∉ m) :
    Parses tabs file := by
  have other : c ≠ ' ' := fun space => one c mem_cons_self (space ▸ blank_space)
  have all : ∀ d ∈ m, inShellName d = true := by
    intro d mem
    have not_nul : d ≠ NUL := fun same => clean (same ▸ mem)
    have not_space : d ≠ ' ' := fun same => one d (mem_cons_of_mem _ mem) (same ▸ blank_space)
    have not_newline : d ≠ '\n' := by
      rintro rfl
      refine newline_notMem_line file ?_
      rw [split]
      simp [mem]
    simp [inShellName, not_nul, not_space, not_newline]
  have result : CheckShellScript (some file) = some (c :: m, []) := by
    rw [split, cons_append, cons_append, append_assoc, cons_append] at read
    rw [check_name read other]
    obtain ⟨taken, left⟩ := takeWhile_of_all all newline (by decide)
    obtain ⟨none, -⟩ := takeWhile_of_all (m := []) (p := inOpt) nofun newline (by decide)
    rw [taken, left]
    exact congrArg (fun arg => some (c :: m, arg)) none
  refine ⟨fun name arg interpreter => ?_, fun none => ?_⟩
  · rw [split] at interpreter
    obtain ⟨rfl, rfl⟩ := interpreter.unique one
    exact result
  · rw [split] at none
    exact absurd ⟨c :: m, [], interpreter_alone (cons_ne_nil c m) one⟩ none

theorem alone_of_parses (parses : Parses tabs file) (read : file.take 127 = line file ++ tail)
    (split : line file = '#' :: '!' :: (List.replicate n ' ' ++ c :: m)) (other : c ≠ ' ') :
    (∀ d ∈ c :: m, ¬ blank tabs d) ∧ NUL ∉ m := by
  have result : CheckShellScript (some file) =
      some (c :: (m ++ tail).takeWhile inShellName, ((m ++ tail).dropWhile inShellName).takeWhile inOpt) := by
    rw [split, cons_append, cons_append, append_assoc] at read
    exact check_name read other
  obtain ⟨name, arg, interpreter⟩ : ∃ name arg, Interpreter tabs (line file) name arg := by
    by_contra none
    cases (parses.rejected none).symm.trans result
  obtain ⟨name_eq, arg_eq⟩ := Prod.mk.inj (some.inj ((parses.accepted name arg interpreter).symm.trans result))
  have inside : ∀ d ∈ m.takeWhile inShellName, inShellName d = true := fun d mem => mem_takeWhile_imp mem
  have whole : m.takeWhile inShellName ++ m.dropWhile inShellName = m := takeWhile_append_dropWhile
  cases left : m.dropWhile inShellName with
  | nil =>
    rw [left, append_nil] at whole
    rw [whole] at inside
    rw [takeWhile_append_of_pos inside] at name_eq
    refine ⟨fun d mem => interpreter.one_name d ?_, fun nul => absurd (inside NUL nul) (by decide)⟩
    rw [name_eq]
    exact mem_append_left _ mem
  | cons d more =>
    have stops : inShellName d = false := by
      have head := head?_dropWhile_not inShellName m
      rw [left] at head
      simpa using head
    have no : ¬ inShellName d = true := by rw [stops]; decide
    rw [left] at whole
    have parted : m ++ tail = m.takeWhile inShellName ++ d :: (more ++ tail) := by
      rw [← cons_append, ← append_assoc, whole]
    rw [parted, takeWhile_append_of_pos inside, takeWhile_cons_of_neg no] at name_eq
    rw [parted, dropWhile_append_of_pos inside, dropWhile_cons_of_neg no] at arg_eq
    obtain ⟨lead, gap, trail, same, blanks, -⟩ := interpreter.split
    by_cases space : d = ' '
    · -- the argument begins with the space
      subst space
      exact absurd blank_space (interpreter.trimmed.1 ' ' (by rw [arg_eq]; rfl))
    · -- the name ends at a zero, which is no blank
      have nul : d = NUL := by
        by_contra other
        have newline : d = '\n' := by simpa [inShellName, other, space] using stops
        refine newline_notMem_line file ?_
        rw [split, ← whole, ← newline]
        simp
      subst nul
      have none : arg = [] := by rw [arg_eq]; rfl
      have clear (l : List Char) (all : ∀ x ∈ l, blank tabs x = true) : l.count NUL = 0 :=
        count_eq_zero.mpr fun mem => not_blank_nul (all NUL mem)
      have zeros := congrArg (count NUL) (split.symm.trans same)
      have spaces : (replicate n ' ').count NUL = 0 :=
        clear _ fun x mem => eq_of_mem_replicate mem ▸ blank_space
      have lead_none := clear lead fun x mem => blanks x (by simp [mem])
      have gap_none := clear gap fun x mem => blanks x (by simp [mem])
      have trail_none := clear trail fun x mem => blanks x (by simp [mem])
      have parts := congrArg (count NUL) whole
      rw [none, name_eq] at zeros
      simp only [count_cons, count_append, count_nil, beq_self_eq_true, if_true] at zeros parts
      omega

/-- `CheckShellScript` of any file whose first line has room. -/
theorem parses_iff (short : (line file).length ≤ 127) : Parses tabs file ↔ Simple tabs file := by
  obtain ⟨tail, read, ends, newline⟩ := read_eq short
  by_cases starts : ['#', '!'] <+: line file
  · obtain ⟨rest, split⟩ := starts
    obtain ⟨n, more, rfl, first⟩ := exists_spaces rest
    have split : line file = '#' :: '!' :: (replicate n ' ' ++ more) := split.symm
    cases more with
    | nil =>
      rw [append_nil] at split
      have never : ¬ ∃ name arg, Interpreter tabs (line file) name arg := by
        rintro ⟨name, arg, interpreter⟩
        exact (split ▸ interpreter).not_spaces
      have named : ¬ ∃ n name, line file = '#' :: '!' :: (replicate n ' ' ++ name) ∧ name ≠ [] ∧
        (∀ c ∈ name, ¬ blank tabs c) ∧
          NUL ∉ name.tail := by
        rintro ⟨k, name, other, some, one, -⟩
        exact never ⟨name, [], other ▸ interpreter_alone some one⟩
      constructor
      · intro parses
        refine .inr (.inl ⟨n, split, ends.mp ?_⟩)
        cases tail with
        | nil => rfl
        | cons d more =>
          obtain rfl := newline d more rfl
          rw [split] at read
          cases (parses.rejected never).symm.trans (check_name read (by decide))
      · rintro (other | ⟨k, -, none⟩ | wrong)
        · exact absurd ⟨_, split.symm⟩ other
        · rw [ends.mpr none, append_nil, split] at read
          exact ⟨fun name arg interpreter => absurd ⟨name, arg, interpreter⟩ never, fun _ => check_spaces read⟩
        · exact absurd wrong named
    | cons c m =>
      have other : c ≠ ' ' := fun space => first (space ▸ rfl)
      constructor
      · intro parses
        obtain ⟨one, clean⟩ := alone_of_parses parses read split other
        exact .inr (.inr ⟨n, c :: m, split, cons_ne_nil c m, one, clean⟩)
      · rintro (wrong | ⟨k, only, -⟩ | ⟨k, name, same, some, one, clean⟩)
        · exact absurd ⟨_, split.symm⟩ wrong
        · have spaces : c ∈ replicate k ' ' := by
            rw [← (cons.inj (cons.inj (only.symm.trans split)).2).2.symm]
            simp
          exact absurd (eq_of_mem_replicate spaces) other
        · cases name with
          | nil => exact absurd rfl some
          | cons d name => exact parses_alone newline read same one clean
  · have never : ¬ ∃ name arg, Interpreter tabs (line file) name arg :=
      fun ⟨_, _, interpreter⟩ => starts interpreter.begins
    refine ⟨fun _ => .inl starts, fun _ => ⟨fun name arg interpreter =>
      absurd ⟨name, arg, interpreter⟩ never, fun _ => ?_⟩⟩
    exact check_other read fun begins => starts (prefix_of_append newline begins)

theorem shell_parses : Parses true "#! /bin/sh\n".toList :=
  (parses_iff (by decide)).mpr (.inr (.inr ⟨1, "/bin/sh".toList, by decide, by decide, by simp [blank], by decide⟩))

/-- The argument keeps its blank, and a newline is taken for a name. -/
theorem not_parsed : ¬ Parses false "#!/bin/sh -x\n".toList ∧ ¬ Parses true "#!/bin/sh -x\n".toList ∧
    ¬ Parses true "#!\n".toList := by
  have result : CheckShellScript (some "#!/bin/sh -x\n".toList) = some ("/bin/sh".toList, " -x".toList) := by decide
  have interpreter (tabs : Bool) : Interpreter tabs (line "#!/bin/sh -x\n".toList) "/bin/sh".toList "-x".toList := by
    refine ⟨⟨[], [' '], [], by decide, ?_, by decide⟩, by decide, ?_, ?_, ?_⟩
    · cases tabs <;> simp [blank]
    · cases tabs <;> simp [blank]
    · rintro c ⟨⟩
      cases tabs <;> decide
    · intro c last
      obtain rfl : 'x' = c := some.inj last
      cases tabs <;> decide
  have wrong (tabs : Bool) : ¬ Parses tabs "#!/bin/sh -x\n".toList := fun parses => by
    have other := result.symm.trans (parses.accepted _ _ (interpreter tabs))
    exact absurd other (by decide)
  refine ⟨wrong false, wrong true, fun parses => ?_⟩
  have accepts : CheckShellScript (some "#!\n".toList) = some (['\n'], []) := by decide
  have never : ¬ ∃ name arg, Interpreter true (line "#!\n".toList) name arg := by
    rintro ⟨name, arg, interpreter⟩
    exact Interpreter.not_spaces (n := 0) interpreter
  cases (parses.rejected never).symm.trans accepts

end

end Dce.Exec
