import Mathlib.Data.List.Basic

/- The loops that split texts: `Split` of `utils.cc` and of `elf-dependencies.cc`, and `ParseArguments` of
`dce-application-helper.cc`. -/

namespace Dce.Splitting

open List

section

variable (text : List Char) (sep : Char)

/-- `find` from the position `pos` on, where the separator is one character; `none` is `npos`. -/
def find (pos : Nat) : Option Nat := ((text.drop pos).findIdx? (· = sep)).map (pos + ·)

def find_first_not_of (pos : Nat) : Option Nat := ((text.drop pos).findIdx? (· ≠ sep)).map (pos + ·)

/-- `none` is the exception of a position outside of the text. -/
def substr (pos count : Nat) : Option (List Char) :=
  if pos ≤ text.length then some ((text.drop pos).take count) else none

variable {text sep}

theorem find_bounds {pos next : Nat} (found : find text sep pos = some next) : pos ≤ next ∧ next < text.length := by
  obtain ⟨k, at_k, rfl⟩ := Option.map_eq_some_iff.mp found
  have inside := (findIdx?_eq_some_iff_getElem.mp at_k).1
  rw [length_drop] at inside
  omega

theorem find_first_not_of_bounds {pos next : Nat} (found : find_first_not_of text sep pos = some next) :
    pos ≤ next ∧ next < text.length ∧ text[next]? ≠ some sep := by
  obtain ⟨k, at_k, rfl⟩ := Option.map_eq_some_iff.mp found
  obtain ⟨inside, differs, -⟩ := findIdx?_eq_some_iff_getElem.mp at_k
  rw [getElem_drop] at differs
  rw [length_drop] at inside
  refine ⟨Nat.le_add_right _ _, by omega, fun same => ?_⟩
  have here := (List.getElem?_eq_some_iff.mp same).2
  simp [here] at differs

theorem find_at {pos next : Nat} (found : find text sep pos = some next) : text[next]? = some sep := by
  obtain ⟨k, at_k, rfl⟩ := Option.map_eq_some_iff.mp found
  obtain ⟨inside, same, -⟩ := findIdx?_eq_some_iff_getElem.mp at_k
  rw [getElem_drop] at same
  exact List.getElem?_eq_some_iff.mpr ⟨_, of_decide_eq_true same⟩

end

/-- The loop of both `Split`s, with what they have so far. -/
def splitLoop (input : List Char) (sep : Char) (cur : Nat) (retval : List (List Char)) : Option (List (List Char)) :=
  match found : find input sep cur with
  | some next =>
    if next = cur then splitLoop input sep (cur + 1) retval
    else (substr input cur (next - cur)).bind fun piece => splitLoop input sep (next + 1) (retval ++ [piece])
  | none =>
    if input.length ≠ cur then (substr input cur (input.length - cur)).map fun piece => retval ++ [piece]
    else some retval
termination_by input.length - cur
decreasing_by
  all_goals
    have := find_bounds found
    omega

/-- That of `utils.cc`. -/
def Split (input : List Char) (sep : Char) : Option (List (List Char)) := splitLoop input sep 0 []

/-- That of `elf-dependencies.cc`. -/
def ElfDependencies.Split (input : List Char) (sep : Char) : Option (List (List Char)) := splitLoop input sep 0 []

/-- The loop of `ParseArguments`; where `cur` is `npos`, so is `next`, and there is no substring from there. -/
def argumentsLoop (args : List Char) (cur : Option Nat) (m_args : List (List Char)) : Option (List (List Char)) :=
  match cur with
  | none => none
  | some cur =>
    match found : find args ' ' cur with
    | some next => (substr args cur (next - cur)).bind fun arg =>
      argumentsLoop args (find_first_not_of args ' ' next) (m_args ++ [arg])
    | none => (substr args cur (args.length - cur)).map fun arg => m_args ++ [arg]
termination_by cur.elim 0 fun cur => args.length + 1 - cur
decreasing_by
  have inside := find_bounds found
  cases after : find_first_not_of args ' ' next with
  | none => simp only [Option.elim]; omega
  | some c =>
    obtain ⟨later, -, differs⟩ := find_first_not_of_bounds after
    have other : c ≠ next := fun same => differs (same ▸ find_at found)
    simp only [Option.elim]
    omega

def ParseArguments (args : List Char) (m_args : List (List Char)) : Option (List (List Char)) :=
  argumentsLoop args (find_first_not_of args ' ' 0) m_args

/-- The maximal segments without a separator that are not empty, in order. -/
def segments (sep : Char) (input : List Char) : List (List Char) := (input.splitOn sep).filter (· ≠ [])

/-- All of the input is split, and nothing outside of it is looked at. -/
structure Splits (sep : Char) (input : List Char) (m_args : List (List Char)) : Prop where
  utils : Split input sep = some (segments sep input)
  dependencies : ElfDependencies.Split input sep = some (segments sep input)
  arguments : ParseArguments input m_args = some (m_args ++ segments ' ' input)

section

variable {text input args piece rest : List Char} {sep : Char} {pos cur next : Nat}

theorem segments_of_notMem (whole : sep ∉ piece) : segments sep piece = if piece = [] then [] else [piece] := by
  rw [segments, splitOn_eq_singleton whole]
  by_cases empty : piece = [] <;> simp [empty]

theorem segments_append (whole : sep ∉ piece) :
    segments sep (piece ++ sep :: rest) = (if piece = [] then [] else [piece]) ++ segments sep rest := by
  rw [← segments_of_notMem whole, segments, splitOn_append_cons_self, filter_append]
  rfl

theorem segments_cons : segments sep (sep :: rest) = segments sep rest := @segments_append [] _ _ not_mem_nil

/-- A separator that is found has a piece without one before it. -/
theorem find_some (found : find text sep pos = some next) :
    ∃ piece, text.drop pos = piece ++ sep :: text.drop (next + 1) ∧
    sep ∉ piece ∧ next = pos + piece.length := by
  obtain ⟨k, at_k, rfl⟩ := Option.map_eq_some_iff.mp found
  obtain ⟨inside, same, first⟩ := findIdx?_eq_some_iff_getElem.mp at_k
  refine ⟨(text.drop pos).take k, ?_, fun mem => ?_, ?_⟩
  · conv_lhs => rw [← take_append_drop k (text.drop pos), drop_eq_getElem_cons inside]
    rw [of_decide_eq_true same, drop_drop, Nat.add_assoc]
  · obtain ⟨j, below, at_j⟩ := mem_take_iff_getElem.mp mem
    have other := first j (by omega)
    simp [at_j] at other
  · rw [length_take, Nat.min_eq_left (Nat.le_of_lt inside)]

theorem find_none (found : find text sep pos = none) : sep ∉ text.drop pos := fun mem => by
  have nowhere := findIdx?_eq_none_iff.mp (Option.map_eq_none_iff.mp found) sep mem
  simp at nowhere

theorem substr_some (le : pos ≤ text.length) (split : text.drop pos = piece ++ rest) :
    substr text pos piece.length = some piece := by
  rw [substr, if_pos le, split, take_left]

theorem substr_rest (le : pos ≤ text.length) : substr text pos (text.length - pos) = some (text.drop pos) := by
  rw [substr, if_pos le, ← length_drop, take_length]

/-- From a position in the input on, the loop appends the segments of the rest. -/
theorem splitLoop_eq (cur : Nat) (retval : List (List Char)) (inside : cur ≤ input.length) :
    splitLoop input sep cur retval = some (retval ++ segments sep (input.drop cur)) := by
  fun_induction splitLoop input sep cur retval with
  | case1 cur retval found ih =>
    obtain ⟨piece, split, whole, at_next⟩ := find_some found
    obtain rfl : piece = [] := length_eq_zero_iff.mp (by omega)
    rw [ih (find_bounds found).2, split, segments_append whole]
    rfl
  | case2 cur retval next found ne ih =>
    obtain ⟨piece, split, whole, rfl⟩ := find_some found
    have filled : piece ≠ [] := fun empty => ne (by rw [empty]; rfl)
    rw [Nat.add_sub_cancel_left, substr_some inside split, Option.bind_some, ih _ (find_bounds found).2, split,
      segments_append whole, if_neg filled, append_assoc]
  | case3 cur retval found more =>
    rw [substr_rest inside, segments_of_notMem (find_none found), if_neg (by rw [drop_eq_nil_iff]; omega)]
    rfl
  | case4 cur retval found ended =>
    obtain rfl := Decidable.not_not.mp ended
    rw [drop_length]
    exact congrArg some (append_nil _).symm

end

section

variable {args rest : List Char} {sep : Char} {pos cur : Nat}

/-- What is skipped before the position found has only separators. -/
theorem find_first_not_of_some (found : find_first_not_of args sep pos = some cur) :
    ∃ k, args.drop pos = replicate k sep ++ args.drop cur ∧ pos ≤ cur := by
  obtain ⟨k, at_k, rfl⟩ := Option.map_eq_some_iff.mp found
  obtain ⟨inside, -, first⟩ := findIdx?_eq_some_iff_getElem.mp at_k
  refine ⟨k, ?_, Nat.le_add_right _ _⟩
  conv_lhs => rw [← take_append_drop k (args.drop pos), drop_drop]
  refine congrArg (· ++ _) (eq_replicate_iff.mpr ⟨by rw [length_take, Nat.min_eq_left (Nat.le_of_lt inside)], ?_⟩)
  intro c mem
  obtain ⟨j, below, rfl⟩ := mem_take_iff_getElem.mp mem
  simpa using first j (by omega)

theorem find_first_not_of_none (found : find_first_not_of args sep pos = none) : ∀ c ∈ args.drop pos, c = sep :=
  fun c mem => by
  simpa using findIdx?_eq_none_iff.mp (Option.map_eq_none_iff.mp found) c mem

theorem segments_replicate (k : Nat) : segments sep (replicate k sep ++ rest) = segments sep rest := by
  induction k with
  | zero => rfl
  | succ k ih =>
    rw [replicate_succ, cons_append, segments_cons, ih]

/-- Whether a text is empty or ends with a separator. -/
def closed (sep : Char) (text : List Char) : Bool := text.getLast?.all (· = sep)

theorem closed_append {front text : List Char} (filled : text ≠ []) :
    closed sep (front ++ text) = closed sep text := by
  rw [closed, getLast?_append_of_ne_nil _ filled]
  rfl

theorem closed_of_notMem {text : List Char} (filled : text ≠ []) (whole : sep ∉ text) : closed sep text = false := by
  rw [closed, getLast?_eq_some_getLast filled]
  exact decide_eq_false fun same => whole (same ▸ getLast_mem filled)

theorem closed_of_forall {text : List Char} (all : ∀ c ∈ text, c = sep) : closed sep text = true := by
  cases last : text.getLast? with
  | none => rw [closed, last]; rfl
  | some c => rw [closed, last]; exact decide_eq_true (all c (mem_of_getLast? last))

/-- Each round drops a piece and the separators after it, but for the one that the search for its end stopped at. -/
theorem argumentsLoop_eq (pos : Nat) (m_args : List (List Char)) :
    argumentsLoop args (find_first_not_of args ' ' pos) m_args =
      if closed ' ' (args.drop pos) then none else some (m_args ++ segments ' ' (args.drop pos)) := by
  cases start : find_first_not_of args ' ' pos with
  | none => rw [closed_of_forall (find_first_not_of_none start), argumentsLoop.eq_def]; rfl
  | some cur =>
    obtain ⟨-, inside, differs⟩ := find_first_not_of_bounds start
    obtain ⟨k, skipped, later⟩ := find_first_not_of_some start
    have filled : args.drop cur ≠ [] := by rw [ne_eq, drop_eq_nil_iff]; omega
    rw [skipped, closed_append filled, segments_replicate, argumentsLoop.eq_def]
    split
    · contradiction
    · next same =>
      cases same
      split
      · next next found =>
        obtain ⟨piece, split, whole, rfl⟩ := find_some found
        have some_piece : piece ≠ [] := fun empty => differs (by simpa [empty] using find_at found)
        have := length_pos_iff.mpr some_piece
        have stopped : args.drop (cur + piece.length) = ' ' :: args.drop (cur + piece.length + 1) := by
          rw [← drop_drop, split, drop_left]
        rw [Nat.add_sub_cancel_left, substr_some (Nat.le_of_lt inside) split, Option.bind_some, argumentsLoop_eq,
          stopped, split,
          closed_append (cons_ne_nil _ _), segments_append whole, if_neg some_piece, segments_cons, append_assoc]
      · next found =>
        have whole := find_none found
        rw [substr_rest (Nat.le_of_lt inside), closed_of_notMem filled whole, segments_of_notMem whole,
          if_neg filled]
        rfl
termination_by args.length - pos

end

theorem splits_iff (sep : Char) (input : List Char) (m_args : List (List Char)) :
    Splits sep input m_args ↔ input ≠ [] ∧ input.getLast? ≠ some ' ' := by
  have searched : splitLoop input sep 0 [] = some (segments sep input) := splitLoop_eq 0 [] (Nat.zero_le _)
  have parsed := @argumentsLoop_eq input 0 m_args
  rw [drop_zero] at parsed
  constructor
  · intro all
    have open_end : ¬ closed ' ' input := fun ends => by simp [ends, ← ParseArguments.eq_1, all.arguments] at parsed
    exact ⟨fun empty => open_end (empty ▸ rfl), fun last => open_end (by simp [closed, last])⟩
  · rintro ⟨filled, last⟩
    refine ⟨searched, searched, parsed.trans (if_neg fun ends => last ?_)⟩
    rw [closed, getLast?_eq_some_getLast filled] at ends
    rw [getLast?_eq_some_getLast filled, of_decide_eq_true ends]

/-- On the empty text there is no substring to be the only argument. -/
theorem not_splits : ¬ Splits ':' [] [] := fun all => by
  have thrown : ParseArguments [] [] = none := by rw [ParseArguments, argumentsLoop.eq_def]; rfl
  cases all.arguments.symm.trans thrown

end Dce.Splitting
