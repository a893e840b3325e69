import Dce.Exec.Model

/- `CanonizePath` leaves what a path means. -/

namespace Dce.Exec

open Canonizer UnixPath List Option

/-- What the loop does with a part between two slashes. -/
def note (prot slash : Bool) (r : List Part × Int) (part : Part) : Option (List Part × Int) :=
  if part = [] ∨ part = ['.'] then some r
  else if part = ['.', '.'] then
    if prot && !slash && r.2 - 1 < 0 then none
    else some (if 0 ≤ r.2 - 1 then r.1.dropLast else r.1 ++ [['.', '.']], r.2 - 1)
  else some (r.1 ++ [part], r.2 + 1)

section

variable {prot slash : Bool} {s : Canonizer}

/-- The part that the loop is in. -/
def Canonizer.pending (s : Canonizer) : Part :=
  match s.state with
  | .start => []
  | .dot => ['.']
  | .other => s.cur
  | .dotdot => ['.', '.']

/-- `cur` is a name where it is used, and else empty. -/
def Canonizer.Tidy (s : Canonizer) : Prop :=
  if s.state = .other then s.cur ≠ [] ∧ s.cur ≠ ['.'] ∧ s.cur ≠ ['.', '.'] else s.cur = []

theorem append_ne_dots {cur : List Char} {c : Char} (h : cur ≠ []) (hdot : cur ≠ ['.']) :
    cur ++ [c] ≠ [] ∧ cur ++ [c] ≠ ['.'] ∧ cur ++ [c] ≠ ['.', '.'] := by
  rcases cur with _ | ⟨a, _ | ⟨b, rest⟩⟩
  · exact absurd rfl h
  · simp only [singleton_append, ne_eq, cons.injEq, not_and]
    refine ⟨by simp, by simp, fun ha => absurd (ha ▸ rfl) hdot⟩
  · simp

theorem turn_char (prot slash : Bool) (tidy : s.Tidy) {c : Char} (inside : c ≠ '/') :
    ∃ s', turn prot slash s (some c) = some s' ∧ s'.Tidy ∧ s'.pending = s.pending ++ [c] ∧
      s'.profs = s.profs ∧ s'.level = s.level := by
  obtain ⟨state, cur, profs, level⟩ := s
  have hends : ends (some c) = false := by simp [ends, inside]
  cases state with
  | start =>
    obtain rfl : cur = [] := tidy
    by_cases hdot : c = '.'
    · exact ⟨⟨.dot, [], profs, level⟩, by simp [turn, hdot], rfl, by simp [pending, hdot], rfl, rfl⟩
    · exact ⟨⟨.other, [c], profs, level⟩, by simp [turn, hdot, hends], by simp [Tidy, hdot], rfl, rfl, rfl⟩
  | dot =>
    obtain rfl : cur = [] := tidy
    by_cases hdot : c = '.'
    · exact ⟨⟨.dotdot, [], profs, level⟩, by simp [turn, hdot], rfl, by simp [pending, hdot], rfl, rfl⟩
    · exact ⟨⟨.other, ['.', c], profs, level⟩, by simp [turn, hdot, hends], by simp [Tidy, hdot], rfl, rfl, rfl⟩
  | other =>
    obtain ⟨hne, hdot, -⟩ : cur ≠ [] ∧ cur ≠ ['.'] ∧ cur ≠ ['.', '.'] := tidy
    exact ⟨⟨.other, cur ++ [c], profs, level⟩, by simp [turn, hends], append_ne_dots hne hdot, rfl, rfl, rfl⟩
  | dotdot =>
    obtain rfl : cur = [] := tidy
    exact ⟨⟨.other, ['.', '.', c], profs, level⟩, by simp [turn, hends], by simp [Tidy], rfl, rfl, rfl⟩

theorem turn_end (tidy : s.Tidy) {crsr : Option Char} (finished : ends crsr = true) :
    turn prot slash s crsr = (note prot slash (s.profs, s.level) s.pending).map fun r => ⟨.start, [], r.1, r.2⟩ := by
  obtain ⟨state, cur, profs, level⟩ := s
  have hdot : crsr ≠ some '.' := by
    rintro rfl
    exact absurd finished (by decide)
  cases state with
  | start =>
    obtain rfl : cur = [] := tidy
    simp [turn, note, pending, hdot, finished]
  | dot =>
    obtain rfl : cur = [] := tidy
    simp [turn, note, pending, hdot, finished]
  | other =>
    obtain ⟨hne, hone, htwo⟩ : cur ≠ [] ∧ cur ≠ ['.'] ∧ cur ≠ ['.', '.'] := tidy
    simp [turn, note, pending, finished, hne, hone, htwo]
  | dotdot =>
    obtain rfl : cur = [] := tidy
    have hturn : turn prot slash ⟨.dotdot, [], profs, level⟩ crsr = if prot && !slash && level - 1 < 0 then none
        else some ⟨.start, [], if 0 ≤ level - 1 then profs.dropLast else profs ++ [['.', '.']], level - 1⟩ := by
      dsimp only [turn]
      rw [if_pos finished]
    have hnote : note prot slash (profs, level) ['.', '.'] = if prot && !slash && level - 1 < 0 then none
        else some (if 0 ≤ level - 1 then profs.dropLast else profs ++ [['.', '.']], level - 1) := by
      rw [note, if_neg nofun, if_pos rfl]
    have hpending : (Canonizer.mk .dotdot [] profs level).pending = ['.', '.'] := rfl
    rw [hturn, hpending, hnote]
    split
    · rfl
    · rfl

theorem foldlM_turn (tidy : s.Tidy) (l : List Char) : (l.map some ++ [none]).foldlM (turn prot slash) s =
      (((parts l).modifyHead (s.pending ++ ·)).foldlM (note prot slash) (s.profs, s.level)).map
        fun r => ⟨.start, [], r.1, r.2⟩ := by
  induction l generalizing s with
  | nil =>
    have hparts : (parts []).modifyHead (s.pending ++ ·) = [s.pending] := by
      simp [parts]
    rw [hparts, map_nil, nil_append, foldlM_cons, turn_end tidy rfl, foldlM_cons]
    cases note prot slash (s.profs, s.level) s.pending with
    | none => rfl
    | some r => rfl
  | cons c l ih =>
    rw [map_cons, cons_append, foldlM_cons, parts, splitOn_cons_eq_if_modifyHead]
    by_cases hslash : c = '/'
    · subst hslash
      rw [turn_end tidy rfl, if_pos (by rfl), modifyHead_cons, append_nil, foldlM_cons]
      cases note prot slash (s.profs, s.level) s.pending with
      | none => rfl
      | some r =>
        have hnext : (Canonizer.mk .start [] r.1 r.2).Tidy := rfl
        have hsame : (parts l).modifyHead ((Canonizer.mk .start [] r.1 r.2).pending ++ ·) = parts l :=
          congrFun modifyHead_id (parts l)
        exact (ih hnext).trans (by rw [hsame]; rfl)
    · obtain ⟨s', hturn, tidy', hpending, hprofs, hlevel⟩ := turn_char prot slash tidy hslash
      have hparts : ((l.splitOn '/').modifyHead (cons c)).modifyHead (s.pending ++ ·) =
          (parts l).modifyHead (s'.pending ++ ·) := by
        rw [modifyHead_modifyHead, hpending]
        refine congrArg (modifyHead · (l.splitOn '/')) (funext fun p => ?_)
        simp
      rw [hturn, if_neg (by simpa using hslash), hparts, ← hprofs, ← hlevel]
      exact ih tidy'

theorem CanonizePath_eq (path : List Char) (prot : Bool) : CanonizePath path prot =
      ((parts (c_str path)).foldlM (note prot ((c_str path).head? = some '/')) ([], 0)).map fun r =>
        written ((c_str path).head? = some '/') r.1 := by
  have tidy : (Canonizer.mk .start [] [] 0).Tidy := rfl
  have hsame : (parts (c_str path)).modifyHead ((Canonizer.mk .start [] [] 0).pending ++ ·) = parts (c_str path) :=
    congrFun modifyHead_id (parts (c_str path))
  rw [CanonizePath, foldlM_turn tidy, hsame, Option.map_map]
  rfl

end

section

variable {prot slash : Bool} {r r' : List Part × Int} {part : Part}

/-- The last parts are names, and as many as the level says; only those are ever taken back. -/
def Shape (r : List Part × Int) : Prop :=
  (∀ p ∈ r.1, IsName p ∨ p = ['.', '.']) ∧ ∃ front names, r.1 = front ++ names ∧ r.2 ≤ names.length ∧
  ∀ p ∈ names, IsName p

theorem note_same (same : part = [] ∨ part = ['.']) : note prot slash r part = some r := if_pos same

theorem note_up (h : note prot slash r ['.', '.'] = some r') :
    r' = (if 0 ≤ r.2 - 1 then r.1.dropLast else r.1 ++ [['.', '.']], r.2 - 1) := by
  rw [note, if_neg nofun, if_pos rfl] at h
  split at h
  · cases h
  · exact (some.inj h).symm

theorem note_name (name : IsName part) : note prot slash r part = some (r.1 ++ [part], r.2 + 1) := by
  rw [note, if_neg (by simp [name.1, name.2.1]), if_neg name.2.2.1]

theorem note_walk (shape : Shape r) (inside : '/' ∉ part) (h : note prot slash r part = some r') :
    Shape r' ∧ ∀ dir, walk dir r'.1 = enter (walk dir r.1) part := by
  obtain ⟨kinds, front, names, hsplit, hlevel, hnames⟩ := shape
  by_cases same : part = [] ∨ part = ['.']
  · rw [note_same same] at h
    cases h
    exact ⟨⟨kinds, front, names, hsplit, hlevel, hnames⟩, fun dir => (enter_same same).symm⟩
  by_cases up : part = ['.', '.']
  · subst up
    obtain rfl := note_up h
    split
    · -- the name that was entered last is taken back
      obtain ⟨first, last, rfl⟩ : ∃ first last, names = first ++ [last] := by
        refine (eq_nil_or_concat' names).resolve_left ?_
        rintro rfl
        simp only [length_nil] at hlevel
        omega
      have hdrop : r.1.dropLast = front ++ first := by
        rw [hsplit, ← append_assoc, dropLast_concat]
      have hwhole : r.1 = r.1.dropLast ++ [last] := by rw [hdrop, hsplit, append_assoc]
      refine ⟨⟨fun p hp => kinds p (dropLast_subset _ hp), front, first, hdrop, ?_, ?_⟩, fun dir => ?_⟩
      · simp only [length_append, length_singleton] at hlevel
        omega
      · exact fun p hp => hnames p (mem_append_left _ hp)
      · have hlast : IsName last := hnames last (mem_append_right _ (mem_singleton_self _))
        calc walk dir r.1.dropLast = (enter (walk dir r.1.dropLast) last).tail := by rw [enter_name hlast, tail_cons]
          _ = (walk dir (r.1.dropLast ++ [last])).tail := by rw [walk_append, walk_cons, walk_nil]
          _ = enter (walk dir r.1) ['.', '.'] := by rw [← hwhole, enter_up]
    · refine ⟨⟨fun p hp => ?_, r.1 ++ [['.', '.']], [], (append_nil _).symm, ?_, by simp⟩, fun dir => ?_⟩
      · rcases mem_append.mp hp with old | new
        · exact kinds p old
        · exact .inr (mem_singleton.mp new)
      · omega
      · rw [walk_append, walk_cons, walk_nil]
  · have name : IsName part := ⟨fun h => same (.inl h), fun h => same (.inr h), up, inside⟩
    rw [note_name name] at h
    cases h
    refine ⟨⟨fun p hp => ?_, front, names ++ [part], by rw [hsplit, append_assoc], ?_, fun p hp => ?_⟩,
      fun dir => ?_⟩
    · rcases mem_append.mp hp with old | new
      · exact kinds p old
      · exact .inl (mem_singleton.mp new ▸ name)
    · simp only [length_append, length_singleton]
      omega
    · rcases mem_append.mp hp with old | new
      · exact hnames p old
      · exact mem_singleton.mp new ▸ name
    · rw [walk_append, walk_cons, walk_nil]

theorem foldlM_note (shape : Shape r) {path : List Part} (inside : ∀ p ∈ path, '/' ∉ p)
    (h : path.foldlM (note prot slash) r = some r') : Shape r' ∧
    ∀ dir, walk dir r'.1 = walk (walk dir r.1) path := by
  induction path generalizing r with
  | nil =>
    cases h
    exact ⟨shape, fun dir => rfl⟩
  | cons part rest ih =>
    obtain ⟨r₁, here, there⟩ := bind_eq_some_iff.mp h
    obtain ⟨shape₁, walks⟩ := note_walk shape (inside part mem_cons_self) here
    obtain ⟨shape', later⟩ := ih shape₁ (fun p hp => inside p (mem_cons_of_mem _ hp)) there
    exact ⟨shape', fun dir => by rw [later dir, walks dir, walk_cons]⟩

theorem note_unprotected (slash : Bool) (r : List Part × Int) (part : Part) :
    ∃ r', note false slash r part = some r' := by
  rw [note]
  split
  · exact ⟨r, rfl⟩
  · split
    · exact ⟨_, rfl⟩
    · exact ⟨_, rfl⟩

theorem foldlM_unprotected (slash : Bool) (r : List Part × Int) (path : List Part) :
    ∃ r', path.foldlM (note false slash) r = some r' := by
  induction path generalizing r with
  | nil => exact ⟨r, rfl⟩
  | cons part rest ih =>
    obtain ⟨r₁, here⟩ := note_unprotected slash r part
    obtain ⟨r', there⟩ := ih r₁
    exact ⟨r', by rw [foldlM_cons, here]; exact there⟩

theorem parts_flatMap {e : Part} {rest : List Part} (first : '/' ∉ e) (others : ∀ p ∈ rest, '/' ∉ p) :
    parts (e ++ rest.flatMap fun e => '/' :: e) = e :: rest := by
  induction rest generalizing e with
  | nil =>
    rw [flatMap_nil, append_nil]
    exact splitOn_eq_singleton first
  | cons e' rest ih =>
    rw [flatMap_cons, parts, cons_append, splitOn_append_cons_self_of_not_mem first]
    exact congrArg (e :: ·) (ih (others e' mem_cons_self) fun p hp => others p (mem_cons_of_mem _ hp))

variable {path canonical : List Char}

theorem parts_inside {p : Part} (hp : p ∈ parts path) : '/' ∉ p := by
  induction path generalizing p with
  | nil =>
    obtain rfl : p = [] := by simpa [parts] using hp
    exact not_mem_nil
  | cons c path ih =>
    rw [parts, splitOn_cons_eq_if_modifyHead] at hp
    by_cases hslash : c = '/'
    · rw [if_pos (by simp [hslash])] at hp
      rcases mem_cons.mp hp with rfl | later
      · exact not_mem_nil
      · exact ih later
    · rw [if_neg (by simpa using hslash)] at hp
      cases hpath : path.splitOn '/' with
      | nil => exact absurd hpath (splitOn_ne_nil _ _)
      | cons first rest =>
        rw [hpath] at hp
        rcases mem_cons.mp hp with rfl | later
        · have hfirst : '/' ∉ first := ih (by rw [parts, hpath]; exact mem_cons_self)
          intro hmem
          rcases mem_cons.mp hmem with heq | old
          · exact hslash heq.symm
          · exact hfirst old
        · exact ih (by rw [parts, hpath]; exact mem_cons_of_mem _ later)

theorem resolve_written (here : Dir) {profs : List Part} (kinds : ∀ p ∈ profs, IsName p ∨ p = ['.', '.']) :
    resolve here (written slash profs) = walk (if slash then [] else here) profs := by
  have inside : ∀ p ∈ profs, '/' ∉ p := by
    intro p hp
    rcases kinds p hp with name | rfl
    · exact name.2.2.2
    · decide
  cases profs with
  | nil =>
    cases slash with
    | true => rfl
    | false => rfl
  | cons e rest =>
    have hparts := parts_flatMap (inside e mem_cons_self) fun p hp => inside p (mem_cons_of_mem _ hp)
    cases slash with
    | true =>
      have hpath : written true (e :: rest) = [] ++ '/' :: (e ++ rest.flatMap fun e => '/' :: e) := rfl
      rw [hpath, resolve_append, hparts]
      rfl
    | false =>
      have hpath : written false (e :: rest) = e ++ rest.flatMap fun e => '/' :: e := rfl
      have hhead : (e ++ rest.flatMap fun e => '/' :: e).head? ≠ some '/' := by
        rcases kinds e mem_cons_self with name | rfl
        · cases e with
          | nil => exact absurd rfl name.1
          | cons c e =>
            exact fun heq => name.2.2.2 (some.inj heq ▸ mem_cons_self)
        · simp
      rw [hpath, resolve, if_neg hhead, hparts]
      rfl

theorem resolve_canonized (here : Dir)
    (h : CanonizePath path prot = some canonical) : resolve here canonical = resolve here (c_str path) := by
  rw [CanonizePath_eq] at h
  obtain ⟨r, hfold, rfl⟩ := map_eq_some_iff.mp h
  have start : Shape ([], 0) := ⟨by simp, [], [], rfl, Int.le_refl 0, by simp⟩
  obtain ⟨⟨kinds, -⟩, walks⟩ := foldlM_note start (fun p => parts_inside) hfold
  rw [resolve_written here kinds, walks, resolve]
  simp

theorem CanonizePath_unprotected (path : List Char) : ∃ canonical, CanonizePath path false = some canonical := by
  obtain ⟨r, hfold⟩ := foldlM_unprotected ((c_str path).head? = some '/') ([], 0) (parts (c_str path))
  exact ⟨_, by rw [CanonizePath_eq, hfold]; rfl⟩

theorem CanonizePath_ne_nil (h : CanonizePath path prot = some canonical) : canonical ≠ [] := by
  rw [CanonizePath_eq] at h
  obtain ⟨r, hfold, rfl⟩ := map_eq_some_iff.mp h
  have start : Shape ([], 0) := ⟨by simp, [], [], rfl, Int.le_refl 0, by simp⟩
  obtain ⟨⟨kinds, -⟩, -⟩ := foldlM_note start (fun p => parts_inside) hfold
  cases hr : r.1 with
  | nil =>
    rw [written]
    split <;> simp
  | cons e rest =>
    have hne : e ≠ [] := by
      rcases kinds e (hr ▸ mem_cons_self) with name | rfl
      · exact name.1
      · simp
    rw [written]
    simp [hne]

end

end Dce.Exec
