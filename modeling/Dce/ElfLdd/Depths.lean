import Dce.ElfLdd.Model
import Dce.Lib.Dependencies

/- `CalcDepth` numbers what is not sick, and gives up on what is; on the way it may come to what was never
scanned. -/

namespace Dce.ElfLdd

open Dependencies Function List Option
open Relation (ReflTransGen TransGen)

/-- What `mapScanned` says of who needs whom. -/
def graph (m : Scanned) (p : Path) : Option (List Path) := (m.find p).map fun l => l.m_libs.map Prod.snd

variable {m : Scanned} {p q : Path} {depth depth' depth'' : Depths} {fuel : Nat} {stack : List Path}

/-- The keys of the map. -/
def keys (m : Scanned) : List Path := m.map Prod.fst

theorem find_isSome_iff : (m.find p).isSome ↔ p ∈ keys m := by
  induction m with
  | nil => simp [Scanned.find, keys]
  | cons x m ih =>
    have looks : Scanned.find (x :: m) p = if p == x.1 then some x.2 else Scanned.find m p := by
      obtain ⟨k, l⟩ := x
      unfold Scanned.find
      rw [lookup_cons]
      cases p == k <;> rfl
    have split : p ∈ keys (x :: m) ↔ p = x.1 ∨ p ∈ keys m := mem_cons
    rw [looks, split, ← ih]
    by_cases same : p = x.1
    · simp [same]
    · simp [same]

theorem length_le_of_nodup (distinct : stack.Nodup) (inside : ∀ s ∈ stack, s ∈ keys m) :
    stack.length ≤ m.length := by
  have fewer := (subperm_of_subset distinct inside).length_le
  rwa [keys, length_map] at fewer

/-- From `depth` to `depth'` there are new numbers, all of them in `new`. -/
structure Extends (m : Scanned) (new : Path → Prop) (depth depth' : Depths) : Prop where
  graded : Graded (graph m) depth'
  kept : ∀ x n, depth x = some n → depth' x = some n
  only : ∀ x, (depth' x).isSome → (depth x).isSome ∨ new x

/-- The calls that are under way, all of them for different libraries that lead to `p`, leave enough fuel for `p`. -/
structure Room (m : Scanned) (fuel : Nat) (stack : List Path) (p : Path) : Prop where
  distinct : stack.Nodup
  inside : ∀ s ∈ stack, s ∈ keys m
  above : ∀ s ∈ stack, TransGen (Needs (graph m)) s p
  enough : m.length < fuel + stack.length

theorem Room.positive (room : Room m fuel stack p) : 0 < fuel := by
  have fewer := length_le_of_nodup room.distinct room.inside
  have enough := room.enough
  omega

theorem Room.needs (room : Room m (fuel + 1) stack p) (there : p ∈ keys m) (away : p ∉ stack)
    (needs : Needs (graph m) p q) :
    Room m fuel (p :: stack) q := by
  refine ⟨nodup_cons.mpr ⟨away, room.distinct⟩, fun s mem => ?_, fun s mem => ?_, ?_⟩
  · rcases mem_cons.mp mem with rfl | mem
    · exact there
    · exact room.inside s mem
  · rcases mem_cons.mp mem with rfl | mem
    · exact .single needs
    · exact (room.above s mem).tail needs
  · have enough := room.enough
    rw [length_cons]
    omega

theorem calcLoop_healthy (deeper : Path → Depths → Option (Bool × Depths)) (libs : List Entry) (deepest : Nat)
    (graded : Graded (graph m) depth) (needed : ∀ i ∈ libs, Needs (graph m) p i.2)
    (calls : ∀ i ∈ libs, ∀ depth, Graded (graph m) depth → ∃ b depth', deeper i.2 depth = some (b, depth') ∧
      Extends m (Reaches (graph m) i.2) depth depth' ∧ (b = true → (depth' i.2).isSome)) :
    ∃ r depth', calcLoop deeper libs deepest depth = some (r, depth') ∧
    Extends m (TransGen (Needs (graph m)) p) depth depth' ∧
      (∀ n, r = some n → deepest ≤ n ∧ ∀ i ∈ libs, ∃ k, depth' i.2 = some k ∧ k < n) ∧
      ((∀ i ∈ libs, ∀ depth, Graded (graph m) depth → ∃ depth', deeper i.2 depth = some (true, depth')) →
        r ≠ none) := by
  induction libs generalizing deepest depth with
  | nil =>
    refine ⟨some deepest, depth, rfl, ⟨graded, fun _ _ => id, fun _ => .inl⟩, fun n same => ?_, fun _ => nofun⟩
    cases same
    exact ⟨le_rfl, nofun⟩
  | cons i libs ih =>
    obtain ⟨b, middle, call, first, numbered⟩ := calls i mem_cons_self depth graded
    rw [calcLoop, call]
    cases b with
    | false =>
      refine ⟨none, middle, rfl, ⟨first.graded, first.kept, fun x known => ?_⟩, nofun, fun succeeds => ?_⟩
      · exact (first.only x known).imp_right fun reach => .head' (needed i mem_cons_self) reach
      · obtain ⟨other, succeeds⟩ := succeeds i mem_cons_self depth graded
        rw [call] at succeeds
        cases succeeds
    | true =>
      obtain ⟨r, last, rest, second, numbers, whole⟩ := ih (max deepest ((middle i.2).getD 0 + 1)) first.graded
        (fun j mem => needed j (mem_cons_of_mem _ mem)) fun j mem => calls j (mem_cons_of_mem _ mem)
      refine ⟨r, last, rest, ⟨second.graded, fun x n known => second.kept x n (first.kept x n known),
        fun x known => ?_⟩,
        fun n same => ?_, fun succeeds => whole fun j mem => succeeds j (mem_cons_of_mem _ mem)⟩
      · rcases second.only x known with known | reach
        · exact (first.only x known).imp_right fun reach => .head' (needed i mem_cons_self) reach
        · exact .inr reach
      · obtain ⟨above, below⟩ := numbers n same
        refine ⟨(Nat.le_max_left _ _).trans above, fun j mem => ?_⟩
        rcases mem_cons.mp mem with rfl | mem
        · obtain ⟨k, here⟩ := isSome_iff_exists.mp (numbered rfl)
          refine ⟨k, second.kept _ k here, ?_⟩
          have bound := (Nat.le_max_right _ _).trans above
          rw [here] at bound
          exact bound
        · exact below j mem

theorem graph_libs {l : SharedLibrary} (there : m.find p = some l) : graph m p = some (l.m_libs.map Prod.snd) := by
  rw [graph, there]
  rfl

theorem needs_lib {l : SharedLibrary} (there : m.find p = some l) {i : Entry}
    (mem : i ∈ l.m_libs) : Needs (graph m) p i.2 :=
  ⟨_, graph_libs there, mem_map_of_mem mem⟩

theorem Extends.number {l : SharedLibrary} {n : Nat}
    (extends_ : Extends m (TransGen (Needs (graph m)) p) depth depth')
    (there : m.find p = some l) (unknown : depth' p = none)
    (below : ∀ i ∈ l.m_libs, ∃ k, depth' i.2 = some k ∧ k < n) :
    Extends m (Reaches (graph m) p) depth (update depth' p (some n)) := by
  have others : ∀ x k, depth' x = some k → update depth' p (some n) x = some k := by
    intro x k known
    have away : x ≠ p := by
      rintro rfl
      cases unknown.symm.trans known
    rw [update_of_ne away]
    exact known
  refine ⟨fun x k known => ?_, fun x k known => others x k (extends_.kept x k known), fun x known => ?_⟩
  · by_cases here : x = p
    · subst here
      rw [update_self] at known
      cases known
      refine ⟨_, graph_libs there, fun q mem => ?_⟩
      obtain ⟨i, inside, rfl⟩ := mem_map.mp mem
      obtain ⟨k, known, lt⟩ := below i inside
      exact ⟨k, others _ k known, lt⟩
    · rw [update_of_ne here] at known
      obtain ⟨needed, whole, below⟩ := extends_.graded x k known
      refine ⟨needed, whole, fun q mem => ?_⟩
      obtain ⟨j, known, lt⟩ := below q mem
      exact ⟨j, others q j known, lt⟩
  · by_cases here : x = p
    · exact .inr (here ▸ .refl)
    · rw [update_of_ne here] at known
      exact (extends_.only x known).imp_right TransGen.to_reflTransGen

theorem calcDepth_healthy (fuel : Nat) (graded : Graded (graph m) depth) (healthy : ¬ Sick (graph m) p) :
    ∃ b depth', calcDepth m fuel p depth = some (b, depth') ∧ Extends m (Reaches (graph m) p) depth depth' ∧
      (b = true → (depth' p).isSome) ∧ ((∃ stack, Room m fuel stack p) → b = true) := by
  induction fuel generalizing p depth with
  | zero =>
    obtain ⟨needed, whole⟩ := not_missing healthy
    obtain ⟨l, there, -⟩ := map_eq_some_iff.mp whole
    have same : Extends m (Reaches (graph m) p) depth depth := ⟨graded, fun _ _ => id, fun _ => .inl⟩
    unfold calcDepth
    rw [there]
    by_cases known : (depth p).isSome
    · exact ⟨true, depth, by simp [known], same, fun _ => known, fun _ => rfl⟩
    · refine ⟨false, depth, by simp [known], same, nofun, ?_⟩
      rintro ⟨stack, room⟩
      exact absurd room.positive (lt_irrefl 0)
  | succ fuel ih =>
    obtain ⟨needed, whole⟩ := not_missing healthy
    obtain ⟨l, there, -⟩ := map_eq_some_iff.mp whole
    have same : Extends m (Reaches (graph m) p) depth depth := ⟨graded, fun _ _ => id, fun _ => .inl⟩
    unfold calcDepth
    rw [there]
    by_cases known : (depth p).isSome
    · exact ⟨true, depth, by simp [known], same, fun _ => known, fun _ => rfl⟩
    · obtain ⟨r, after, loop, extends_, numbers, succeeds⟩ := calcLoop_healthy (p := p) (calcDepth m fuel) l.m_libs 0
        graded (fun i => needs_lib there) fun i mem depth graded => by
          obtain ⟨b, depth', call, extends_, numbered, -⟩ := ih graded (not_sick_needs healthy (needs_lib there mem))
          exact ⟨b, depth', call, extends_, numbered⟩
      simp only [known, loop]
      cases r with
      | none =>
        refine ⟨false, after, rfl, ⟨extends_.graded, extends_.kept, fun x known => ?_⟩, nofun, ?_⟩
        · exact (extends_.only x known).imp_right TransGen.to_reflTransGen
        · rintro ⟨stack, room⟩
          refine absurd rfl (succeeds fun i mem depth graded => ?_)
          have needs := needs_lib there mem
          have away : p ∉ stack := fun inside => not_cyclic healthy (room.above p inside)
          have here : p ∈ keys m := find_isSome_iff.mp (by rw [there]; rfl)
          obtain ⟨b, depth', call, -, -, enough⟩ := ih graded (not_sick_needs healthy needs)
          obtain rfl := enough ⟨_, room.needs here away needs⟩
          exact ⟨depth', call⟩
      | some n =>
        obtain ⟨-, below⟩ := numbers n rfl
        have unknown : after p = none := by
          cases now : after p with
          | none => rfl
          | some k =>
            rcases extends_.only p (by rw [now]; rfl) with before | back
            · exact absurd before known
            · exact absurd back (not_cyclic healthy)
        exact ⟨true, _, rfl, extends_.number there unknown below, fun _ => by rw [update_self]; rfl, fun _ => rfl⟩

/-- The loop over the libraries gives up, or comes to a null pointer, as the first of them does that is sick. -/
theorem calcLoop_sick (deeper : Path → Depths → Option (Bool × Depths)) {before : List Entry} {i : Entry}
    (after : List Entry)
    (deepest : Nat) (graded : Graded (graph m) depth) (needed : ∀ j ∈ before, Needs (graph m) p j.2)
    (calls : ∀ j ∈ before, ∀ depth, Graded (graph m) depth → ∃ b depth', deeper j.2 depth = some (b, depth') ∧
      Extends m (Reaches (graph m) j.2) depth depth' ∧ (b = true → (depth' j.2).isSome)) :
    ((∀ depth, Graded (graph m) depth → ∃ depth', deeper i.2 depth = some (false, depth')) →
        ∃ depth', calcLoop deeper (before ++ i :: after) deepest depth = some (none, depth')) ∧
      ((∀ j ∈ before, ∀ depth, Graded (graph m) depth → ∃ depth', deeper j.2 depth = some (true, depth')) →
        (∀ depth, Graded (graph m) depth → deeper i.2 depth = none) →
        calcLoop deeper (before ++ i :: after) deepest depth = none) := by
  induction before generalizing deepest depth with
  | nil =>
    rw [nil_append, calcLoop]
    refine ⟨fun gives_up => ?_, fun _ crashes => ?_⟩
    · obtain ⟨depth', call⟩ := gives_up depth graded
      exact ⟨depth', by rw [call]⟩
    · rw [crashes depth graded]
  | cons j before ih =>
    obtain ⟨b, middle, call, first, -⟩ := calls j mem_cons_self depth graded
    obtain ⟨gives_up, crashes⟩ := ih (max deepest ((middle j.2).getD 0 + 1)) first.graded
      (fun k mem => needed k (mem_cons_of_mem _ mem)) fun k mem => calls k (mem_cons_of_mem _ mem)
    rw [cons_append, calcLoop, call]
    cases b with
    | true => exact ⟨gives_up, fun succeeds => crashes fun k mem => succeeds k (mem_cons_of_mem _ mem)⟩
    | false =>
      refine ⟨fun _ => ⟨middle, rfl⟩, fun succeeds _ => ?_⟩
      obtain ⟨other, succeeds⟩ := succeeds j mem_cons_self depth graded
      rw [call] at succeeds
      cases succeeds

theorem entries_of_follows {l : SharedLibrary} (follows : Follows (graph m) p q) (there : m.find p = some l) :
    ∃ before i after, l.m_libs = before ++ i :: after ∧ i.2 = q ∧ ∀ j ∈ before, ¬ Sick (graph m) j.2 := by
  obtain ⟨before, after, whole, -, healthy⟩ := follows
  rw [graph_libs there] at whole
  obtain ⟨front, back, split, fronts, backs⟩ := map_eq_append_iff.mp (some.inj whole)
  obtain ⟨i, rest, rfl, same, -⟩ := map_eq_cons_iff.mp backs
  refine ⟨front, i, rest, split, same, fun j mem => healthy j.2 ?_⟩
  rw [← fronts]
  exact mem_map_of_mem mem

/-- Where the walk along the first libraries that are sick never comes to a missing one, `CalcDepth` gives up. -/
theorem calcDepth_gives_up (fuel : Nat) (graded : Graded (graph m) depth) (sick : Sick (graph m) p)
    (walks : ∀ r, ReflTransGen (Follows (graph m)) p r → ¬ Missing (graph m) r) :
    ∃ depth', calcDepth m fuel p depth = some (false, depth') := by
  have present := walks p .refl
  obtain ⟨q, follows⟩ := sick.follows present
  obtain ⟨l, there⟩ : ∃ l, m.find p = some l := by
    obtain ⟨needed, whole⟩ := ne_none_iff_exists'.mp present
    obtain ⟨l, there, -⟩ := map_eq_some_iff.mp whole
    exact ⟨l, there⟩
  have unknown : ¬ (depth p).isSome := fun known => graded.not_sick known sick
  induction fuel generalizing p q depth l with
  | zero => exact ⟨depth, by simp [calcDepth, there, unknown]⟩
  | succ fuel ih =>
    obtain ⟨before, i, after, split, same, healthy⟩ := entries_of_follows follows there
    have mem : ∀ j ∈ before, j ∈ l.m_libs := fun j inside => split ▸ mem_append_left _ inside
    have loop := (calcLoop_sick (p := p) (i := i) (calcDepth m fuel) after 0 graded
      (fun j inside => needs_lib there (mem j inside)) fun j inside depth graded => by
        obtain ⟨b, depth', call, extends_, numbered, -⟩ := calcDepth_healthy fuel graded (healthy j inside)
        exact ⟨b, depth', call, extends_, numbered⟩).1
    obtain ⟨-, -, -, sick_q, -⟩ := id follows
    have gives_up : ∀ depth, Graded (graph m) depth →
        ∃ depth', calcDepth m fuel i.2 depth = some (false, depth') := by
      intro depth graded
      rw [same]
      have further : ∀ r, ReflTransGen (Follows (graph m)) q r → ¬ Missing (graph m) r := fun r reach =>
        walks r (.head follows reach)
      have present := further q .refl
      obtain ⟨q', follows'⟩ := sick_q.follows present
      obtain ⟨needed, whole⟩ := ne_none_iff_exists'.mp present
      obtain ⟨l', there', -⟩ := map_eq_some_iff.mp whole
      exact ih graded sick_q further present q' follows' l' there' fun known => graded.not_sick known sick_q
    obtain ⟨depth', result⟩ := loop gives_up
    refine ⟨depth', ?_⟩
    unfold calcDepth
    rw [there]
    simp [unknown, split, result]

theorem calcDepth_crashes {r : Path} {n : Nat} (graded : Graded (graph m) depth)
    (walk : Walk (Follows (graph m)) n p r)
    (missing : Missing (graph m) r) (room : Room m fuel stack p)
    (longer : ∀ s ∈ stack, ∃ k, n < k ∧ Walk (Follows (graph m)) k s r) : calcDepth m fuel p depth = none := by
  induction walk generalizing fuel stack depth with
  | here p =>
    have absent : m.find p = none := map_eq_none_iff.mp missing
    unfold calcDepth
    rw [absent]
  | @next n p q r follows rest ih =>
    obtain ⟨fuel, rfl⟩ := Nat.exists_eq_succ_of_ne_zero room.positive.ne'
    have sick : Sick (graph m) p := by
      obtain ⟨-, -, -, sick_q, -⟩ := id follows
      exact sick_q.of_reaches (.single follows.needs)
    have unknown : ¬ (depth p).isSome := fun known => graded.not_sick known sick
    obtain ⟨needed, whole, -⟩ := follows.needs
    obtain ⟨l, there, -⟩ := map_eq_some_iff.mp whole
    have here : p ∈ keys m := find_isSome_iff.mp (by rw [there]; rfl)
    have away : p ∉ stack := by
      intro inside
      obtain ⟨k, lt, other⟩ := longer p inside
      have same := other.length_unique (.next follows rest) missing
      omega
    obtain ⟨before, i, after, split, same, healthy⟩ := entries_of_follows follows there
    have mem : ∀ j ∈ before, j ∈ l.m_libs := fun j inside => split ▸ mem_append_left _ inside
    have loop := (calcLoop_sick (p := p) (i := i) (calcDepth m fuel) after 0 graded
      (fun j inside => needs_lib there (mem j inside)) fun j inside depth graded => by
        obtain ⟨b, depth', call, extends_, numbered, -⟩ := calcDepth_healthy fuel graded (healthy j inside)
        exact ⟨b, depth', call, extends_, numbered⟩).2
    have succeeds : ∀ j ∈ before, ∀ depth, Graded (graph m) depth →
        ∃ depth', calcDepth m fuel j.2 depth = some (true, depth') := by
      intro j inside depth graded
      obtain ⟨b, depth', call, -, -, enough⟩ := calcDepth_healthy fuel graded (healthy j inside)
      obtain rfl := enough ⟨_, room.needs here away (needs_lib there (mem j inside))⟩
      exact ⟨depth', call⟩
    have crashes : ∀ depth, Graded (graph m) depth → calcDepth m fuel i.2 depth = none := by
      intro depth graded
      rw [same]
      refine ih graded missing (room.needs here away follows.needs) fun s inside => ?_
      rcases mem_cons.mp inside with rfl | inside
      · exact ⟨n + 1, Nat.lt_succ_self n, .next follows rest⟩
      · obtain ⟨k, lt, other⟩ := longer s inside
        exact ⟨k, by omega, other⟩
    have result := loop succeeds crashes
    unfold calcDepth
    rw [there]
    simp [unknown, split, result]

end Dce.ElfLdd
