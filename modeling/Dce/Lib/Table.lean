import Mathlib.Algebra.Order.Ring.Int
import Mathlib.Algebra.Order.Ring.Nat
import Mathlib.Data.List.AList

/- Finite maps whose values are counted: how many of them have a property. -/

abbrev Table (κ α : Type*) := AList fun _ : κ => α

namespace Table

open AList List Option

variable {κ α : Type*} [DecidableEq κ] {m : Table κ α} {k l : κ} {a b : α} {p : α → Bool}

/-- How many keys have a value with `p`. -/
def tally (p : α → Bool) (m : Table κ α) : Nat := m.entries.countP fun e => p e.2

section

variable (look : m.lookup k = some a)
include look

theorem mem_of_lookup : k ∈ m :=
  lookup_isSome.mp (look ▸ rfl)

omit look in
theorem tally_pos_iff : 0 < tally p m ↔ ∃ k a, m.lookup k = some a ∧ p a = true := by
  rw [tally, countP_pos_iff]
  constructor
  · rintro ⟨⟨k, a⟩, mem, holds⟩
    exact ⟨k, a, mem_lookup_iff.mpr mem, holds⟩
  · rintro ⟨k, a, look, holds⟩
    exact ⟨⟨k, a⟩, mem_lookup_iff.mp look, holds⟩

theorem tally_pos (holds : p a = true) : 0 < tally p m :=
  tally_pos_iff.mpr ⟨k, a, look, holds⟩

theorem tally_erase : tally p m = tally p (m.erase k) + if p a then 1 else 0 := by
  obtain ⟨b, before, after, -, whole, rest⟩ := exists_of_kerase (mem_of_lookup look)
  have same : b = a := by
    have mem : (⟨k, b⟩ : Sigma fun _ : κ => α) ∈ m.entries := by simp [whole]
    exact some.inj ((mem_lookup_iff.mpr mem).symm.trans look)
  subst same
  show countP _ m.entries = countP _ (m.entries.kerase k) + _
  rw [whole] at rest ⊢
  rw [rest, countP_append, countP_append, countP_cons]
  dsimp only
  omega

omit look in
theorem tally_insert (absent : k ∉ m) : tally p (m.insert k a) = tally p m + if p a then 1 else 0 := by
  rw [tally, entries_insert_of_notMem absent, countP_cons]
  rfl

omit look in
theorem tally_put : tally p (m.insert k a) = tally p (m.erase k) + if p a then 1 else 0 := by
  rw [tally, entries_insert, countP_cons]
  rfl

theorem tally_replace (same : p b = p a) : tally p (m.insert k b) = tally p m := by
  rw [tally_erase (p := p) look, tally, entries_insert, countP_cons, same]
  rfl

omit look in
theorem two_le_tally (ne : k ≠ l) (first : m.lookup k = some a) (second : m.lookup l = some b)
    (holds : p a = true) (also : p b = true) : 2 ≤ tally p m := by
  have rest : 0 < tally p (m.erase k) :=
    tally_pos ((lookup_erase_ne ne.symm).trans second) also
  rw [tally_erase first, if_pos holds]
  omega

theorem exists_other (two : 2 ≤ tally p m) : ∃ l b, l ≠ k ∧ m.lookup l = some b ∧ p b = true := by
  have rest : 0 < tally p (m.erase k) := by
    have whole := tally_erase (p := p) look
    split at whole <;> omega
  obtain ⟨l, b, second, also⟩ := tally_pos_iff.mp rest
  have ne : l ≠ k := fun same => by
    rw [same, lookup_erase] at second
    cases second
  exact ⟨l, b, ne, (lookup_erase_ne ne).symm.trans second, also⟩

end

section

variable {l : List (κ × α)} (look : κ → Option α)

/-- The entries of a list one after the other; the last one of a key stays. -/
def insertAll (l : List (κ × α)) (m : Table κ α) : Table κ α := l.foldl (fun m e => m.insert e.1 e.2) m

variable (known : ∀ k a, m.lookup k = some a → look k = some a) (agree : ∀ e ∈ l, look e.1 = some e.2)
include known agree

theorem lookup_insertAll (found : (insertAll l m).lookup k = some a) : look k = some a := by
  induction l generalizing m with
  | nil => exact known k a found
  | cons e l ih =>
    refine ih (fun k' a' inside => ?_) (fun e' mem => agree e' (mem_cons_of_mem _ mem)) found
    by_cases same : k' = e.1
    · subst same
      rw [lookup_insert] at inside
      exact some.inj inside ▸ agree e mem_cons_self
    · exact known k' a' ((lookup_insert_ne same).symm.trans inside)

omit known agree in
theorem tally_insert_le (same : ∀ b, m.lookup k = some b → b = a) :
    tally p (m.insert k a) ≤ tally p m + if p a then 1 else 0 := by
  cases found : m.lookup k with
  | none => exact (tally_insert (lookup_eq_none.mp found)).le
  | some b => exact (tally_replace found (same b found ▸ rfl)).le.trans (Nat.le_add_right ..)

theorem tally_insertAll_le : tally p (insertAll l m) ≤ tally p m + l.countP fun e => p e.2 := by
  induction l generalizing m with
  | nil => exact le_rfl
  | cons e l ih =>
    have here := agree e mem_cons_self
    have first : tally p (m.insert e.1 e.2) ≤ tally p m + if p e.2 then 1 else 0 :=
      tally_insert_le fun b inside => some.inj ((known _ _ inside).symm.trans here)
    have rest := ih (m := m.insert e.1 e.2)
      (fun _ _ inside => lookup_insertAll look (l := [e]) known (by simpa using here) inside)
      (fun e' mem => agree e' (mem_cons_of_mem _ mem))
    rw [countP_cons]
    exact rest.trans (by omega)

/-- Each entry of the list counts exactly if no key is there already. -/
theorem tally_insertAll_iff [DecidableEq α] : (∀ a, tally (fun b => decide (b = a)) (insertAll l m) =
      tally (fun b => decide (b = a)) m + l.countP fun e => decide (e.2 = a)) ↔
    (l.map Prod.fst).Nodup ∧ ∀ e ∈ l, e.1 ∉ m := by
  induction l generalizing m with
  | nil => simp [insertAll]
  | cons e l ih =>
    have here := agree e mem_cons_self
    have rest : ∀ e' ∈ l, look e'.1 = some e'.2 := fun e' mem => agree e' (mem_cons_of_mem _ mem)
    have known' : ∀ k a, (m.insert e.1 e.2).lookup k = some a → look k = some a := fun _ _ inside =>
      lookup_insertAll look (l := [e]) known (by simpa using here) inside
    have split : ∀ a, insertAll (e :: l) m = insertAll l (m.insert e.1 e.2) ∧
        (e :: l).countP (fun e => decide (e.2 = a)) = l.countP (fun e => decide (e.2 = a)) + if e.2 = a then 1
        else 0 :=
      fun a => ⟨rfl, by rw [countP_cons]; simp⟩
    have fresh : e.1 ∉ m → ∀ a, tally (fun b => decide (b = a)) (m.insert e.1 e.2) =
        tally (fun b => decide (b = a)) m + if e.2 = a then 1 else 0 := fun absent a => by
      rw [tally_insert absent]; simp
    constructor
    · intro exact_counts
      have absent : e.1 ∉ m := by
        intro present
        obtain ⟨b, found⟩ := isSome_iff_exists.mp (lookup_isSome.mpr present)
        have same : b = e.2 := some.inj ((known _ _ found).symm.trans here)
        have still := tally_replace (p := fun b => decide (b = e.2)) found (b := e.2) (by rw [same])
        have most := tally_insertAll_le look (p := fun b => decide (b = e.2)) known' rest
        have whole := exact_counts e.2
        rw [(split e.2).1, (split e.2).2, if_pos rfl] at whole
        omega
      obtain ⟨nodup, apart⟩ := (ih known' rest).mp fun a => by
        have whole := exact_counts a
        rw [(split a).1, (split a).2] at whole
        rw [fresh absent a]
        omega
      refine ⟨?_, ?_⟩
      · rw [map_cons, nodup_cons]
        refine ⟨fun again => ?_, nodup⟩
        obtain ⟨e', mem, same⟩ := mem_map.mp again
        exact apart e' mem ((mem_insert _).mpr (.inl same))
      · intro e' mem
        rcases mem_cons.mp mem with rfl | mem
        · exact absent
        · exact fun inside => apart e' mem ((mem_insert _).mpr (.inr inside))
    · rintro ⟨nodup, apart⟩ a
      rw [map_cons, nodup_cons] at nodup
      have absent := apart e mem_cons_self
      have later := (ih known' rest).mpr ⟨nodup.2, fun e' mem inside => ?_⟩ a
      · rw [(split a).1, (split a).2, later, fresh absent a]
        omega
      · rcases (mem_insert _).mp inside with same | inside
        · exact nodup.1 (mem_map.mpr ⟨e', mem, same⟩)
        · exact apart e' (mem_cons_of_mem _ mem) inside

end

end Table
