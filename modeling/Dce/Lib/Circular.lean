import Mathlib.Data.Nat.ModEq

/- Searches for a number that is free, and those that go around a circle of `n` numbers from a cursor on. -/

namespace Circular

/-- The first `k` numbers from the cursor on. -/
def candidates (n c k : Nat) : List Nat := (List.range k).map fun i => (c + i) % n

variable {n c k x i j : Nat}

theorem mem_candidates : x ∈ candidates n c k ↔ ∃ i < k, (c + i) % n = x := by
  simp [candidates]

/-- How far it is from the cursor to `x`. -/
def distance (n c x : Nat) : Nat := (x + (n - c % n)) % n

theorem distance_lt (some_ : 0 < n) : distance n c x < n := Nat.mod_lt _ some_

theorem add_distance (within : x < n) : (c + distance n c x) % n = x := by
  have some_ : 0 < n := by omega
  have rest := Nat.mod_lt c some_
  have whole : c % n + (x + (n - c % n)) = x + n := by omega
  calc (c + distance n c x) % n = (c % n + (x + (n - c % n))) % n := by
        rw [distance, Nat.add_mod_mod, Nat.mod_add_mod]
    _ = x := by rw [whole, Nat.add_mod_right, Nat.mod_eq_of_lt within]

theorem injective (hi : i < n) (hj : j < n) (same : (c + i) % n = (c + j) % n) : i = j := by
  have cancelled : i ≡ j [MOD n] := Nat.ModEq.add_left_cancel' c same
  rwa [Nat.ModEq, Nat.mod_eq_of_lt hi, Nat.mod_eq_of_lt hj] at cancelled

theorem mem_candidates_pred (some_ : 0 < n) : x ∈ candidates n c (n - 1) ↔ x < n ∧ x ≠ (c + (n - 1)) % n := by
  rw [mem_candidates]
  constructor
  · rintro ⟨i, bound, rfl⟩
    refine ⟨Nat.mod_lt _ some_, fun same => ?_⟩
    have last := injective (by omega) (by omega) same
    omega
  · rintro ⟨within, other⟩
    have found : (c + distance n c x) % n = x := add_distance within
    have bound : distance n c x < n := distance_lt some_
    refine ⟨distance n c x, ?_, found⟩
    have apart : distance n c x ≠ n - 1 := fun last => other (by rw [← last, found])
    omega

/-- What a search has to come to: something that is free, or nothing where nothing is. -/
def Complete {α : Type*} (Free : α → Prop) : Option α → Prop
  | some x => Free x
  | none => ∀ x, ¬ Free x

/-- A search that leaves out one candidate is complete unless that is the only one that is free. -/
theorem complete_iff {α : Type*} {Free : α → Prop} {found : Option α} {last : α}
    (nothing : found = none ↔ ∀ x, Free x → x = last) (right : ∀ x, found = some x → Free x) :
    Complete Free found ↔ (∃ x, Free x ∧ x ≠ last) ∨ ∀ x, ¬ Free x := by
  cases found with
  | none =>
    have only := nothing.mp rfl
    constructor
    · exact .inr
    · rintro (⟨x, free, other⟩ | none_)
      · exact absurd (only x free) other
      · exact none_
  | some x =>
    have other : ∃ x, Free x ∧ x ≠ last := by
      by_contra none_
      push Not at none_
      cases nothing.mpr none_
    exact ⟨fun _ => .inl other, fun _ => right x rfl⟩

end Circular
