import Mathlib.Algebra.BigOperators.Group.List.Basic
import Mathlib.Data.List.Nodup
import Mathlib.Order.Lattice
import Mathlib.Tactic.Abel

/- Accumulators that are kept by keys, in the order of the keys, beside one for all keys. -/

namespace Dce.Grouped

open List

variable {κ σ M : Type*} [LinearOrder κ] [AddCommMonoid M]

/-- The accumulator of a key is changed; it starts as `start` where the key is new. -/
def alter (start : σ) (k : κ) (f : σ → σ) : List (κ × σ) → List (κ × σ)
  | [] => [(k, f start)]
  | (l, s) :: m =>
    if k < l then (k, f start) :: (l, s) :: m
    else if k = l then (l, f s) :: m
    else (l, s) :: alter start k f m

/-- The accumulators of all keys together have what the one for all keys has. -/
def Balanced (μ : σ → M) (m : List (κ × σ)) (overall : σ) : Prop := (m.map fun e => μ e.2).sum = μ overall

variable {start : σ} {k : κ} {f : σ → σ} {m : List (κ × σ)} {μ : σ → M} {d : M}

theorem sum_alter (zero : μ start = 0) (shift : ∀ s, μ (f s) = μ s + d) :
    ((alter start k f m).map fun e => μ e.2).sum = (m.map fun e => μ e.2).sum + d := by
  have new : μ (f start) = d := by rw [shift, zero, zero_add]
  fun_induction alter start k f m with
  | case1 => simp [new]
  | case2 l s m less => simp only [map_cons, sum_cons, new]; abel
  | case3 s m => simp only [map_cons, sum_cons, shift]; abel
  | case4 l s m more ne ih => simp only [map_cons, sum_cons, ih]; abel

omit [LinearOrder κ] in
theorem Balanced.nil (zero : μ start = 0) : Balanced μ ([] : List (κ × σ)) start := zero.symm

theorem Balanced.alter {overall : σ} (balanced : Balanced μ m overall) (zero : μ start = 0)
    (shift : ∀ s, μ (f s) = μ s + d) : Balanced μ (alter start k f m) (f overall) := by
  rw [Balanced, sum_alter zero shift, shift, ← balanced]

theorem mem_keys_alter {l : κ} : l ∈ (alter start k f m).map Prod.fst ↔ l = k ∨ l ∈ m.map Prod.fst := by
  fun_induction Grouped.alter start k f m with
  | case1 => simp
  | case2 l' s m less => simp
  | case3 s m => simp
  | case4 l' s m more ne ih =>
    rw [map_cons, mem_cons, map_cons, mem_cons]
    tauto

theorem sorted_alter (sorted : (m.map Prod.fst).Pairwise (· < ·)) :
    ((alter start k f m).map Prod.fst).Pairwise (· < ·) := by
  fun_induction Grouped.alter start k f m with
  | case1 => simp
  | case2 l s m less =>
    rw [map_cons, pairwise_cons]
    refine ⟨fun l' there => ?_, sorted⟩
    rcases mem_cons.mp there with rfl | later
    · exact less
    · exact less.trans ((pairwise_cons.mp sorted).1 l' later)
  | case3 s m => exact sorted
  | case4 l s m more ne ih =>
    obtain ⟨first, rest⟩ := pairwise_cons.mp sorted
    rw [map_cons, pairwise_cons]
    refine ⟨fun l' there => ?_, ih rest⟩
    rcases mem_keys_alter.mp there with rfl | later
    · exact lt_of_le_of_ne (not_lt.mp more) (Ne.symm ne)
    · exact first l' later

/-- What the accumulator of a key has, if there is one. -/
def measureOf (μ : σ → M) (m : List (κ × σ)) (k : κ) : M := ((m.lookup k).map μ).getD 0

theorem measureOf_cons_self (s : σ) : measureOf μ ((k, s) :: m) k = μ s := by simp [measureOf]

theorem measureOf_cons_of_ne {l : κ} (other : k ≠ l) (s : σ) : measureOf μ ((l, s) :: m) k = measureOf μ m k := by
  simp [measureOf, lookup_cons, beq_eq_false_iff_ne.mpr other]

theorem measureOf_of_notMem (absent : k ∉ m.map Prod.fst) : measureOf μ m k = 0 := by
  induction m with
  | nil => rfl
  | cons e m ih =>
    rw [map_cons, mem_cons, not_or] at absent
    exact (measureOf_cons_of_ne absent.1 e.2).trans (ih absent.2)

theorem sum_measureOf_cons {ks : List κ} (distinct : ks.Nodup) (there : k ∈ ks) (new : measureOf μ m k = 0) (s : σ) :
    (ks.map (measureOf μ ((k, s) :: m))).sum = μ s + (ks.map (measureOf μ m)).sum := by
  obtain ⟨before, after, rfl⟩ := append_of_mem there
  have apart : k ∉ before ++ after := (nodup_cons.mp (nodup_middle.mp distinct)).1
  have others : ∀ l ∈ before ++ after, measureOf μ ((k, s) :: m) l = measureOf μ m l := by
    intro l here
    refine measureOf_cons_of_ne ?_ s
    rintro rfl
    exact apart here
  have front : before.map (measureOf μ ((k, s) :: m)) = before.map (measureOf μ m) :=
    map_congr_left fun l here => others l (mem_append_left _ here)
  have back : after.map (measureOf μ ((k, s) :: m)) = after.map (measureOf μ m) :=
    map_congr_left fun l here => others l (mem_append_right _ here)
  simp only [map_append, map_cons, sum_append, sum_cons, front, back, measureOf_cons_self, new]
  abel

theorem sum_measureOf {ks : List κ} (distinct : ks.Nodup) (once : (m.map Prod.fst).Nodup)
    (all : ∀ k ∈ m.map Prod.fst, k ∈ ks) : (ks.map (measureOf μ m)).sum = (m.map fun e => μ e.2).sum := by
  induction m with
  | nil =>
    have nothing : measureOf μ ([] : List (κ × σ)) = fun _ => 0 := rfl
    simp [nothing]
  | cons e m ih =>
    obtain ⟨new, rest⟩ := nodup_cons.mp once
    rw [sum_measureOf_cons distinct (all e.1 mem_cons_self) (measureOf_of_notMem new),
      ih rest fun k there => all k (mem_cons_of_mem _ there), map_cons, sum_cons]

end Dce.Grouped
