import Mathlib.Data.List.Chain

/- Erasing from a list while an index goes over it: the element that moves into the place of an
erased one is not looked at. -/

namespace Dce.Erasing

open List

variable {α : Type*} (p : α → Bool)

/-- What is left of the list, from the index on. -/
def sweep : List α → List α
  | [] => []
  | [a] => if p a then [] else [a]
  | a :: b :: as => if p a then b :: sweep as else a :: sweep (b :: as)

/-- The elements that should have been erased: of the neighbours that match, each second one. -/
def overlooked : List α → List α
  | [] => []
  | [_] => []
  | a :: b :: as => if p a then (if p b then b :: overlooked as else overlooked as) else overlooked (b :: as)

/-- No two neighbours match. -/
def Apart (as : List α) : Prop := as.IsChain fun a b => ¬(p a ∧ p b)

instance (as : List α) : Decidable (Apart p as) := inferInstanceAs (Decidable (List.IsChain _ _))

variable {p}

theorem apart_cons_cons {a b : α} {as : List α} : Apart p (a :: b :: as) ↔ ¬(p a ∧ p b) ∧ Apart p (b :: as) :=
  isChain_cons_cons

theorem apart_cons_of_not {b : α} (other : p b = false) (as : List α) : Apart p (b :: as) ↔ Apart p as := by
  cases as with
  | nil => simp [Apart]
  | cons a as => simp [apart_cons_cons, other]

section

variable (as : List α)

theorem filter_sweep : (sweep p as).filter p = overlooked p as := by
  fun_induction sweep p as with
  | case1 => rfl
  | case2 a found => simp [overlooked]
  | case3 a other => simp [overlooked, other]
  | case4 a b as found ih => by_cases next : p b <;> simp [overlooked, found, next, ih]
  | case5 a b as other ih => simp [overlooked, other, ih]

theorem filter_not_sweep : (sweep p as).filter (fun a => !p a) = as.filter fun a => !p a := by
  fun_induction sweep p as with
  | case1 => rfl
  | case2 a found => simp [found]
  | case3 a other => simp [other]
  | case4 a b as found ih => by_cases next : p b <;> simp [found, next, ih]
  | case5 a b as other ih => simp_all

theorem sweep_sublist : (sweep p as).Sublist as := by
  fun_induction sweep p as with
  | case1 => exact .refl _
  | case2 a found => exact nil_sublist _
  | case3 a other => exact .refl _
  | case4 a b as found ih => exact (ih.cons_cons b).cons a
  | case5 a b as other ih => exact ih.cons_cons a

theorem overlooked_eq_nil : overlooked p as = [] ↔ Apart p as := by
  fun_induction overlooked p as with
  | case1 => simp [Apart]
  | case2 a => simp [Apart]
  | case3 a b as found next ih => simp [apart_cons_cons, found, next]
  | case4 a b as found next ih => simp [apart_cons_cons, next, ih, apart_cons_of_not]
  | case5 a b as other ih => simp [apart_cons_cons, other, ih]

theorem sweep_eq_filter : sweep p as = as.filter (fun a => !p a) ↔ Apart p as := by
  rw [← overlooked_eq_nil, ← filter_sweep]
  constructor
  · intro swept
    simp [swept]
  · intro none
    have kept : (sweep p as).filter (fun a => !p a) = sweep p as :=
      filter_eq_self.mpr fun a there => by simpa using filter_eq_nil_iff.mp none a there
    exact kept.symm.trans (filter_not_sweep as)

theorem length_sweep_lt : (sweep p as).length < as.length ↔ as.any p := by
  fun_induction sweep p as with
  | case1 => simp
  | case2 a found => simp [found]
  | case3 a other => simp [other]
  | case4 a b as found ih =>
    have short := (sweep_sublist (p := p) as).length_le
    simp only [length_cons, any_cons, found, Bool.true_or, iff_true]
    omega
  | case5 a b as other ih =>
    rw [any_cons, Bool.eq_false_iff.mpr other, Bool.false_or, ← ih]
    exact Nat.succ_lt_succ_iff

end

theorem sweep_of_none {as : List α} (none : as.any p = false) : sweep p as = as := by
  refine (sweep_sublist as).eq_of_length_le (not_lt.mp fun shorter => ?_)
  have found := (length_sweep_lt as).mp shorter
  exact absurd (none.symm.trans found) Bool.false_ne_true

end Dce.Erasing
