import Mathlib.Data.List.Nodup

/- Calls that are made inside one another, and a variable that records only one of them. -/

namespace Nested

open List

variable {ι α : Type*} {key : α → ι} {last : Option ι} {slot : Option α} {calls : List α} {x : α}

/-- `calls` are in progress, the innermost first. Where `last` is the call that was begun or taken up again last and
it is still in progress, it is the innermost one and the variable `slot` has it. -/
structure Recorded (key : α → ι) (last : Option ι) (slot : Option α) (calls : List α) : Prop where
  nodup : (calls.map key).Nodup
  innermost : ∀ x ∈ calls, last = some (key x) → slot = some x ∧ calls.head? = some x

theorem Recorded.first (nodup : (calls.map key).Nodup) : Recorded key none slot calls :=
  ⟨nodup, fun _ _ wrong => by cases wrong⟩

theorem Recorded.push (before : Recorded key last slot calls) (new : key x ∉ calls.map key) :
    Recorded key (some (key x)) (some x) (x :: calls) := by
  refine ⟨nodup_cons.mpr ⟨new, before.nodup⟩, fun y inside same => ?_⟩
  rcases mem_cons.mp inside with rfl | inside
  · exact ⟨rfl, rfl⟩
  · exact absurd (Option.some.inj same ▸ mem_map_of_mem inside) new

variable (before : Recorded key last slot (x :: calls))
include before

theorem Recorded.resume : Recorded key (some (key x)) (some x) (x :: calls) := by
  obtain ⟨new, rest⟩ := nodup_cons.mp before.nodup
  have outer : Recorded key none none calls := .first rest
  exact outer.push new

theorem Recorded.pop : Recorded key last none calls := by
  obtain ⟨new, rest⟩ := nodup_cons.mp before.nodup
  refine ⟨rest, fun y inside same => ?_⟩
  obtain ⟨-, here⟩ := before.innermost y (mem_cons_of_mem _ inside) same
  cases here
  exact absurd (mem_map_of_mem inside) new

end Nested
