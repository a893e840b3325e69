import Mathlib.Tactic.Common

/- Threads that sleep until something that they watch becomes ready, and steps that wake those they make it ready
for. -/

/-- Who sleeps, what each of the threads `T` watches (an `F`, for the events `M`), and what is ready. -/
structure Watchers (T F M : Type*) where
  asleep : T → Prop
  watches : T → F → M → Prop
  ready : F → M → Prop

namespace Watchers

variable {T F M : Type*} {t : T} {v w : Watchers T F M} {X Y : F → Prop}

/-- Nobody but `t` sleeps over something that is ready, where the wakes for the files in `X` are still to come. -/
def Prompt (t : T) (X : F → Prop) (v : Watchers T F M) : Prop :=
  ∀ u, u ≠ t → v.asleep u → ∀ f m, v.watches u f m → ¬ X f → ¬ v.ready f m

theorem Prompt.step (prompt : v.Prompt t X) (asleep : ∀ u, u ≠ t → w.asleep u → v.asleep u)
    (watches : ∀ u, u ≠ t → ∀ f m, w.watches u f m → v.watches u f m)
    (ready : ∀ u, u ≠ t → w.asleep u → ∀ f m, w.watches u f m → ¬ Y f → w.ready f m → ¬ X f ∧ v.ready f m) :
    w.Prompt t Y := by
  intro u other sleeps f m watched settled now
  obtain ⟨before, was⟩ := ready u other sleeps f m watched settled now
  exact prompt u other (asleep u other sleeps) f m (watches u other f m watched) before was

end Watchers
