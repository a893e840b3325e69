import Mathlib.Algebra.Order.Ring.Int
import Mathlib.Algebra.Order.Ring.Nat
import Mathlib.Data.List.Basic

/- A byte stream from its accounts: what went in, what came out and what is held. -/

namespace Stream

variable {β : Type*}

/-- Nothing is lost, made up or moved: `sent` went in, `got` came out, `held` is under way. -/
def Conserved (sent got held : List β) : Prop := sent = got ++ held

variable {sent got held : List β}

theorem Conserved.nil : Conserved ([] : List β) [] [] := rfl

section

variable (conserved : Conserved sent got held)
include conserved

theorem Conserved.push (new : List β) : Conserved (sent ++ new) got (held ++ new) := by
  unfold Conserved at *
  rw [conserved, List.append_assoc]

theorem Conserved.pop (n : Nat) : Conserved sent (got ++ held.take n) (held.drop n) := by
  unfold Conserved at *
  rw [List.append_assoc, List.take_append_drop, conserved]

theorem Conserved.prefix_sent : got <+: sent :=
  ⟨held, conserved.symm⟩

end

/-- A queue that holds at most `max` takes of `new` what there is room for. -/
def push (max : Nat) (held new : List β) : List β := held ++ new.take (max - held.length)

end Stream
