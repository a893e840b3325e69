import Dce.Lib.Memory

/- Buffers in a memory that are filled one after the other. -/

/-- A buffer by its address and its length. -/
structure Iovec where
  iov_base : Nat
  iov_len : Nat
  deriving DecidableEq, Repr

namespace Iovec

open List

variable {m e : Memory} {v : Iovec} {iov : List Iovec} {bytes : List UInt8} {c : UInt8} {x lo : Nat}

/-- The bytes put into the buffers in their order. -/
def scatter : Memory → List Iovec → List UInt8 → Memory
  | m, [], _ => m
  | m, v :: iov, bytes => scatter (m.put v.iov_base (bytes.take v.iov_len)) iov (bytes.drop v.iov_len)

def total (iov : List Iovec) : Nat := (iov.map iov_len).sum

/-- All buffers can be written. -/
def Mapped (m : Memory) (iov : List Iovec) : Prop := ∀ v ∈ iov, m.Mapped v.iov_base v.iov_len

theorem put_nil (a : Nat) : m.put a [] = m := by
  funext x
  exact Memory.put_outside (by rw [length_nil]; omega)

theorem scatter_nil : scatter m iov [] = m := by
  induction iov generalizing m with
  | nil => rfl
  | cons v iov ih => rw [scatter, take_nil, drop_nil, put_nil, ih]

theorem scatter_first (fits : bytes.length ≤ v.iov_len) : scatter m (v :: iov) bytes = m.put v.iov_base bytes := by
  rw [scatter, take_of_length_le fits, drop_eq_nil_of_le fits, scatter_nil]

theorem total_cons : total (v :: iov) = v.iov_len + total iov := by
  rw [total, map_cons, sum_cons, total]

theorem mapped_const : Mapped (fun _ => some c) iov := fun _ _ _ _ _ => rfl

end Iovec
