import Dce.Lib.Stream

/- The buffer of a pipe, `fifo-buffer.cc`. -/

namespace Dce.Pipe

open List

def minAlloc : Nat := 1024

/-- `data` is `m_buffer` up to `m_fill`; what lies behind is never read. -/
structure FifoBuffer (m_maxSize : Nat) (β : Type*) where
  data : List β
  m_read : Nat
  m_size : Nat
  read_le : m_read ≤ data.length
  fill_le : data.length ≤ m_size
  size_le : m_size ≤ m_maxSize

namespace FifoBuffer

variable {max : Nat} {β : Type*}

def new (max : Nat) (β : Type*) : FifoBuffer max β := ⟨[], 0, 0, by simp, by simp, by simp⟩

/-- What is still to be read. -/
def contents (b : FifoBuffer max β) : List β := b.data.drop b.m_read

/-- `m_size` of the next allocation for `len` more bytes. -/
def newSize (b : FifoBuffer max β) (len : Nat) : Nat :=
  let newSize := len + b.data.length
  let newSize := if newSize - b.m_size < minAlloc then b.m_size + minAlloc else newSize
  if max < newSize then max else newSize

theorem size_lt_newSize (b : FifoBuffer max β) {len : Nat} (small : b.m_size ≠ max)
    (much : b.m_size - b.data.length < len) : b.m_size < b.newSize len := by
  have size := b.size_le
  unfold newSize minAlloc
  dsimp only
  split <;> split <;> omega

theorem newSize_le (b : FifoBuffer max β) (len : Nat) : b.newSize len ≤ max := by
  unfold newSize
  dsimp only
  split <;> split <;> omega

/-- The bytes that are still to be read move to the front. -/
def compact (b : FifoBuffer max β) : FifoBuffer max β where
  data := b.contents
  m_read := 0
  m_size := b.m_size
  read_le := Nat.zero_le _
  fill_le := by
    have fill := b.fill_le
    simp only [contents, List.length_drop]
    omega
  size_le := b.size_le

/-- The bytes that are still to be read move to a new buffer. -/
def grow (b : FifoBuffer max β) (len : Nat) (small : b.m_size ≠ max)
    (much : b.m_size - b.data.length < len) : FifoBuffer max β where
  data := b.contents
  m_read := 0
  m_size := b.newSize len
  read_le := Nat.zero_le _
  fill_le := by
    have fill := b.fill_le
    have larger := b.size_lt_newSize small much
    simp only [contents, List.length_drop]
    omega
  size_le := b.newSize_le len

/-- Bytes go behind the last one. -/
def append (b : FifoBuffer max β) (buf : List β) (fits : buf.length ≤ b.m_size - b.data.length) :
    FifoBuffer max β where
  data := b.data ++ buf
  m_read := b.m_read
  m_size := b.m_size
  read_le := by
    have read := b.read_le
    simp only [List.length_append]
    omega
  fill_le := by
    have fill := b.fill_le
    simp only [List.length_append]
    omega
  size_le := b.size_le

/-- `FifoBuffer::Write`, with the count it returns; an allocation does not fail. -/
def write (b : FifoBuffer max β) (buf : List β) : FifoBuffer max β × Nat :=
  if fits : buf.length ≤ b.m_size - b.data.length then (b.append buf fits, buf.length)
  else if 0 < b.m_read then b.compact.write buf
  else if full : b.m_size = max then
    if 0 < b.m_size - b.data.length then
      (b.append (buf.take (b.m_size - b.data.length)) (by simp only [List.length_take]; omega),
        b.m_size - b.data.length)
    else (b, 0)
  else (b.grow buf.length full (by omega)).write buf
termination_by (max - b.m_size, b.m_read)
decreasing_by
  · exact Prod.Lex.right _ (by simpa [compact])
  · have larger : b.m_size < b.newSize buf.length := b.size_lt_newSize full (by omega)
    have bound := b.newSize_le buf.length
    exact Prod.Lex.left _ _ (by simp only [grow]; omega)

section

variable (b : FifoBuffer max β) (buf : List β)

theorem write_fits (fits : buf.length ≤ b.m_size - b.data.length) :
    b.write buf = (b.append buf fits, buf.length) := by
  rw [write, dif_pos fits]

section

variable (much : ¬ buf.length ≤ b.m_size - b.data.length)
include much

theorem write_compact (used : 0 < b.m_read) : b.write buf = b.compact.write buf := by
  rw [write, dif_neg much, if_pos used]

theorem write_partly (unused : b.m_read = 0) (full : b.m_size = max) (free : 0 < b.m_size - b.data.length) :
    b.write buf = (b.append (buf.take (b.m_size - b.data.length)) (by simp only [length_take]; omega),
      b.m_size - b.data.length) := by
  rw [write, dif_neg much, if_neg (by omega), dif_pos full, if_pos free]

theorem write_none (unused : b.m_read = 0) (full : b.m_size = max)
    (none : ¬ 0 < b.m_size - b.data.length) : b.write buf = (b, 0) := by
  rw [write, dif_neg much, if_neg (by omega), dif_pos full, if_neg none]

end

theorem write_grow (much : b.m_size - b.data.length < buf.length) (unused : b.m_read = 0) (small : b.m_size ≠ max) :
    b.write buf = (b.grow buf.length small much).write buf := by
  rw [write, dif_neg (by omega), if_neg (by omega), dif_neg small]

end

/-- `FifoBuffer::Read`, with the bytes that it copies out. -/
def read (b : FifoBuffer max β) (len : Nat) : FifoBuffer max β × List β :=
  let capa := b.data.length - b.m_read
  if 0 < capa then
    ({ b with
        m_read := b.m_read + min len capa
        read_le := by
          have read := b.read_le
          omega },
      (b.data.drop b.m_read).take (min len capa))
  else (b, [])

section

variable (b : FifoBuffer max β)

theorem contents_length : b.contents.length = b.data.length - b.m_read :=
  length_drop

theorem contents_length_le : b.contents.length ≤ max := by
  have fill := b.fill_le
  have size := b.size_le
  rw [contents_length]
  omega

theorem contents_append (buf : List β) (fits : buf.length ≤ b.m_size - b.data.length) :
    (b.append buf fits).contents = b.contents ++ buf :=
  drop_append_of_le_length b.read_le

end

theorem write_spec (b : FifoBuffer max β) (buf : List β) :
    (b.write buf).1.contents = Stream.push max b.contents buf ∧
      (b.write buf).2 = min buf.length (max - b.contents.length) := by
  have size := b.size_le
  have length := b.contents_length
  unfold write
  split
  · have room : buf.length ≤ max - b.contents.length := by omega
    rw [contents_append, Stream.push, take_of_length_le room]
    exact ⟨rfl, by omega⟩
  · split
    · exact write_spec b.compact buf
    · split
      · have room : max - b.contents.length = b.m_size - b.data.length := by omega
        split
        · rw [contents_append, Stream.push, room]
          exact ⟨rfl, by omega⟩
        · have taken : buf.take (max - b.contents.length) = [] := by
            rw [take_eq_nil_iff]
            omega
          rw [Stream.push, taken, append_nil]
          exact ⟨rfl, by simp only; omega⟩
      next small =>
        exact write_spec (b.grow buf.length small (by omega)) buf
termination_by (max - b.m_size, b.m_read)
decreasing_by
  · have larger : b.m_size < b.newSize buf.length := b.size_lt_newSize (by assumption) (by omega)
    exact Prod.Lex.left _ _ (by simp only [grow]; omega)
  · exact Prod.Lex.right _ (by simpa [compact])

theorem read_spec (b : FifoBuffer max β) (len : Nat) :
    (b.read len).1.contents = b.contents.drop len ∧ (b.read len).2 = b.contents.take len := by
  have length := b.contents_length
  unfold read
  dsimp only
  split
  · have shorter : b.contents.take (min len (b.data.length - b.m_read)) = b.contents.take len := by
      rw [← length]
      by_cases all : len ≤ b.contents.length
      · rw [Nat.min_eq_left all]
      · rw [Nat.min_eq_right (by omega), take_length, take_of_length_le (by omega)]
    have rest : b.contents.drop (min len (b.data.length - b.m_read)) = b.contents.drop len := by
      rw [← length]
      by_cases all : len ≤ b.contents.length
      · rw [Nat.min_eq_left all]
      · rw [Nat.min_eq_right (by omega), drop_length, drop_eq_nil_of_le (by omega)]
    exact ⟨by rw [← rest, contents, contents, drop_drop], shorter⟩
  · have empty : b.contents = [] := eq_nil_of_length_eq_zero (by omega)
    rw [empty]
    exact ⟨by simp, by simp⟩

end FifoBuffer

end Dce.Pipe
