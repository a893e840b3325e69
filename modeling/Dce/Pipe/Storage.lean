import Dce.Pipe.FifoBuffer

/- The offsets of `fifo-buffer.cc` into its allocation, and the bounded queue that they make. -/

namespace Dce.Pipe

open List Option

/-- The members of a `FifoBuffer`, of which nothing is known. No size wraps. -/
structure Storage (β : Type*) where
  m_maxSize : Nat
  m_buffer : List β
  m_read : Nat
  m_fill : Nat
  m_size : Nat

/-- A call of `FifoBuffer::Write` returns, or ends in another one. -/
inductive Storage.Turn (β : Type*)
  | returns (b : Storage β) (count : Nat)
  | again (b : Storage β)

inductive Storage.Call (β : Type*)
  | Write (buf : List β)
  | Read (len : Nat)

inductive Storage.Result (β : Type*)
  | count (n : Nat)
  | bytes (buf : List β)

/-- An allocation of `n` bytes, in which there is anything. -/
def malloc {β : Type*} (garbage : Nat → Nat → β) (n : Nat) : List β := (List.range n).map (garbage n)

/-- `none` where a byte of the allocation `dst` is meant that it does not have. -/
def memcpy {β : Type*} (dst : List β) (i : Nat) (src : List β) : Option (List β) :=
  if i + src.length ≤ dst.length then some (dst.take i ++ src ++ dst.drop (i + src.length)) else none

def bytes {β : Type*} (src : List β) (i n : Nat) : Option (List β) :=
  if i + n ≤ src.length then some ((src.drop i).take n) else none

namespace Storage

section

variable {β : Type*} (garbage : Nat → Nat → β)

def new (mxSz : Nat) : Storage β := ⟨mxSz, [], 0, 0, 0⟩

/-- `memcpy (m_buffer + m_fill, buf, len); m_fill += len;` -/
def fill (b : Storage β) (buf : List β) : Option (Storage β) := do
  let m_buffer ← memcpy b.m_buffer b.m_fill buf
  pure { b with m_buffer := m_buffer, m_fill := b.m_fill + buf.length }

/-- What is still to be read goes to the front of `dst`. -/
def move (b : Storage β) (dst : List β) : Option (List β) := do
  let unread ← bytes b.m_buffer b.m_read (b.m_fill - b.m_read)
  memcpy dst 0 unread

/-- `if (m_fill > m_read) memmove (m_buffer, m_buffer + m_read, m_fill - m_read);` -/
def compact (b : Storage β) : Option (List β) :=
  if b.m_read < b.m_fill then b.move b.m_buffer else some b.m_buffer

def newSize (b : Storage β) (len : Nat) : Nat :=
  let newSize := len + b.m_fill
  let newSize := if newSize - b.m_size < minAlloc then b.m_size + minAlloc else newSize
  if b.m_maxSize < newSize then b.m_maxSize else newSize

/-- One call of `FifoBuffer::Write`. -/
def turn (b : Storage β) (buf : List β) : Option (Turn β) :=
  let capa := b.m_size - b.m_fill
  if buf.length ≤ capa then do
    let b ← b.fill buf
    pure (.returns b buf.length)
  else if 0 < b.m_read ∧ b.m_size ≤ b.m_maxSize then do
    let m_buffer ← b.compact
    pure (.again { b with m_buffer := m_buffer, m_fill := b.m_fill - b.m_read, m_read := 0 })
  else if b.m_size = b.m_maxSize then
    if 0 < capa then do
      let b ← b.fill (buf.take capa)
      pure (.returns b capa)
    else pure (.returns b 0)
  else do
    let newSize := b.newSize buf.length
    let newBuf ← b.move (malloc garbage newSize)
    pure (.again { b with m_buffer := newBuf, m_fill := b.m_fill - b.m_read, m_read := 0, m_size := newSize })

/-- `FifoBuffer::Write`, where `depth` calls of it fit into each other. -/
def Write : Nat → Storage β → List β → Option (Storage β × Nat)
  | 0, _, _ => none
  | depth + 1, b, buf => do
    match ← b.turn garbage buf with
    | .returns b count => pure (b, count)
    | .again b => Write depth b buf

def Read (b : Storage β) (len : Nat) : Option (Storage β × List β) :=
  let capa := b.m_fill - b.m_read
  if 0 < capa then do
    let l := min len capa
    let buf ← bytes b.m_buffer b.m_read l
    pure ({ b with m_read := b.m_read + l }, buf)
  else pure (b, [])

def call (depth : Nat) (b : Storage β) : Call β → Option (Storage β × Result β)
  | .Write buf => do
    let (b, n) ← b.Write garbage depth buf
    pure (b, .count n)
  | .Read len => do
    let (b, buf) ← b.Read len
    pure (b, .bytes buf)

def run (depth : Nat) : List (Call β) → Storage β → Option (Storage β × List (Result β))
  | [], b => pure (b, [])
  | c :: calls, b => do
    let (b, result) ← b.call garbage depth c
    let (b, results) ← run depth calls b
    pure (b, result :: results)

end

/-- The offsets are in order. -/
structure Within {β : Type*} (b : Storage β) : Prop where
  read_le : b.m_read ≤ b.m_fill
  fill_le : b.m_fill ≤ b.m_size
  size_le : b.m_size ≤ b.m_maxSize
  allocated : b.m_buffer.length = b.m_size

/-- What is still to be read. -/
def unread {β : Type*} (b : Storage β) : List β := (b.m_buffer.take b.m_fill).drop b.m_read

/-- `b'` is met in a call of `Write` on `b`. -/
def Meets {β : Type*} (garbage : Nat → Nat → β) (buf : List β) (b b' : Storage β) : Prop :=
  Relation.ReflTransGen (fun x y => x.turn garbage buf = some (.again y)) b b'

end Storage

/-- A queue of at most `max` bytes. -/
def queueCall {β : Type*} (max : Nat) (q : List β) : Storage.Call β → List β × Storage.Result β
  | .Write buf => (q ++ buf.take (min buf.length (max - q.length)), .count (min buf.length (max - q.length)))
  | .Read len => (q.drop (min len q.length), .bytes (q.take (min len q.length)))

def queueRun {β : Type*} (max : Nat) : List (Storage.Call β) → List β → List β × List (Storage.Result β)
  | [], q => (q, [])
  | c :: calls, q =>
    let rest := queueRun max calls (queueCall max q c).1
    (rest.1, (queueCall max q c).2 :: rest.2)

section

variable {β : Type*} {dst src : List β} {i n : Nat}

section

variable (fits : i + src.length ≤ dst.length)
include fits

theorem memcpy_eq : memcpy dst i src = some (dst.take i ++ src ++ dst.drop (i + src.length)) := if_pos fits

theorem length_memcpy : (dst.take i ++ src ++ dst.drop (i + src.length)).length = dst.length := by
  simp only [length_append, length_take, length_drop]
  omega

theorem take_memcpy : (dst.take i ++ src ++ dst.drop (i + src.length)).take (i + src.length) = dst.take i ++
    src := by
  have length : (dst.take i ++ src).length = i + src.length := by
    simp only [length_append, length_take]
    omega
  rw [take_append_of_le_length length.ge, take_of_length_le length.le]

end

theorem bytes_eq (inside : i + n ≤ src.length) : bytes src i n = some ((src.drop i).take n) := if_pos inside

theorem length_malloc (garbage : Nat → Nat → β) : (malloc garbage n).length = n := by
  rw [malloc, length_map, length_range]

end

namespace Storage

variable {β : Type*} {max : Nat} (garbage : Nat → Nat → β) {b : Storage β} {f : FifoBuffer max β} {buf : List β}

/-- The buffer that `b` holds in its allocation. -/
structure Represents (b : Storage β) (f : FifoBuffer max β) : Prop where
  max_eq : b.m_maxSize = max
  data : b.m_buffer.take b.m_fill = f.data
  read : b.m_read = f.m_read
  fill : b.m_fill = f.data.length
  size : b.m_size = f.m_size
  allocated : b.m_buffer.length = b.m_size

variable (rep : Represents b f)
include rep

theorem Represents.within : b.Within where
  read_le := rep.read ▸ rep.fill ▸ f.read_le
  fill_le := rep.fill ▸ rep.size ▸ f.fill_le
  size_le := rep.max_eq ▸ rep.size ▸ f.size_le
  allocated := rep.allocated

theorem Represents.unread : b.unread = f.contents := by
  rw [Storage.unread, rep.data, rep.read, FifoBuffer.contents]

omit rep in
theorem represents_new : Represents (new max : Storage β) (.new max β) :=
  ⟨rfl, rfl, rfl, rfl, rfl, rfl⟩

theorem Represents.append (fits : buf.length ≤ f.m_size - f.data.length) :
    ∃ b', b.fill buf = some b' ∧ Represents b' (f.append buf fits) := by
  have fill := f.fill_le
  have room : b.m_fill + buf.length ≤ b.m_buffer.length := by
    rw [rep.allocated, rep.size, rep.fill]
    omega
  let m_buffer := b.m_buffer.take b.m_fill ++ buf ++ b.m_buffer.drop (b.m_fill + buf.length)
  have copied : memcpy b.m_buffer b.m_fill buf = some m_buffer := memcpy_eq room
  have taken : m_buffer.take (b.m_fill + buf.length) = f.data ++ buf := (take_memcpy room).trans (by rw [rep.data])
  have length : b.m_fill + buf.length = (f.data ++ buf).length := by rw [rep.fill, length_append]
  refine ⟨{ b with m_buffer := m_buffer, m_fill := b.m_fill + buf.length }, ?_, ?_⟩
  · rw [Storage.fill, copied]
    rfl
  · exact ⟨rep.max_eq, taken, rep.read, length, rep.size, (length_memcpy room).trans rep.allocated⟩

theorem Represents.move {dst : List β} {size : Nat} (length : dst.length = size) (larger : b.m_size ≤ size) :
    ∃ newBuf, b.move dst = some newBuf ∧ newBuf.take (b.m_fill - b.m_read) = f.contents ∧ newBuf.length = size := by
  have within := rep.within
  have read := within.read_le
  have fill := within.fill_le
  have allocated := within.allocated
  have inside : b.m_read + (b.m_fill - b.m_read) ≤ b.m_buffer.length := by omega
  have unread : (b.m_buffer.drop b.m_read).take (b.m_fill - b.m_read) = f.contents := by
    rw [← rep.unread, Storage.unread, drop_take]
  have contents : b.m_fill - b.m_read = 0 + f.contents.length := by
    rw [f.contents_length, rep.fill, rep.read, Nat.zero_add]
  have room : 0 + f.contents.length ≤ dst.length := by omega
  refine ⟨_, ?_, ?_, (length_memcpy room).trans length⟩
  · rw [Storage.move, bytes_eq inside, unread]
    exact memcpy_eq room
  · rw [contents, take_memcpy room, take_zero, nil_append]

theorem Represents.compact (much : ¬ buf.length ≤ b.m_size - b.m_fill) (used : 0 < b.m_read) :
    ∃ b', b.turn garbage buf = some (.again b') ∧ Represents b' f.compact := by
  have length : b.m_fill - b.m_read = f.contents.length := by rw [f.contents_length, rep.fill, rep.read]
  obtain ⟨newBuf, moves, taken, kept⟩ : ∃ newBuf, b.compact = some newBuf ∧
      newBuf.take (b.m_fill - b.m_read) = f.contents ∧ newBuf.length = b.m_size := by
    rw [Storage.compact]
    split
    · exact rep.move rep.allocated le_rfl
    · have empty : b.m_fill - b.m_read = 0 := by omega
      have contents : f.contents = [] := eq_nil_of_length_eq_zero (length.symm.trans empty)
      exact ⟨b.m_buffer, rfl, by rw [empty, contents, take_zero], rep.allocated⟩
  refine ⟨{ b with m_buffer := newBuf, m_fill := b.m_fill - b.m_read, m_read := 0 }, ?_, ?_⟩
  · rw [turn, if_neg much, if_pos ⟨used, rep.within.size_le⟩, moves]
    rfl
  · exact ⟨rep.max_eq, taken, rfl, length, rep.size, kept⟩

theorem Represents.newSize (len : Nat) : b.newSize len = f.newSize len := by
  rw [Storage.newSize, FifoBuffer.newSize, rep.max_eq, rep.size, rep.fill]

theorem Represents.grow (much : ¬ buf.length ≤ b.m_size - b.m_fill) (unused : b.m_read = 0)
    (small : f.m_size ≠ max) (much' : f.m_size - f.data.length < buf.length) :
    ∃ b', b.turn garbage buf = some (.again b') ∧ Represents b' (f.grow buf.length small much') := by
  have length : b.m_fill - b.m_read = f.contents.length := by rw [f.contents_length, rep.fill, rep.read]
  have larger : b.m_size < f.newSize buf.length := rep.size ▸ f.size_lt_newSize small much'
  have small' : b.m_size ≠ b.m_maxSize := rep.size ▸ rep.max_eq ▸ small
  obtain ⟨newBuf, moves, taken, kept⟩ := rep.move (length_malloc garbage) larger.le
  refine ⟨{ b with
    m_buffer := newBuf, m_fill := b.m_fill - b.m_read, m_read := 0, m_size := f.newSize buf.length }, ?_, ?_⟩
  · rw [turn, if_neg much, if_neg (by omega), if_neg small', rep.newSize]
    dsimp only
    rw [moves]
    rfl
  · exact ⟨rep.max_eq, taken, rfl, length, rfl, kept⟩

theorem Represents.returns (last : buf.length ≤ f.m_size - f.data.length ∨ f.m_read = 0 ∧ f.m_size = max) :
    ∃ b', b.turn garbage buf = some (.returns b' (f.write buf).2) ∧ Represents b' (f.write buf).1 := by
  have capa : b.m_size - b.m_fill = f.m_size - f.data.length := by rw [rep.size, rep.fill]
  by_cases fits : buf.length ≤ f.m_size - f.data.length
  · obtain ⟨b', fills, rep'⟩ := rep.append fits
    refine ⟨b', ?_, ?_⟩
    · rw [turn, capa, if_pos fits, fills, f.write_fits buf fits]
      rfl
    · rw [f.write_fits buf fits]
      exact rep'
  · obtain ⟨unused, full⟩ := last.resolve_left fits
    have unused' : ¬ (0 < b.m_read ∧ b.m_size ≤ b.m_maxSize) := by
      rw [rep.read]
      omega
    have full' : b.m_size = b.m_maxSize := by rw [rep.size, rep.max_eq, full]
    rw [turn, capa, if_neg fits, if_neg unused', if_pos full']
    by_cases free : 0 < f.m_size - f.data.length
    · have shorter : (buf.take (f.m_size - f.data.length)).length ≤ f.m_size - f.data.length := length_take_le _ _
      obtain ⟨b', fills, rep'⟩ := rep.append shorter
      refine ⟨b', ?_, ?_⟩
      · rw [if_pos free, fills, f.write_partly buf fits unused full free]
        rfl
      · rw [f.write_partly buf fits unused full free]
        exact rep'
    · refine ⟨b, ?_, ?_⟩
      · rw [if_neg free, f.write_none buf fits unused full free]
        rfl
      · rw [f.write_none buf fits unused full free]
        exact rep

omit rep in
theorem Write_returns {depth count : Nat} {b' : Storage β} (h : b.turn garbage buf = some (.returns b' count)) :
    b.Write garbage (depth + 1) buf = some (b', count) := by
  rw [Write, h]
  rfl

omit rep in
theorem Write_again {depth : Nat} {b' : Storage β} (h : b.turn garbage buf = some (.again b')) :
    b.Write garbage (depth + 1) buf = b'.Write garbage depth buf := by
  rw [Write, h]
  rfl

omit rep in
theorem Write_succ {depth : Nat} {result : Storage β × Nat} (h : b.Write garbage depth buf = some result) :
    b.Write garbage (depth + 1) buf = some result := by
  induction depth generalizing b with
  | zero => exact absurd h (by simp [Write])
  | succ depth ih =>
    rw [Write] at h ⊢
    obtain ⟨next, turns, rest⟩ := bind_eq_some_iff.mp h
    rw [turns, bind_eq_bind]
    cases next with
    | returns b' count => exact rest
    | again b' => exact ih rest

omit rep in
theorem newSize_enough (f : FifoBuffer max β) (len : Nat) : len + f.data.length ≤ f.newSize len ∨
    f.newSize len = max := by
  by_cases small : len + f.data.length - f.m_size < minAlloc
  · rw [FifoBuffer.newSize, if_pos small]
    split
    · exact .inr rfl
    · exact .inl (by omega)
  · rw [FifoBuffer.newSize, if_neg small]
    split
    · exact .inr rfl
    · exact .inl le_rfl

theorem Represents.Write_unread (buf : List β) (unused : f.m_read = 0) :
    ∃ b', b.Write garbage 2 buf = some (b', (f.write buf).2) ∧ Represents b' (f.write buf).1 := by
  by_cases last : buf.length ≤ f.m_size - f.data.length ∨ f.m_read = 0 ∧ f.m_size = max
  · obtain ⟨b', turns, rep'⟩ := rep.returns garbage last
    exact ⟨b', Write_returns garbage turns, rep'⟩
  · have much : f.m_size - f.data.length < buf.length := by omega
    have small : f.m_size ≠ max := fun full => last (.inr ⟨unused, full⟩)
    have much' : ¬ buf.length ≤ b.m_size - b.m_fill := by
      rw [rep.size, rep.fill]
      omega
    obtain ⟨b₁, grows, rep₁⟩ := rep.grow garbage much' (rep.read.trans unused) small much
    have contents : f.contents.length = f.data.length := by rw [f.contents_length, unused, Nat.sub_zero]
    have enough : buf.length ≤ (f.grow buf.length small much).m_size - (f.grow buf.length small much).data.length ∨
        (f.grow buf.length small much).m_read = 0 ∧ (f.grow buf.length small much).m_size = max := by
      refine (newSize_enough f buf.length).imp (fun room => ?_) fun full => ⟨rfl, full⟩
      dsimp only [FifoBuffer.grow]
      omega
    obtain ⟨b', turns, rep'⟩ := rep₁.returns garbage enough
    refine ⟨b', ?_, ?_⟩
    · rw [Write_again garbage grows, Write_returns garbage turns, f.write_grow buf much unused small]
    · rw [f.write_grow buf much unused small]
      exact rep'

theorem Represents.Write (buf : List β) :
    ∃ b', b.Write garbage 3 buf = some (b', (f.write buf).2) ∧ Represents b' (f.write buf).1 := by
  by_cases last : buf.length ≤ f.m_size - f.data.length ∨ f.m_read = 0 ∧ f.m_size = max
  · obtain ⟨b', turns, rep'⟩ := rep.returns garbage last
    exact ⟨b', Write_returns garbage turns, rep'⟩
  · have much : ¬ buf.length ≤ f.m_size - f.data.length := fun fits => last (.inl fits)
    have much' : ¬ buf.length ≤ b.m_size - b.m_fill := by
      rw [rep.size, rep.fill]
      exact much
    rcases Nat.eq_zero_or_pos f.m_read with unused | used
    · obtain ⟨b', writes, rep'⟩ := rep.Write_unread garbage buf unused
      exact ⟨b', Write_succ garbage writes, rep'⟩
    · obtain ⟨b₁, compacts, rep₁⟩ := rep.compact garbage much' (rep.read ▸ used)
      obtain ⟨b', writes, rep'⟩ := rep₁.Write_unread garbage buf rfl
      refine ⟨b', ?_, ?_⟩
      · rw [Write_again garbage compacts, writes, f.write_compact buf much used]
      · rw [f.write_compact buf much used]
        exact rep'

theorem Represents.Read (len : Nat) : ∃ b', b.Read len = some (b', (f.read len).2) ∧
    Represents b' (f.read len).1 := by
  have within := rep.within
  have capa : b.m_fill - b.m_read = f.data.length - f.m_read := by rw [rep.fill, rep.read]
  rw [Storage.Read, FifoBuffer.read, capa]
  dsimp only
  split
  · have inside : b.m_read + min len (f.data.length - f.m_read) ≤ b.m_buffer.length := by
      have fill := within.fill_le
      have allocated := within.allocated
      omega
    have copied : (b.m_buffer.drop b.m_read).take (min len (f.data.length - f.m_read)) =
        (f.data.drop f.m_read).take (min len (f.data.length - f.m_read)) := by
      have unread : (b.m_buffer.drop b.m_read).take (f.data.length - f.m_read) = f.data.drop f.m_read := by
        rw [← capa, ← drop_take, rep.data, rep.read]
      rw [← unread, take_take, Nat.min_eq_left (Nat.min_le_right _ _)]
    refine ⟨{ b with m_read := b.m_read + min len (f.data.length - f.m_read) }, ?_, ?_⟩
    · rw [bytes_eq inside, copied]
      rfl
    · exact ⟨rep.max_eq, rep.data, by rw [rep.read], rep.fill, rep.size, rep.allocated⟩
  · exact ⟨b, rfl, rep⟩

theorem Represents.call (c : Call β) :
    ∃ (b' : Storage β) (f' : FifoBuffer max β), b.call garbage 3 c = some (b', (queueCall max f.contents c).2) ∧
      Represents b' f' ∧ f'.contents = (queueCall max f.contents c).1 := by
  cases c with
  | Write buf =>
    obtain ⟨b', writes, rep'⟩ := rep.Write garbage buf
    obtain ⟨contents, count⟩ := f.write_spec buf
    refine ⟨b', (f.write buf).1, ?_, rep', ?_⟩
    · rw [Storage.call, writes, count]
      rfl
    · rw [contents, Stream.push, queueCall]
      by_cases shorter : buf.length ≤ max - f.contents.length
      · rw [Nat.min_eq_left shorter, take_of_length_le shorter, take_length]
      · rw [Nat.min_eq_right (by omega)]
  | Read len =>
    obtain ⟨b', reads, rep'⟩ := rep.Read len
    obtain ⟨contents, copied⟩ := f.read_spec len
    have taken : f.contents.take (min len f.contents.length) = f.contents.take len := take_eq_take_min.symm
    have dropped : f.contents.drop (min len f.contents.length) = f.contents.drop len := by
      by_cases shorter : len ≤ f.contents.length
      · rw [Nat.min_eq_left shorter]
      · rw [Nat.min_eq_right (by omega), drop_length, drop_of_length_le (by omega)]
    refine ⟨b', (f.read len).1, ?_, rep', ?_⟩
    · rw [Storage.call, reads, copied, queueCall, taken]
      rfl
    · rw [contents, queueCall, dropped]

theorem Represents.run (calls : List (Call β)) :
    ∃ (b' : Storage β) (f' : FifoBuffer max β), b.run garbage 3 calls =
    some (b', (queueRun max calls f.contents).2) ∧
      Represents b' f' ∧ f'.contents = (queueRun max calls f.contents).1 := by
  induction calls generalizing b f with
  | nil => exact ⟨b, f, rfl, rep, rfl⟩
  | cons c calls ih =>
    obtain ⟨b₁, f₁, here, rep₁, contents⟩ := rep.call garbage c
    obtain ⟨b', f', there, rep', rest⟩ := ih rep₁
    rw [contents] at there rest
    refine ⟨b', f', ?_, rep', rest⟩
    rw [Storage.run, here]
    dsimp only [bind_eq_bind, bind_some]
    rw [there]
    rfl

theorem Represents.meets {b' : Storage β} (meets : Meets garbage buf b b') : ∃ f' :
    FifoBuffer max β, Represents b' f' := by
  induction meets with
  | refl => exact ⟨f, rep⟩
  | @tail x y _ next ih =>
    obtain ⟨g, rep'⟩ := ih
    by_cases last : buf.length ≤ g.m_size - g.data.length ∨ g.m_read = 0 ∧ g.m_size = max
    · obtain ⟨z, turns, -⟩ := rep'.returns garbage last
      cases turns.symm.trans next
    · have much : ¬ buf.length ≤ g.m_size - g.data.length := fun fits => last (.inl fits)
      have much' : ¬ buf.length ≤ x.m_size - x.m_fill := by
        rw [rep'.size, rep'.fill]
        exact much
      rcases Nat.eq_zero_or_pos g.m_read with unused | used
      · have small : g.m_size ≠ max := fun full => last (.inr ⟨unused, full⟩)
        obtain ⟨z, turns, rep''⟩ := rep'.grow garbage much' (rep'.read.trans unused) small (by omega)
        obtain rfl : z = y := Turn.again.inj (some.inj (turns.symm.trans next))
        exact ⟨_, rep''⟩
      · obtain ⟨z, turns, rep''⟩ := rep'.compact garbage much' (rep'.read ▸ used)
        obtain rfl : z = y := Turn.again.inj (some.inj (turns.symm.trans next))
        exact ⟨_, rep''⟩

end Storage

/-- Whatever is written and read, the buffer does as the queue of at most `mxSz` bytes, three calls of
`Write` in each other are enough, and the offsets stay in order. -/
theorem fifo_is_queue {β : Type*} (garbage : Nat → Nat → β) (mxSz : Nat) (calls : List (Storage.Call β)) :
    ∃ b, (Storage.new mxSz).run garbage 3 calls = some (b, (queueRun mxSz calls []).2) ∧
      b.unread = (queueRun mxSz calls []).1 ∧ b.m_maxSize = mxSz ∧
      ∀ buf b', Storage.Meets garbage buf b b' → b'.Within := by
  obtain ⟨b, f, runs, rep, contents⟩ := Storage.represents_new.run garbage calls
  refine ⟨b, runs, rep.unread.trans contents, rep.max_eq, fun buf b' meets => ?_⟩
  obtain ⟨f', rep'⟩ := rep.meets garbage meets
  exact rep'.within

example : (Storage.new 4).run (fun _ _ => 0) 3 [.Write [1, 2, 3], .Read 2, .Write [4, 5, 6, 7], .Read 9] =
    some (⟨4, [3, 4, 5, 6], 4, 4, 4⟩, [.count 3, .bytes [1, 2], .count 3, .bytes [3, 4, 5, 6]]) := rfl

end Dce.Pipe
