import Dce.UnixStream.Model

/- The buffers of `DoRecvmsg` are filled as they should be exactly where the first one has room for all that is
copied. -/

namespace Dce.UnixStream

open Memory List Option

open Iovec (scatter total)

variable {m memory first : Memory} {buf toCopy n lo : Nat} {v : Iovec} {iov : List Iovec}
    {source bytes : List UInt8} {c : UInt8}

theorem copyLoop_zero : copyLoop m buf 0 iov = some (m, 0) := by
  cases iov with
  | nil => rfl
  | cons v iov => rw [copyLoop, if_pos rfl]

theorem copyLoop_same (loads : m.load v.iov_base (min toCopy v.iov_len) = some bytes) (some_left : toCopy ≠ 0) :
    copyLoop m v.iov_base toCopy (v :: iov) =
      (copyLoop m (v.iov_base + min toCopy v.iov_len) (toCopy - min toCopy v.iov_len) iov).map
        fun r => (r.1, r.2 + min toCopy v.iov_len) := by
  have stored : m.store v.iov_base bytes = some m := by
    have mapped : m.Mapped v.iov_base bytes.length := by
      rw [load_length loads]
      exact mapped_of_load loads
    rw [store_of_mapped mapped, put_loaded loads]
  rw [copyLoop, if_neg some_left]
  dsimp only
  rw [loads]
  dsimp only
  rw [stored]

theorem copyLoop_first (mapped : m.Mapped v.iov_base toCopy) (room : toCopy ≤ v.iov_len) :
    copyLoop m v.iov_base toCopy (v :: iov) = some (m, toCopy) := by
  by_cases none : toCopy = 0
  · rw [none, copyLoop_zero]
  · have whole : min toCopy v.iov_len = toCopy := Nat.min_eq_left room
    obtain ⟨bytes, loads⟩ := load_of_mapped mapped
    have loads' : m.load v.iov_base (min toCopy v.iov_len) = some bytes := by rw [whole, loads]
    rw [copyLoop_same loads' none, whole, Nat.sub_self, copyLoop_zero, map_some, Nat.zero_add]

section

variable (fits : n = min source.length (v.iov_len % 2 ^ 32))
include fits

theorem fitting_le : n ≤ v.iov_len := by
  omega

theorem fitting_length : (source.take n).length = n := by
  rw [length_take]
  omega

theorem fill_fits (mapped : memory.Mapped v.iov_base n) : fill memory v iov source n =
      some (memory.put v.iov_base (source.take n), memory.put v.iov_base (source.take n), n) := by
  have same : source.take (v.iov_len % 2 ^ 32) = source.take n := by
    rw [take_eq_take_iff]
    omega
  have here : memory.Mapped v.iov_base (source.take n).length := by
    rw [fitting_length fits]
    exact mapped
  unfold fill
  rw [same, store_of_mapped here]
  dsimp only
  rw [copyLoop_first (here.put mapped) (fitting_le fits), map_some]

theorem fill_cases (memory : Memory) (iov : List Iovec) : fill memory v iov source n = none ∨
      fill memory v iov source n = some (memory.put v.iov_base (source.take n),
        memory.put v.iov_base (source.take n), n) := by
  have same : source.take (v.iov_len % 2 ^ 32) = source.take n := by
    rw [take_eq_take_iff]
    omega
  cases stored : memory.store v.iov_base (source.take n) with
  | none =>
    left
    unfold fill
    rw [same, stored]
  | some first =>
    right
    have mapped := (store_eq_some stored).1
    rw [fitting_length fits] at mapped
    exact fill_fits fits mapped

end

/-- A memory in which all addresses from `lo` on have the same byte, and there is one everywhere. -/
structure Blank (m : Memory) (lo : Nat) (c : UInt8) : Prop where
  same : ∀ x, lo ≤ x → m x = some c
  all : ∀ x, (m x).isSome

theorem Blank.mapped (blank : Blank m lo c) (a k : Nat) : m.Mapped a k := fun x _ _ => blank.all x

theorem Blank.load (blank : Blank m lo c) (high : lo ≤ buf) (k : Nat) : m.load buf k = some (List.replicate k c) :=
  load_eq length_replicate fun i inside => by
    rw [blank.same _ (by omega), List.getElem?_replicate, if_pos inside]

theorem Blank.put (blank : Blank m lo c) (a k : Nat) : Blank (m.put a (List.replicate k c)) lo c := by
  constructor
  · intro x high
    by_cases inside : a ≤ x ∧ x < a + (replicate k c).length
    · rw [put_inside inside.1 inside.2, getElem?_replicate, if_pos]
      rw [length_replicate] at inside
      omega
    · rw [put_outside (by omega)]
      exact blank.same x high
  · intro x
    rw [put_isSome (blank.mapped _ _)]
    exact blank.all x

theorem scatter_last (e : Memory) (room : bytes.length ≤ v.iov_len) (some_left : bytes ≠ []) :
    scatter e (v :: iov) bytes (v.iov_base + bytes.length - 1) = bytes.getLast? := by
  have positive : 0 < bytes.length := length_pos_iff.mpr some_left
  rw [Iovec.scatter_first room, put_inside (by omega) (by omega), getLast?_eq_getElem?]
  congr 1
  omega

theorem scatter_cons_last {a : Nat} (e : Memory) (more : v.iov_len < bytes.length)
    (last : ∀ e : Memory, scatter e iov (bytes.drop v.iov_len) a = (bytes.drop v.iov_len).getLast?) :
    scatter e (v :: iov) bytes a = bytes.getLast? := by
  rw [scatter, last, getLast?_drop, if_neg (not_le.mpr more)]

theorem copyLoop_blank (blank : Blank m lo c) (high : lo ≤ buf) (room : toCopy ≤ total iov) (positive : 0 < toCopy) :
    ∃ m', copyLoop m buf toCopy iov = some (m', toCopy) ∧
      ∃ a, m' a = some c ∧ ∀ (e : Memory) (d : List UInt8), d.length = toCopy → scatter e iov d a = d.getLast? := by
  induction iov generalizing m buf toCopy with
  | nil => exact absurd room (not_le.mpr positive)
  | cons v iov ih =>
    have stored : m.store v.iov_base (replicate (min toCopy v.iov_len) c) = _ := store_of_mapped (blank.mapped _ _)
    have step : copyLoop m buf toCopy (v :: iov) =
        (copyLoop (m.put v.iov_base (replicate (min toCopy v.iov_len) c)) (buf + min toCopy v.iov_len)
          (toCopy - min toCopy v.iov_len) iov).map fun r => (r.1, r.2 + min toCopy v.iov_len) := by
      rw [copyLoop, if_neg (by omega)]
      dsimp only
      rw [blank.load high]
      dsimp only
      rw [stored]
    have after := blank.put v.iov_base (min toCopy v.iov_len)
    rw [step]
    by_cases fits : toCopy ≤ v.iov_len
    · have whole : min toCopy v.iov_len = toCopy := Nat.min_eq_left fits
      rw [whole, Nat.sub_self, copyLoop_zero]
      have written : (replicate toCopy c).length = toCopy := length_replicate
      refine ⟨m.put v.iov_base (replicate toCopy c), by rw [map_some, Nat.zero_add], v.iov_base + toCopy - 1, ?_,
        fun e d length => ?_⟩
      · rw [put_inside (by omega) (by omega), getElem?_replicate, if_pos (by omega)]
      · rw [← length]
        exact scatter_last e (by omega) (length_pos_iff.mp (by omega))
    · have whole : min toCopy v.iov_len = v.iov_len := Nat.min_eq_right (by omega)
      rw [whole] at after ⊢
      rw [Iovec.total_cons] at room
      have later : lo ≤ buf + v.iov_len := by omega
      have left : toCopy - v.iov_len ≤ total iov := by omega
      have some_left : 0 < toCopy - v.iov_len := by omega
      obtain ⟨m', run, a, wrong, last⟩ := ih after later left some_left
      refine ⟨m', ?_, a, wrong, fun e d length => scatter_cons_last e (by omega) fun e => last e _ ?_⟩
      · rw [run, map_some, Nat.sub_add_cancel (by omega)]
      · rw [length_drop, length]

theorem blank_first (c : UInt8) (a : Nat) (bytes : List UInt8) :
    Blank (put (fun _ => some c) a bytes) (a + bytes.length) c := by
  have mapped : Mapped (fun _ => some c) a bytes.length := fun _ _ _ => rfl
  exact ⟨fun x high => put_outside (.inr high), fun x => by rw [put_isSome mapped]; rfl⟩

theorem fill_overruns (part : n ≤ source.length) (room : n ≤ total (v :: iov))
    (past : v.iov_len % 2 ^ 32 < n) (c : UInt8) :
    ∃ first m', fill (fun _ => some c) v iov source n = some (first, m', n) ∧
      ∃ a, m' a = some c ∧ ∀ (e : Memory) (d : List UInt8), d.length = n →
      scatter e (v :: iov) d a = d.getLast? := by
  have length : (source.take (v.iov_len % 2 ^ 32)).length = v.iov_len % 2 ^ 32 := by
    rw [length_take]
    omega
  have blank := blank_first c v.iov_base (source.take (v.iov_len % 2 ^ 32))
  rw [length] at blank
  let first : Memory := put (fun _ => some c) v.iov_base (source.take (v.iov_len % 2 ^ 32))
  have stored : store (fun _ => some c) v.iov_base (source.take (v.iov_len % 2 ^ 32)) = some first :=
    store_of_mapped fun _ _ _ => rfl
  have start : fill (fun _ => some c) v iov source n = (copyLoop first v.iov_base n (v :: iov)).map fun r =>
      (first, r.1, r.2) := by
    unfold fill
    rw [stored]
  rw [start]
  by_cases fits : n ≤ v.iov_len
  · rw [copyLoop_first (blank.mapped _ _) fits]
    refine ⟨first, first, rfl, v.iov_base + n - 1, blank.same _ (by omega), fun e d count => ?_⟩
    rw [← count]
    exact scatter_last e (by omega) (length_pos_iff.mp (by omega))
  · obtain ⟨bytes, loads⟩ := load_of_mapped (blank.mapped v.iov_base (min n v.iov_len))
    have whole : min n v.iov_len = v.iov_len := Nat.min_eq_right (by omega)
    rw [copyLoop_same loads (by omega), whole]
    rw [Iovec.total_cons] at room
    have later : v.iov_base + v.iov_len % 2 ^ 32 ≤ v.iov_base + v.iov_len := by omega
    have left : n - v.iov_len ≤ total iov := by omega
    have some_left : 0 < n - v.iov_len := by omega
    obtain ⟨m', run, a, wrong, last⟩ := copyLoop_blank blank later left some_left
    refine ⟨first, m', ?_, a, wrong, fun e d count => scatter_cons_last e (by omega) fun e => last e _ ?_⟩
    · rw [run, map_some, map_some, Nat.sub_add_cancel (by omega)]
    · rw [length_drop, count]

theorem fill_exceeds (short : n < min source.length (v.iov_len % 2 ^ 32)) (c : UInt8) :
    ∃ first, fill (fun _ => some c) v iov source n = some (first, first, n) ∧ first (v.iov_base + n) = source[n]? ∧
      ∀ d : List UInt8, d.length = n → scatter (fun _ => some c) (v :: iov) d (v.iov_base + n) = some c := by
  have blank := blank_first c v.iov_base (source.take (v.iov_len % 2 ^ 32))
  let first : Memory := put (fun _ => some c) v.iov_base (source.take (v.iov_len % 2 ^ 32))
  have stored : store (fun _ => some c) v.iov_base (source.take (v.iov_len % 2 ^ 32)) = some first :=
    store_of_mapped fun _ _ _ => rfl
  refine ⟨first, ?_, ?_, fun d count => ?_⟩
  · unfold fill
    rw [stored]
    dsimp only
    rw [copyLoop_first (blank.mapped _ _) (by omega), map_some]
  · have inside : v.iov_base + n < v.iov_base + (source.take (v.iov_len % 2 ^ 32)).length := by
      rw [length_take]
      omega
    refine (put_inside (Nat.le_add_right _ _) inside).trans ?_
    rw [Nat.add_sub_cancel_left, getElem?_take, if_pos (by omega)]
  · rw [Iovec.scatter_first (by omega), put_outside (by omega)]

theorem exists_other (x : Option UInt8) : ∃ c : UInt8, some c ≠ x := by
  by_cases zero : x = some 0
  · exact ⟨1, by rw [zero]; decide⟩
  · exact ⟨0, fun same => zero same.symm⟩

/-- What is wrong in some memory where the first buffer has another size than what is to be copied. -/
theorem fill_wrong (part : n ≤ source.length) (room : n ≤ total (v :: iov))
    (unfit : n ≠ min source.length (v.iov_len % 2 ^ 32)) :
    ∃ c first m', fill (fun _ => some c) v iov source n = some (first, m', n) ∧
      m' ≠ scatter (fun _ => some c) (v :: iov) (source.take n) := by
  have length : (source.take n).length = n := by
    rw [length_take]
    omega
  by_cases past : v.iov_len % 2 ^ 32 < n
  · obtain ⟨c, other⟩ := exists_other (source.take n).getLast?
    obtain ⟨first, m', run, a, wrong, last⟩ := fill_overruns part room past c
    refine ⟨c, first, m', run, fun same => other ?_⟩
    rw [← wrong, same, last _ _ length]
  · obtain ⟨c, other⟩ := exists_other source[n]?
    have short : n < min source.length (v.iov_len % 2 ^ 32) := by omega
    obtain ⟨first, run, extra, spared⟩ := fill_exceeds short c
    refine ⟨c, first, first, run, fun same => other ?_⟩
    rw [← extra, same, spared _ length]

end Dce.UnixStream

/- A `recvmsg` gives the next bytes of the stream and keeps the others exactly where what it copies fits into its
first buffer. -/

namespace Dce.UnixStream

open List

open Iovec (scatter total)

variable {T : Type*} {w v : World T} {t : T} {iov : List Iovec} {peek dontwait : Bool} {memory : Memory}
  {packet : Except Nat (List UInt8)} {waited : Waited} {out : World T × Result}

/-- What was received and not returned is there to be read. -/
structure Kept (w : World T) : Prop where
  within : w.returned ≤ w.received.length
  rest : w.m_peekedData ++ w.rx = w.unread

/-- What should hold of a call: it waits, it fails and does nothing, or it fills the buffers with the next bytes. -/
def Fills (w : World T) (iov : List Iovec) (peek : Bool) (memory : Memory) (out : World T × Result) : Prop :=
  Kept out.1 ∧ match out.2 with
    | .waits => out.1.unread = w.unread
    | .filled retval m =>
      retval = -1 ∧ m = memory ∧ out.1.unread = w.unread ∨
        ∃ n : Nat, retval = n ∧ n ≤ total iov ∧ n ≤ w.unread.length ∧ m = scatter memory iov (w.unread.take n) ∧
          out.1.unread = if peek then w.unread else w.unread.drop n
    | _ => False

/-- What is copied from: the bytes that were peeked, or else the packet. -/
def source (w : World T) (packet : Except Nat (List UInt8)) : List UInt8 :=
  if w.m_peekedData ≠ [] then w.m_peekedData
  else
    match packet with
    | .ok packet => packet
    | .error _ => []

/-- There is a first buffer, and it takes as many of the bytes as all of them are asked to. -/
def FitsFirst (iov : List Iovec) (bytes : List UInt8) : Prop :=
  ∃ v rest, iov = v :: rest ∧ min bytes.length (totalAvailable iov) = min bytes.length (v.iov_len % 2 ^ 32)

section

theorem source_prefix (kept : Kept w) (possible : Possible iov w packet) : source w packet <+: w.unread := by
  unfold source
  have rest := kept.rest
  split
  · exact ⟨w.rx, rest⟩
  next none =>
    rw [not_not] at none
    rw [none] at rest
    cases packet with
    | error e => exact nil_prefix
    | ok packet => exact rest ▸ possible.1

theorem totalAvailable_le (iov : List Iovec) : totalAvailable iov ≤ total iov := Nat.mod_le _ _

theorem source_packet {bytes : List UInt8} (none : w.m_peekedData = []) (possible : Possible iov w (.ok bytes)) :
    source w (.ok bytes) = bytes ∧ min bytes.length (totalAvailable iov) = bytes.length := by
  refine ⟨?_, Nat.min_eq_left possible.2⟩
  unfold source
  rw [if_neg (not_not.mpr none)]

theorem unread_drop (w : World T) (n : Nat) : w.received.drop (w.returned + n) = w.unread.drop n := by
  rw [World.unread, drop_drop]

theorem unread_length (w : World T) : w.unread.length = w.received.length - w.returned := length_drop

theorem Kept.returns (kept : Kept w) {n : Nat} (fits : n ≤ w.m_peekedData.length) :
    Kept { w with m_peekedData := w.m_peekedData.drop n, returned := w.returned + n } := by
  have length := congrArg length kept.rest
  have within := kept.within
  rw [length_append, unread_length] at length
  constructor
  · show w.returned + n ≤ w.received.length
    omega
  · show w.m_peekedData.drop n ++ w.rx = w.received.drop (w.returned + n)
    rw [← drop_append_of_le_length fits, kept.rest, unread_drop]

theorem Kept.gives (kept : Kept w) (none : w.m_peekedData = []) {n : Nat} (there : n ≤ w.rx.length) :
    Kept { w with rx := w.rx.drop n, returned := w.returned + n } := by
  have rest := kept.rest
  have within := kept.within
  rw [none, nil_append] at rest
  have length := congrArg length rest
  rw [unread_length] at length
  constructor
  · show w.returned + n ≤ w.received.length
    omega
  · show w.m_peekedData ++ w.rx.drop n = w.received.drop (w.returned + n)
    rw [none, nil_append, rest, unread_drop]

theorem Kept.peeks (kept : Kept w) (none : w.m_peekedData = []) {bytes : List UInt8} (next : bytes <+: w.rx) :
    Kept { w with rx := w.rx.drop bytes.length, m_peekedData := w.m_peekedData ++ bytes } := by
  have rest := kept.rest
  obtain ⟨behind, split⟩ := next
  rw [none, nil_append] at rest
  refine ⟨kept.within, ?_⟩
  show w.m_peekedData ++ bytes ++ w.rx.drop bytes.length = w.unread
  rw [none, nil_append, ← split, drop_left, split, rest]

theorem fills_next {n : Nat} (kept : Kept v) (room : n ≤ total iov) (there : n ≤ w.unread.length)
    (left : v.unread = if peek then w.unread else w.unread.drop n) :
    Fills w iov peek memory (v, .filled n (scatter memory iov (w.unread.take n))) :=
  ⟨kept, .inr ⟨n, rfl, room, there, rfl, left⟩⟩

theorem fills_failed (kept : Kept w) {err : T → Option Errno} :
    Fills w iov peek memory ({ w with err := err }, .filled (-1) memory) :=
  ⟨⟨kept.within, kept.rest⟩, .inl ⟨rfl, rfl, rfl⟩⟩

variable [DecidableEq T] (kept : Kept w) (possible : Possible iov w packet)
include kept possible

/-- The rest of `DoRecvmsg` where the first buffer has room: the memory faults, or it does what it should. -/
theorem receive_fits (fits : FitsFirst iov (source w packet)) :
    (receive t iov peek memory packet w = (w, .crashed) ∧ ¬ Iovec.Mapped memory iov) ∨
      Fills w iov peek memory (receive t iov peek memory packet w) := by
  obtain ⟨b, rest, rfl, same⟩ := fits
  have room := totalAvailable_le (b :: rest)
  obtain ⟨behind, split⟩ := source_prefix kept possible
  generalize count : min (source w packet).length (totalAvailable (b :: rest)) = n at same
  have inside : n ≤ (source w packet).length := by omega
  have taken : w.unread.take n = (source w packet).take n := by rw [← split, take_append_of_le_length inside]
  have there : n ≤ w.unread.length := by
    rw [← split, length_append]
    omega
  have filled : memory.put b.iov_base ((source w packet).take n) = scatter memory (b :: rest) (w.unread.take n) := by
    rw [taken, Iovec.scatter_first]
    rw [fitting_length same]
    exact fitting_le same
  have faults : fill memory b rest (source w packet) n = none → ¬ Iovec.Mapped memory (b :: rest) := by
    intro none mapped
    have here := mapped b mem_cons_self
    rw [fill_fits same (here.sub le_rfl (Nat.add_le_add_left (fitting_le same) _))] at none
    cases none
  have cases_ := fill_cases same memory rest
  rw [filled] at cases_
  unfold receive
  dsimp only
  split
  next some_peeked =>
    have peeked : source w packet = w.m_peekedData := if_pos some_peeked
    rw [peeked] at count inside faults cases_
    rw [count]
    rcases cases_ with none | some
    · rw [none]
      exact .inl ⟨rfl, faults none⟩
    · rw [some]
      right
      cases peek with
      | true => exact fills_next kept (by omega) there rfl
      | false => exact fills_next (kept.returns inside) (by omega) there (unread_drop w n)
  next none_peeked =>
    rw [not_not] at none_peeked
    cases packet with
    | error e => exact .inr (fills_failed kept)
    | ok bytes =>
      obtain ⟨packet_is, whole⟩ := source_packet none_peeked possible
      rw [packet_is] at count inside faults cases_ filled
      obtain rfl : bytes.length = n := whole.symm.trans count
      dsimp only
      rcases cases_ with none | some
      · rw [none]
        exact .inl ⟨rfl, faults none⟩
      · rw [some]
        right
        dsimp only
        cases peek with
        | true =>
          have loads : (scatter memory (b :: rest) (w.unread.take bytes.length)).load b.iov_base bytes.length =
              Option.some bytes := by
            rw [← filled, take_length]
            exact Memory.load_put
          rw [loads]
          exact fills_next (kept.peeks none_peeked possible.1) (by omega) there rfl
        | false =>
          exact fills_next (kept.gives none_peeked possible.1.length_le) (by omega) there (unread_drop w _)

theorem fits_of_receive
    (fills : ∀ memory, Iovec.Mapped memory iov → Fills w iov peek memory (receive t iov peek memory packet w)) :
    FitsFirst iov (source w packet) := by
  cases iov with
  | nil => exact (fills (fun _ => none) nofun).2.elim
  | cons b rest =>
    refine ⟨b, rest, rfl, ?_⟩
    by_contra unfit
    have room := totalAvailable_le (b :: rest)
    obtain ⟨behind, split⟩ := source_prefix kept possible
    generalize count : min (source w packet).length (totalAvailable (b :: rest)) = n at unfit
    have inside : n ≤ (source w packet).length := by omega
    have taken : w.unread.take n = (source w packet).take n := by rw [← split, take_append_of_le_length inside]
    have small : n ≤ total (b :: rest) := by omega
    obtain ⟨c, first, m', run, wrong⟩ := fill_wrong inside small unfit
    have good := fills (fun _ => some c) Iovec.mapped_const
    rw [← taken] at wrong
    -- the call returns `n` and the wrong memory, or crashes
    have never : ∀ v : World T, ¬ Fills w (b :: rest) peek (fun _ => some c) (v, .filled n m') := by
      rintro v ⟨-, ⟨failed, -⟩ | ⟨k, same, -, -, memory, -⟩⟩
      · omega
      · obtain rfl : n = k := Int.ofNat.inj same
        exact wrong memory
    unfold receive at good
    dsimp only at good
    split at good
    next some_peeked =>
      have peeked : source w packet = w.m_peekedData := if_pos some_peeked
      rw [peeked] at count run
      rw [count, run] at good
      dsimp only at good
      split at good
      · exact never _ good
      · exact never _ good
    next none_peeked =>
      rw [not_not] at none_peeked
      cases packet with
      | error e =>
        have empty : source w (.error e) = [] := if_neg (not_not.mpr none_peeked)
        rw [empty] at count unfit
        exact unfit count.symm
      | ok bytes =>
        obtain ⟨packet_is, whole⟩ := source_packet none_peeked possible
        rw [packet_is] at count run
        obtain rfl : bytes.length = n := whole.symm.trans count
        dsimp only at good
        rw [run] at good
        dsimp only at good
        split at good
        · split at good
          · exact good.2
          · exact never _ good
        · exact never _ good

theorem receive_iff : (∀ memory, Iovec.Mapped memory iov →
      Fills w iov peek memory (receive t iov peek memory packet w)) ↔
      FitsFirst iov (source w packet) := by
  refine ⟨fits_of_receive kept possible, fun fits memory mapped => ?_⟩
  exact (receive_fits kept possible fits).resolve_left fun faults => faults.2 mapped

theorem receive_kept (fits : FitsFirst iov (source w packet)) : Kept (receive t iov peek memory packet w).1 := by
  have either : (receive t iov peek memory packet w = (w, .crashed) ∧ ¬ Iovec.Mapped memory iov) ∨
      Fills w iov peek memory (receive t iov peek memory packet w) := receive_fits kept possible fits
  rcases either with ⟨faults, -⟩ | fills
  · rw [faults]
    exact kept
  · exact fills.1

end

section

theorem fills_nothing (kept : Kept w) : Fills w iov peek memory (w, .filled 0 memory) := by
  refine ⟨kept, .inr ⟨0, rfl, Nat.zero_le _, Nat.zero_le _, ?_, ?_⟩⟩
  · rw [take_zero, Iovec.scatter_nil]
  · rw [drop_zero, ite_self]

theorem early_ok {n : Nat} (early : early w = some (.ok n)) : n = 0 := by
  unfold UnixStream.early at early
  split at early
  all_goals try cases early
  · rfl
  · split at early
    · cases early
      rfl
    · cases early
  · split at early
    · cases early
      rfl
    · cases early

variable [DecidableEq T]

theorem fills_early {n : Except Errno Nat} (kept : Kept w) (returns : early w = some n) (memory : Memory) :
    Fills w iov peek memory (afterWait t iov peek memory packet w) := by
  unfold afterWait
  rw [returns]
  cases n with
  | ok n =>
    obtain rfl := early_ok returns
    exact fills_nothing kept
  | error e => exact fills_failed kept

theorem afterWait_iff (kept : Kept w) (possible : Possible iov w packet) :
    (∀ memory, Iovec.Mapped memory iov → Fills w iov peek memory (afterWait t iov peek memory packet w)) ↔
      (early w = none → FitsFirst iov (source w packet)) := by
  cases returns : early w with
  | none =>
    have goes : ∀ memory, afterWait t iov peek memory packet w = receive t iov peek memory packet w := by
      intro memory
      unfold afterWait
      rw [returns]
    simp only [goes, true_imp_iff]
    exact receive_iff kept possible
  | some n => exact iff_of_true (fun memory _ => fills_early kept returns memory) nofun

end

end Dce.UnixStream
