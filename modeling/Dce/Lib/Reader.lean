import Mathlib.Algebra.Order.Ring.Int
import Mathlib.Algebra.Order.Ring.Nat

/-- A reader takes what it needs from the front of its input, or fails. -/
structure Reader (ε α : Type) where
  run : List UInt8 → Except ε (α × List UInt8)
  suffix : ∀ {input a rest}, run input = .ok (a, rest) → rest <:+ input

namespace Reader

open List

variable {ε α β σ : Type}

instance : Monad (Reader ε) where
  pure a := ⟨fun input => .ok (a, input), fun run => by cases run; exact List.suffix_rfl⟩
  bind p f := {
    run input := match p.run input with
      | .ok (a, rest) => (f a).run rest
      | .error e => .error e
    suffix {input b rest} run := by
      split at run
      next a mid first => exact ((f a).suffix run).trans (p.suffix first)
      next => cases run }

def fail (e : ε) : Reader ε α := ⟨fun _ => .error e, fun run => by cases run⟩

/-- The next byte. -/
def byte (fault : ε) : Reader ε UInt8 where
  run
    | [] => .error fault
    | b :: rest => .ok (b, rest)
  suffix {input a rest} run := by
    split at run
    · cases run
    · cases run
      exact List.suffix_cons _ _

/-- The next `n` bytes. -/
def bytes (fault : ε) (n : Nat) : Reader ε (List UInt8) where
  run input := if n ≤ input.length then .ok (input.take n, input.drop n) else .error fault
  suffix {input a rest} run := by
    split at run
    · cases run
      exact List.drop_suffix n input
    · cases run

/-- Whatever follows `xs`, the reader takes `xs` and yields `a`. -/
def Reads (p : Reader ε α) (xs : List UInt8) (a : α) : Prop := ∀ rest, p.run (xs ++ rest) = .ok (a, rest)

/-- The reader takes a byte at least. -/
def Progress (p : Reader ε α) : Prop := ∀ input a rest, p.run input = .ok (a, rest) → rest.length < input.length

variable {a : α} {f : α → Reader ε β} {input rest xs ys : List UInt8} {p : Reader ε α} {n : Nat}

theorem bind_ok (run : p.run input = .ok (a, rest)) : (p >>= f).run input = (f a).run rest := by
  simp only [bind, run]

theorem bind_error {e : ε} (run : p.run input = .error e) : (p >>= f).run input = .error e := by
  simp only [bind, run]

theorem bind_cases {b : β} (run : (p >>= f).run input = .ok (b, rest)) :
    ∃ a mid, p.run input = .ok (a, mid) ∧ (f a).run mid = .ok (b, rest) := by
  cases first : p.run input with
  | error e => rw [bind_error first] at run; cases run
  | ok r => exact ⟨r.1, r.2, rfl, bind_ok (f := f) first ▸ run⟩

theorem pure_cases {b : α} (run : (pure a : Reader ε α).run input = .ok (b, rest)) : b = a ∧ rest = input := by
  cases run
  exact ⟨rfl, rfl⟩

theorem byte_cases {fault : ε} {b : UInt8} (run : (byte fault).run input = .ok (b, rest)) : input = b :: rest := by
  cases input with
  | nil => cases run
  | cons first input => cases run; rfl

theorem bytes_cases {fault : ε} (run : (bytes fault n).run input = .ok (xs, rest)) :
    input = xs ++ rest ∧ xs.length = n := by
  unfold bytes at run
  dsimp only at run
  split at run
  · cases run
    exact ⟨(take_append_drop n input).symm, by rw [length_take]; omega⟩
  next => cases run

theorem Reads.pure (a : α) : Reads (pure a : Reader ε α) [] a := fun _ => rfl

theorem Reads.bind {b : β} (first : Reads p xs a) (second : Reads (f a) ys b) : Reads (p >>= f) (xs ++ ys) b := by
  intro rest
  rw [append_assoc, bind_ok (first (ys ++ rest))]
  exact second rest

theorem Reads.map (reads : Reads p xs a) (f : α → β) : Reads (do return f (← p)) xs (f a) := by
  have := reads.bind (f := fun a => Pure.pure (f a)) (Reads.pure (f a))
  rwa [append_nil] at this

section

variable (fault : ε)

theorem reads_byte (b : UInt8) : Reads (byte fault) [b] b := fun _ => rfl

theorem reads_bytes (length : xs.length = n) : Reads (bytes fault n) xs xs := by
  intro rest
  subst length
  simp [bytes]

theorem Progress.bind (first : Progress p) (f : α → Reader ε β) : Progress (p >>= f) := by
  intro input b rest run
  obtain ⟨a, mid, run, run'⟩ := bind_cases run
  have := first input a mid run
  have := ((f a).suffix run').length_le
  omega

/-- The reader takes `n` bytes where it does not fail. -/
def Takes (p : Reader ε α) (n : Nat) : Prop :=
  ∀ input a rest, p.run input = .ok (a, rest) → input.length = n + rest.length

theorem Takes.pure (a : α) : Takes (pure a : Reader ε α) 0 := by
  intro input b rest run
  rw [(pure_cases run).2]
  omega

theorem Takes.bind {m : Nat} (first : Takes p n) (second : ∀ a, Takes (f a) m) : Takes (p >>= f) (n + m) := by
  intro input b rest run
  obtain ⟨a, mid, run, run'⟩ := bind_cases run
  have := first input a mid run
  have := second a mid b rest run'
  omega

theorem takes_byte : Takes (byte fault) 1 := by
  intro input b rest run
  rw [byte_cases run, length_cons]
  omega

theorem takes_bytes (n : Nat) : Takes (bytes fault n) n := by
  intro input xs rest run
  obtain ⟨rfl, length⟩ := bytes_cases run
  rw [length_append, length]

/-- Any `n` bytes that come before `ys` are read together with them, to a value that meets `Q`. -/
def Covers (p : Reader ε α) (n : Nat) (ys : List UInt8) (Q : α → Prop) : Prop :=
  ∀ xs : List UInt8, xs.length = n → ∃ a, Reads p (xs ++ ys) a ∧ Q a

theorem covers_byte : Covers (byte fault) 1 [] fun _ => True := by
  intro xs length
  obtain ⟨b, rfl⟩ := length_eq_one_iff.mp length
  exact ⟨b, reads_byte fault b, trivial⟩

theorem covers_bytes (n : Nat) : Covers (bytes fault n) n [] fun _ => True := by
  intro xs length
  rw [append_nil]
  exact ⟨xs, reads_bytes fault length, trivial⟩

end

theorem Covers.bind {m : Nat} {Q : β → Prop}
    (first : Covers p n [] fun _ => True) (later : ∀ a, Covers (f a) m ys Q) : Covers (p >>= f) (n + m) ys Q := by
  intro xs length
  obtain ⟨a, reads, -⟩ := first (xs.take n) (by rw [length_take]; omega)
  obtain ⟨b, reads', meets⟩ := later a (xs.drop n) (by rw [length_drop]; omega)
  rw [append_nil] at reads
  have whole := reads.bind reads'
  rw [← append_assoc, take_append_drop] at whole
  exact ⟨b, whole, meets⟩

theorem Covers.last {Q : α → Prop} (reads : Reads p ys a) (meets : Q a) : Covers p 0 ys Q := by
  intro xs length
  rw [length_eq_zero_iff.mp length]
  exact ⟨a, reads, meets⟩

section

variable (stuck : ε) (go : σ → Bool) (body : σ → Reader ε σ)

/-- `while (go)` with `fuel` rounds at most. -/
def rounds : Nat → σ → Reader ε σ
  | 0, _ => fail stuck
  | fuel + 1, s => if go s then body s >>= rounds fuel else pure s

/-- `while (go) body`: where each round takes a byte, there are no more of them than bytes. -/
def loop (s : σ) : Reader ε σ where
  run input := (rounds stuck go body (input.length + 1) s).run input
  suffix run := (rounds stuck go body _ s).suffix run

variable {stuck go body}

variable {input : List UInt8} {s : σ} (progress : ∀ s, Progress (body s))
include progress

theorem rounds_fuel {n m : Nat} (enough : input.length < n) (enough' : input.length < m) :
    (rounds stuck go body n s).run input = (rounds stuck go body m s).run input := by
  induction n generalizing m s input with
  | zero => omega
  | succ n ih =>
    obtain ⟨m, rfl⟩ := Nat.exists_eq_add_one_of_ne_zero (by omega : m ≠ 0)
    unfold rounds
    split
    · cases run : (body s).run input with
      | error e => rw [bind_error run, bind_error run]
      | ok r =>
        have := progress s input r.1 r.2 run
        rw [bind_ok run, bind_ok run]
        exact ih (by omega) (by omega)
    · rfl

theorem loop_run (s : σ) (input : List UInt8) : (loop stuck go body s).run input =
      (if go s then body s >>= loop stuck go body else pure s).run input := by
  show (rounds stuck go body (input.length + 1) s).run input = _
  unfold rounds
  split
  · cases run : (body s).run input with
    | error e => rw [bind_error run, bind_error run]
    | ok r =>
      have := progress s input r.1 r.2 run
      rw [bind_ok run, bind_ok run]
      exact rounds_fuel (m := r.2.length + 1) progress (by omega) (by omega)
  · rfl

omit progress in
theorem loop_keeps {P : σ → Prop} (keeps : ∀ s input t rest, P s → (body s).run input = .ok (t, rest) → P t)
    {t : σ} {rest : List UInt8} (start : P s) (run : (loop stuck go body s).run input = .ok (t, rest)) : P t := by
  change (rounds stuck go body (input.length + 1) s).run input = _ at run
  generalize input.length + 1 = fuel at run
  induction fuel generalizing s input with
  | zero => cases run
  | succ fuel ih =>
    unfold rounds at run
    split at run
    · obtain ⟨u, mid, first, later⟩ := bind_cases run
      exact ih (keeps s input u mid start first) later
    · obtain ⟨rfl, -⟩ := pure_cases run
      exact start

theorem Reads.stop (done : go s = false) : Reads (loop stuck go body s) [] s := by
  intro rest
  rw [loop_run progress, done]
  rfl

theorem Reads.round {t u : σ} {xs ys : List UInt8} (more : go s = true)
    (first : Reads (body s) xs t) (later : Reads (loop stuck go body t) ys u) :
    Reads (loop stuck go body s) (xs ++ ys) u := by
  intro rest
  rw [loop_run progress, more]
  exact first.bind later rest

end

end Reader

/-- Values that are written as a fixed number of bytes. -/
structure Codec (α : Type) where
  width : Nat
  encode : α → List UInt8
  decode : List UInt8 → α
  length_encode : ∀ a, (encode a).length = width
  decode_encode : ∀ a, decode (encode a) = a

namespace Codec

open Reader

variable {ε α : Type}

def read (c : Codec α) (fault : ε) : Reader ε α := do
  return c.decode (← bytes fault c.width)

theorem reads (c : Codec α) (fault : ε) (a : α) : Reads (c.read fault) (c.encode a) a := by
  have := (reads_bytes fault (c.length_encode a)).map c.decode
  rwa [c.decode_encode] at this

theorem read_cases {c : Codec α} {fault : ε} {input rest : List UInt8} {a : α}
    (run : (c.read fault).run input = .ok (a, rest)) :
    ∃ xs, input = xs ++ rest ∧ xs.length = c.width ∧ a = c.decode xs := by
  obtain ⟨xs, mid, first, run⟩ := bind_cases run
  obtain ⟨rfl, rfl⟩ := pure_cases run
  obtain ⟨split, length⟩ := bytes_cases first
  exact ⟨xs, split, length, rfl⟩

theorem covers (c : Codec α) (fault : ε) : Covers (c.read fault) c.width [] fun _ => True := by
  intro xs length
  rw [List.append_nil]
  exact ⟨c.decode xs, (reads_bytes fault length).map c.decode, trivial⟩

theorem takes (c : Codec α) (fault : ε) : Takes (c.read fault) c.width :=
  (takes_bytes fault c.width).bind fun _ => Takes.pure _

theorem progress (c : Codec α) (fault : ε) (wide : 0 < c.width) : Progress (c.read fault) := by
  intro input a rest run
  obtain ⟨xs, rfl, length, -⟩ := read_cases run
  rw [List.length_append]
  omega

/-- The `n` lowest bytes of a number, the lowest first. -/
def digits : Nat → Nat → List UInt8
  | 0, _ => []
  | n + 1, v => UInt8.ofNat v :: digits n (v / 256)

def value : List UInt8 → Nat
  | [] => 0
  | b :: bs => b.toNat + 256 * value bs

theorem length_digits (n v : Nat) : (digits n v).length = n := by
  induction n generalizing v with
  | zero => rfl
  | succ n ih => rw [digits, List.length_cons, ih]

theorem value_digits {n v : Nat} (short : v < 256 ^ n) : value (digits n v) = v := by
  induction n generalizing v with
  | zero =>
    rw [digits, value]
    omega
  | succ n ih =>
    rw [digits, value, ih (by omega), UInt8.toNat_ofNat']
    omega

/-- Numbers below `256 ^ n`, the lowest byte first. -/
def littleEndian (n : Nat) (toNat : α → Nat) (ofNat : Nat → α) (short : ∀ a, toNat a < 256 ^ n)
    (back : ∀ a, ofNat (toNat a) = a) : Codec α where
  width := n
  encode a := digits n (toNat a)
  decode xs := ofNat (value xs)
  length_encode a := length_digits n (toNat a)
  decode_encode a := by rw [value_digits (short a), back]

end Codec
