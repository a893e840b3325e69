import Mathlib.Algebra.Order.Ring.Int
import Mathlib.Algebra.Order.Ring.Nat
import Mathlib.Data.List.Basic

/-- A memory of bytes. An address that is not mapped has no byte, and an access to it is a fault. -/
abbrev Memory := Nat → Option UInt8

namespace Memory

open List Option

variable {m m' : Memory} {a b n : Nat} {bs : List UInt8}

def load (m : Memory) : Nat → Nat → Option (List UInt8)
  | _, 0 => some []
  | a, n + 1 => (m a).bind fun byte => (load m (a + 1) n).map (byte :: ·)

/-- The bytes `bs` at `a` and above, over what was there. -/
def put (m : Memory) (a : Nat) (bs : List UInt8) : Memory :=
  fun x => if a ≤ x ∧ x < a + bs.length then bs[x - a]? else m x

def store (m : Memory) (a : Nat) (bs : List UInt8) : Option Memory :=
  (load m a bs.length).map fun _ => m.put a bs

/-- `n` new bytes of zero from `a` on. -/
def map (m : Memory) (a n : Nat) : Memory := fun x => if a ≤ x ∧ x < a + n then some 0 else m x

def unmap (m : Memory) (a n : Nat) : Memory := fun x => if a ≤ x ∧ x < a + n then none else m x

/-- Nothing is mapped at the `n` addresses from `a` on. -/
def Free (m : Memory) (a n : Nat) : Prop := ∀ x, a ≤ x → x < a + n → m x = none

/-- All the `n` addresses from `a` on are mapped. -/
def Mapped (m : Memory) (a n : Nat) : Prop := ∀ x, a ≤ x → x < a + n → (m x).isSome

/-- The `n` bytes from `a` on are the same in both. -/
def Agree (m m' : Memory) (a n : Nat) : Prop := ∀ x, a ≤ x → x < a + n → m x = m' x

variable {k v head : Nat} {cells : List Nat}

theorem Mapped.sub (h : Mapped m a n) (hb : a ≤ b) (hk : b + k ≤ a + n) : Mapped m b k :=
  fun x lower upper => h x (by omega) (by omega)

theorem Agree.sub (h : Agree m m' a n) (hb : a ≤ b) (hk : b + k ≤ a + n) : Agree m m' b k :=
  fun x lower upper => h x (by omega) (by omega)

theorem Agree.symm (h : Agree m m' a n) : Agree m' m a n := fun x lower upper => (h x lower upper).symm

theorem Agree.mapped (h : Agree m m' a n) (hm : Mapped m a n) : Mapped m' a n :=
  fun x lower upper => h x lower upper ▸ hm x lower upper

section

variable (h : load m a n = some bs)
include h

theorem load_length : bs.length = n := by
  induction n generalizing a bs with
  | zero =>
    cases some.inj h
    rfl
  | succ n ih =>
    obtain ⟨byte, -, h⟩ := bind_eq_some_iff.mp h
    obtain ⟨rest, hrest, rfl⟩ := map_eq_some_iff.mp h
    rw [length_cons, ih hrest]

theorem load_get {i : Nat} (hi : i < n) : m (a + i) = bs[i]? := by
  induction n generalizing a bs i with
  | zero => omega
  | succ n ih =>
    obtain ⟨byte, hbyte, h⟩ := bind_eq_some_iff.mp h
    obtain ⟨rest, hrest, rfl⟩ := map_eq_some_iff.mp h
    cases i with
    | zero => simpa using hbyte
    | succ i =>
      rw [show a + (i + 1) = a + 1 + i by omega, ih hrest (by omega)]
      rfl

omit h in
theorem load_congr (h : Agree m m' a n) : load m a n = load m' a n := by
  induction n generalizing a with
  | zero => rfl
  | succ n ih =>
    rw [load, load, h a le_rfl (by omega), ih (h.sub (by omega) (by omega))]

omit h in
theorem load_of_mapped (h : Mapped m a n) : ∃ bs, load m a n = some bs := by
  induction n generalizing a with
  | zero => exact ⟨[], rfl⟩
  | succ n ih =>
    obtain ⟨byte, hbyte⟩ := isSome_iff_exists.mp (h a le_rfl (by omega))
    obtain ⟨rest, hrest⟩ := ih (h.sub (b := a + 1) (k := n) (by omega) (by omega))
    exact ⟨byte :: rest, by rw [load, hbyte, bind_some, hrest, map_some]⟩

theorem mapped_of_load : Mapped m a n := by
  intro x lower upper
  have hx := load_get h (i := x - a) (by omega)
  rw [Nat.add_sub_cancel' lower] at hx
  rw [hx, getElem?_eq_getElem (by rw [load_length h]; omega)]
  rfl

omit h in
theorem load_eq (hlen : bs.length = n) (h : ∀ i, i < n → m (a + i) = bs[i]?) : load m a n = some bs := by
  induction n generalizing a bs with
  | zero =>
    rw [length_eq_zero_iff.mp hlen]
    rfl
  | succ n ih =>
    obtain ⟨byte, rest, rfl⟩ := exists_cons_of_length_eq_add_one hlen
    have hbyte : m a = some byte := h 0 (by omega)
    have hrest : load m (a + 1) n = some rest := by
      refine ih (by simpa using hlen) fun i hi => ?_
      rw [show a + 1 + i = a + (i + 1) by omega, h (i + 1) (by omega)]
      rfl
    rw [load, hbyte, bind_some, hrest, map_some]

theorem load_take (hk : k ≤ n) : load m a k = some (bs.take k) := by
  have hlen := load_length h
  refine load_eq (by rw [length_take]; omega) fun i hi => ?_
  rw [load_get h (by omega), getElem?_take, if_pos hi]

end

theorem put_outside {x : Nat} (h : x < a ∨ a + bs.length ≤ x) : m.put a bs x = m x :=
  if_neg (by omega)

theorem put_inside {x : Nat} (lower : a ≤ x) (upper : x < a + bs.length) : m.put a bs x = bs[x - a]? :=
  if_pos ⟨lower, upper⟩

theorem load_put : load (m.put a bs) a bs.length = some bs :=
  load_eq rfl fun i hi => by rw [put_inside (by omega) (by omega), Nat.add_sub_cancel_left]

theorem put_loaded (h : load m a n = some bs) : m.put a bs = m := by
  have hlen := load_length h
  funext x
  by_cases inside : a ≤ x ∧ x < a + bs.length
  · have hx := load_get h (i := x - a) (by omega)
    rw [Nat.add_sub_cancel' inside.1] at hx
    rw [put_inside inside.1 inside.2, hx]
  · exact put_outside (by omega)

theorem put_agree (h : a + bs.length ≤ b ∨ b + n ≤ a) : Agree (m.put a bs) m b n :=
  fun x lower upper => put_outside (by omega)

theorem store_of_mapped (h : Mapped m a bs.length) : store m a bs = some (m.put a bs) := by
  obtain ⟨old, hold⟩ := load_of_mapped h
  rw [store, hold, map_some]

theorem store_eq_some (h : store m a bs = some m') : Mapped m a bs.length ∧ m' = m.put a bs := by
  obtain ⟨old, hold, rfl⟩ := map_eq_some_iff.mp h
  exact ⟨mapped_of_load hold, rfl⟩

theorem put_isSome (h : Mapped m a bs.length) (x : Nat) : (m.put a bs x).isSome = (m x).isSome := by
  by_cases inside : a ≤ x ∧ x < a + bs.length
  · rw [put_inside inside.1 inside.2, h x inside.1 inside.2, getElem?_eq_getElem (by omega)]
    rfl
  · rw [put_outside (by omega)]

theorem Mapped.put (h : Mapped m a bs.length) (hb : Mapped m b k) : Mapped (m.put a bs) b k :=
  fun x lower upper => by rw [put_isSome h]; exact hb x lower upper

theorem map_mapped : Mapped (m.map a n) a n := fun x lower upper => by rw [map, if_pos ⟨lower, upper⟩]; rfl

theorem load_map : (m.map a n).load a n = some (List.replicate n 0) :=
  load_eq length_replicate fun i hi => by
    rw [map, if_pos ⟨by omega, by omega⟩, List.getElem?_replicate, if_pos hi]

theorem map_agree (h : a + n ≤ b ∨ b + k ≤ a) : Agree (m.map a n) m b k :=
  fun x lower upper => if_neg (by omega)

theorem unmap_agree (h : a + n ≤ b ∨ b + k ≤ a) : Agree (m.unmap a n) m b k :=
  fun x lower upper => if_neg (by omega)

theorem Free.apart (h : Free m a n) (hb : Mapped m b k) (hn : 0 < n) (hk : 0 < k) : a + n ≤ b ∨ b + k ≤ a := by
  by_contra overlap
  have both : ∀ x, a ≤ x → x < a + n → b ≤ x → x < b + k → False := by
    intro x h1 h2 h3 h4
    have hsome := hb x h3 h4
    rw [h x h1 h2] at hsome
    cases hsome
  rcases le_total a b with hab | hab
  · exact both b hab (by omega) le_rfl (by omega)
  · exact both a le_rfl (by omega) hab (by omega)

/-- The `n` bytes of a number, the lowest first. -/
def encode : Nat → Nat → List UInt8
  | 0, _ => []
  | n + 1, v => UInt8.ofNat v :: encode n (v / 256)

def decode : List UInt8 → Nat
  | [] => 0
  | byte :: bytes => byte.toNat + 256 * decode bytes

@[simp]
theorem encode_length (n v : Nat) : (encode n v).length = n := by
  induction n generalizing v with
  | zero => rfl
  | succ n ih => rw [encode, length_cons, ih]

theorem decode_encode (hv : v < 256 ^ n) : decode (encode n v) = v := by
  induction n generalizing v with
  | zero =>
    rw [encode, decode]
    omega
  | succ n ih =>
    have hdiv : v / 256 < 256 ^ n := by
      omega
    rw [encode, decode, ih hdiv, UInt8.toNat_ofNat']
    omega

/-- A word has eight bytes. -/
def loadWord (m : Memory) (a : Nat) : Option Nat := (load m a 8).map decode

def putWord (m : Memory) (a v : Nat) : Memory := m.put a (encode 8 v)

def storeWord (m : Memory) (a v : Nat) : Option Memory := store m a (encode 8 v)

theorem loadWord_congr (h : Agree m m' a 8) : loadWord m a = loadWord m' a := by
  rw [loadWord, loadWord, load_congr h]

theorem loadWord_putWord (hv : v < 2 ^ 64) : loadWord (m.putWord a v) a = some v := by
  have hload : load (m.putWord a v) a 8 = some (encode 8 v) := by
    have h : load (m.putWord a v) a (encode 8 v).length = some (encode 8 v) := load_put
    rwa [encode_length] at h
  rw [loadWord, hload, map_some, decode_encode (by omega)]

theorem putWord_agree (h : a + 8 ≤ b ∨ b + n ≤ a) : Agree (m.putWord a v) m b n :=
  put_agree (by rwa [encode_length])

theorem storeWord_of_mapped (h : Mapped m a 8) : storeWord m a v = some (m.putWord a v) :=
  store_of_mapped (by rwa [encode_length])

theorem Mapped.putWord (h : Mapped m a 8) (hb : Mapped m b k) : Mapped (m.putWord a v) b k :=
  Mapped.put (by rwa [encode_length]) hb

/-- `head` begins a list of cells whose first words link them, up to a null link. -/
def Linked (m : Memory) : Nat → List Nat → Prop
  | head, [] => head = 0
  | head, a :: cells => head = a ∧ a ≠ 0 ∧ ∃ link, loadWord m a = some link ∧ Linked m link cells

theorem Linked.congr (h : Linked m head cells) (agree : ∀ a ∈ cells, Agree m m' a 8) : Linked m' head cells := by
  induction cells generalizing head with
  | nil => exact h
  | cons a cells ih =>
    obtain ⟨hhead, hne, link, hlink, hrest⟩ := h
    exact ⟨hhead, hne, link, loadWord_congr (agree a (by simp)) ▸ hlink, ih hrest fun b hb =>
      agree b (mem_cons_of_mem a hb)⟩

theorem Linked.cons_of_ne (h : Linked m head cells) (hne : head ≠ 0) :
    ∃ link rest, cells = head :: rest ∧ loadWord m head = some link ∧ Linked m link rest := by
  cases cells with
  | nil => exact absurd h hne
  | cons a cells =>
    obtain ⟨rfl, -, link, hlink, hrest⟩ := h
    exact ⟨link, cells, rfl, hlink, hrest⟩

end Memory
