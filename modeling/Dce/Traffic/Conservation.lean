import Dce.Lib.Machine
import Mathlib.Data.Rat.Floor

/- `RateDualModeApplication` while it runs and is connected: what its timer and the callback of its socket
do with the bytes to be sent, `rate-dual-application.cc`. -/

namespace Dce.Traffic

/-- An `ns3::Packet`: the number it was created under, the sequence number and the size in its header, the
place of its first byte in the packet that was created, and `GetSize`. -/
structure Packet where
  number : Nat
  header : Option (UInt32 × UInt32)
  start : Nat
  size : UInt32
  deriving DecidableEq

namespace Packet

def createFragment (p : Packet) (start length : UInt32) : Packet :=
  { p with start := p.start + start.toNat, size := length }

/-- The bytes, each with the packet it was created in and its place there. -/
def bytes (p : Packet) : List (Nat × Nat) := (List.range' p.start p.size.toNat).map fun i => (p.number, i)

end Packet

structure App where
  m_running : Bool
  m_connected : Bool
  m_enableSeqTsSizeHeader : Bool
  m_currentRate : UInt64
  m_seq : UInt32
  m_unsentPacket : Option Packet := none
  m_pendingBurstBytes : UInt64 := 0
  m_sendCreditBytes : ℚ := 0
  m_hasSentPayload : Bool := false

/-- What `Socket::Send` does with a packet. -/
inductive Outcome
  | refused
  | part (count : UInt32)
  | whole
  deriving DecidableEq

namespace Outcome

/-- A part is at least a byte and less than the packet. -/
def Fits (size : UInt32) : Outcome → Prop
  | part count => 0 < count ∧ count < size
  | _ => True

instance (size : UInt32) : DecidablePred (Fits size)
  | refused => inferInstanceAs (Decidable True)
  | part _ => inferInstanceAs (Decidable (_ ∧ _))
  | whole => inferInstanceAs (Decidable True)

/-- The `int` that `Send` returns. -/
def actual (size : UInt32) : Outcome → Int32
  | refused => -1
  | part count => count.toInt32
  | whole => size.toInt32

/-- The part of the packet that the socket takes. -/
def taken (p : Packet) : Outcome → Option Packet
  | refused => none
  | part count => some (p.createFragment 0 count)
  | whole => some p

end Outcome

namespace App

def live (app : App) : Bool := app.m_running && app.m_connected

def computeBurstBytesForCurrentRate (app : App) : App × UInt64 :=
  let credit := app.m_sendCreditBytes + app.m_currentRate.toNat / 8
  let bytes : UInt64 := .ofNat ⌊credit⌋₊
  ({ app with m_sendCreditBytes := credit - bytes.toNat }, bytes)

/-- `TrySendPacket (false)` up to the call of `Send`: the packet, which is the `number`-th. It aborts where
a header of `serialized` bytes does not fit. -/
def nextPacket (serialized : UInt32) (number : Nat) (app : App) : Option (App × Packet) :=
  let nextBytes : UInt32 := (min app.m_pendingBurstBytes 0xffffffff).toUInt32
  if app.m_enableSeqTsSizeHeader then
    if nextBytes < serialized then none
    else some ({ app with m_seq := app.m_seq + 1 }, ⟨number, some (app.m_seq, nextBytes), 0, nextBytes⟩)
  else some (app, ⟨number, none, 0, nextBytes⟩)

/-- `TrySendPacket` from the return of `Send`, with the packet that is recorded. It stops at a value that
`Send` should not return. -/
def afterSend (app : App) (packet : Packet) (actual : Int32) : Option (App × Option Packet) :=
  if actual = packet.size.toInt32 then
    some ({ app with
      m_unsentPacket := none
      m_pendingBurstBytes := app.m_pendingBurstBytes - packet.size.toUInt64
      m_hasSentPayload := true }, some packet)
  else if actual = -1 then some ({ app with m_unsentPacket := some packet }, none)
  else if 0 < actual ∧ actual.toUInt32 < packet.size then
    some ({ app with
      m_unsentPacket := some (packet.createFragment actual.toUInt32 (packet.size - actual.toUInt32))
      m_pendingBurstBytes := app.m_pendingBurstBytes - actual.toUInt32.toUInt64
      m_hasSentPayload := true }, some (packet.createFragment 0 actual.toUInt32))
  else none

end App

/-- The application, the packet that `Send` has been called with, and what has happened: the packets that
were created, what the socket took of them, what was recorded as sent, and the sum of rate/8 over the ticks. -/
structure World where
  app : App
  sending : Option Packet := none
  created : List Packet := []
  accepted : List Packet := []
  recorded : List Packet := []
  generated : ℚ := 0

inductive Act
  | rate (bps : UInt64)
  | tick
  | ready
  | result (outcome : Outcome)

variable (serialized : UInt32)

/-- The loop of `DrainPendingPackets`, up to its next call of `Send`. -/
def drainLoop (w : World) : Option World :=
  if 0 < w.app.m_pendingBurstBytes then do
    let (app, packet) ← w.app.nextPacket serialized w.created.length
    some { w with app, sending := some packet, created := w.created ++ [packet] }
  else some { w with sending := none }

def drainPendingPackets (w : World) : Option World :=
  if w.app.live then
    match w.app.m_unsentPacket with
    | some packet => some { w with sending := some packet }
    | none => drainLoop serialized w
  else some w

/-- `SendPacket`, and `SendBurst` in it -/
def sendPacket (w : World) : Option World :=
  if w.app.live then
    let (app, bytes) := w.app.computeBurstBytesForCurrentRate
    drainPendingPackets serialized { w with
      app := { app with m_pendingBurstBytes := app.m_pendingBurstBytes + bytes }
      generated := w.generated + w.app.m_currentRate.toNat / 8 }
  else some w

def handleSendReady (w : World) : Option World :=
  if w.app.live then
    if w.app.m_unsentPacket = none ∧ w.app.m_pendingBurstBytes = 0 then some w
    else drainPendingPackets serialized w
  else some w

/-- The return of `Send`, and what is drained then. -/
def sent (w : World) (packet : Packet) (outcome : Outcome) : Option World := do
  let (app, note) ← w.app.afterSend packet (outcome.actual packet.size)
  let w := { w with
    app, sending := none
    accepted := w.accepted ++ (outcome.taken packet).toList
    recorded := w.recorded ++ note.toList }
  match app.m_unsentPacket with
  | some _ => some w
  | none => drainLoop serialized w

/-- Between two `CancelEvents` of a connected application, whose next sequence number is `first`. -/
def generator (first : UInt32) : Machine World Act where
  init w := ∃ rate enable sentBefore, w = { app := ⟨true, true, enable, rate, first, none, 0, 0, sentBefore⟩ }
  step w a :=
    match a, w.sending with
    | .rate bps, none => some { w with app := { w.app with m_currentRate := bps } }
    | .tick, none => sendPacket serialized w
    | .ready, none => handleSendReady serialized w
    | .result outcome, some packet => if outcome.Fits packet.size then sent serialized w packet outcome else none
    | _, _ => none

end Dce.Traffic

/- Every byte that is generated is either accepted by the socket, once and in order, or still pending. -/

namespace Dce.Traffic

open List Option

namespace Packet

theorem bytes_cut {p : Packet} {n : UInt32} (short : n < p.size) :
    (p.createFragment 0 n).bytes ++ (p.createFragment n (p.size - n)).bytes = p.bytes := by
  have less : n.toNat < p.size.toNat := UInt32.lt_iff_toNat_lt.mp short
  have rest : (p.size - n).toNat = p.size.toNat - n.toNat := UInt32.toNat_sub_of_le _ _ (UInt32.le_of_lt short)
  have joined := range'_append_1 (s := p.start) (m := n.toNat) (n := p.size.toNat - n.toNat)
  unfold bytes createFragment
  rw [← map_append, rest, UInt32.toNat_zero, Nat.add_zero, joined, Nat.add_sub_cancel' less.le]

theorem length_bytes (p : Packet) : p.bytes.length = p.size.toNat := by simp [bytes]

end Packet

/-- The packet that is to be sent on: it is in a call of `Send`, or `m_unsentPacket`. -/
def World.left (w : World) : Option Packet := w.sending.or w.app.m_unsentPacket

def bytesOf (packets : List Packet) : List (Nat × Nat) := packets.flatMap Packet.bytes

/-- The bytes that the socket has accepted and those that are pending are all that were generated; of
those, the packets come in the order of their creation, each complete before the next. -/
structure Conserves (first : UInt32) (w : World) : Prop where
  credit : 0 ≤ w.app.m_sendCreditBytes ∧ w.app.m_sendCreditBytes < 1
  balance : (bytesOf w.accepted).length + w.app.m_pendingBurstBytes.toNat = ⌊w.generated⌋₊
  unsent : ∀ p, w.app.m_unsentPacket = some p → p.size.toNat ≤ w.app.m_pendingBurstBytes.toNat
  ordered : bytesOf w.accepted ++ bytesOf w.left.toList = bytesOf w.created
  numbered : ∀ i p, w.created[i]? = some p → p.number = i ∧ p.start = 0 ∧ ∀ h, p.header = some h →
    h.1 = first + .ofNat i
  recorded : w.recorded = w.accepted

/-- What else holds where all steps were careful. -/
structure Sound (first : UInt32) (w : World) : Prop extends Conserves first w where
  live : w.app.live
  whole : w.generated = ⌊w.generated⌋₊ + w.app.m_sendCreditBytes
  seq : w.app.m_enableSeqTsSizeHeader → w.app.m_seq = first + .ofNat w.created.length
  sending : ∀ p, w.sending = some p → p.size.toNat ≤ w.app.m_pendingBurstBytes.toNat ∧
    ∀ q, w.app.m_unsentPacket = some q → q = p

/-- The pending bytes do not overflow, and no packet of 2^32 - 1 bytes is refused. -/
def Careful (w : World) : Act → Prop
  | .tick => w.app.m_pendingBurstBytes.toNat + ⌊w.app.m_sendCreditBytes + w.app.m_currentRate.toNat / 8⌋₊ < 2 ^ 64
  | .result .refused => ∀ p, w.sending = some p → p.size ≠ 0xffffffff
  | _ => True

variable {serialized first : UInt32} {w t : World}

theorem bytesOf_append (a b : List Packet) : bytesOf (a ++ b) = bytesOf a ++ bytesOf b := flatMap_append

@[simp] theorem bytesOf_singleton (p : Packet) : bytesOf [p] = p.bytes := by simp [bytesOf]

@[simp] theorem bytesOf_nil : bytesOf [] = [] := rfl

theorem toNat_nextBytes (pending : UInt64) : ((min pending 0xffffffff).toUInt32).toNat =
    min pending.toNat (2 ^ 32 - 1) := by
  have smaller : min pending 0xffffffff = if pending ≤ 0xffffffff then pending else 0xffffffff := rfl
  rw [smaller]
  split
  next less =>
    have fits : pending.toNat ≤ 2 ^ 32 - 1 := UInt64.le_iff_toNat_le.mp less
    rw [UInt64.toNat_toUInt32]
    omega
  next more =>
    have fits : ¬ pending.toNat ≤ 2 ^ 32 - 1 := fun less => more (UInt64.le_iff_toNat_le.mpr less)
    rw [min_eq_right (Nat.le_of_not_le fits)]
    rfl

variable {p : Packet} {pending : UInt64} {size : UInt32}

theorem nextPacket_spec {number : Nat} {app app' : App} (run : app.nextPacket serialized number = some (app', p)) :
    p.number = number ∧ p.start = 0 ∧ p.size.toNat = min app.m_pendingBurstBytes.toNat (2 ^ 32 - 1) ∧
      (∀ h, p.header = some h → app.m_enableSeqTsSizeHeader ∧ h.1 = app.m_seq) ∧
      app' = { app with m_seq := if app.m_enableSeqTsSizeHeader then app.m_seq + 1 else app.m_seq } := by
  have size := toNat_nextBytes app.m_pendingBurstBytes
  unfold App.nextPacket at run
  dsimp only at run
  split at run
  next enabled =>
    split at run <;> cases run
    refine ⟨rfl, rfl, size, fun h header => ?_, by rw [if_pos enabled]⟩
    cases header
    exact ⟨enabled, rfl⟩
  next disabled =>
    cases run
    exact ⟨rfl, rfl, size, nofun, by rw [if_neg disabled]⟩

theorem Sound.drainLoop (sound : Sound first w) (none : w.left = none) (run : drainLoop serialized w = some t) :
    Sound first t := by
  obtain ⟨idle, gone⟩ := or_eq_none_iff.mp none
  have ordered := sound.ordered
  rw [none, toList_none, bytesOf_nil, append_nil] at ordered
  unfold Traffic.drainLoop at run
  split at run
  · obtain ⟨⟨app, p⟩, next, run⟩ := bind_eq_some_iff.mp run
    cases run
    obtain ⟨number, start, size, header, rfl⟩ := nextPacket_spec next
    refine { sound with ordered := ?_, numbered := ?_, unsent := ?_, seq := ?_, sending := ?_ }
    · exact fun q unsent => nomatch (gone.symm.trans unsent)
    · simp [World.left, bytesOf_append, ordered]
    · intro i q there
      rw [getElem?_append] at there
      split at there
      · exact sound.numbered i q there
      · rw [getElem?_singleton] at there
        split at there <;> cases there
        have here : i = w.created.length := by omega
        refine ⟨number.trans here.symm, start, fun h said => ?_⟩
        obtain ⟨enabled, same⟩ := header h said
        rw [same, sound.seq enabled, here]
    · intro enabled
      rw [if_pos enabled, sound.seq enabled, length_append, UInt32.ofNat_add, UInt32.add_assoc]
      rfl
    · intro q same
      cases same
      exact ⟨size ▸ min_le_left _ _, fun q unsent => nomatch (gone.symm.trans unsent)⟩
  · cases run
    refine { sound with ordered := ?_, sending := nofun }
    simp [World.left, gone, ordered]

theorem drainLoop_same (run : Traffic.drainLoop serialized w = some t) :
    t.app.m_pendingBurstBytes = w.app.m_pendingBurstBytes ∧ t.accepted = w.accepted ∧ t.generated = w.generated := by
  unfold Traffic.drainLoop at run
  split at run
  · obtain ⟨⟨app, p⟩, next, run⟩ := bind_eq_some_iff.mp run
    cases run
    obtain ⟨-, -, -, -, rfl⟩ := nextPacket_spec next
    exact ⟨rfl, rfl, rfl⟩
  · cases run
    exact ⟨rfl, rfl, rfl⟩

theorem drainPendingPackets_same (run : drainPendingPackets serialized w = some t) :
    t.app.m_pendingBurstBytes = w.app.m_pendingBurstBytes ∧ t.accepted = w.accepted ∧ t.generated = w.generated := by
  unfold drainPendingPackets at run
  split at run
  · split at run
    · cases run
      exact ⟨rfl, rfl, rfl⟩
    · exact drainLoop_same run
  · cases run
    exact ⟨rfl, rfl, rfl⟩

theorem Sound.drainPendingPackets (sound : Sound first w) (idle : w.sending = none)
    (run : drainPendingPackets serialized w = some t) : Sound first t := by
  unfold Traffic.drainPendingPackets at run
  rw [if_pos sound.live] at run
  cases unsent : w.app.m_unsentPacket with
  | none =>
    rw [unsent] at run
    exact sound.drainLoop (by rw [World.left, idle, unsent]; rfl) run
  | some p =>
    rw [unsent] at run
    cases run
    have left : w.left = some p := by rw [World.left, idle, unsent]; rfl
    refine { sound with ordered := ?_, sending := fun q same => ?_ }
    · have ordered := sound.ordered
      rw [left] at ordered
      exact ordered
    · cases same
      exact ⟨sound.unsent p unsent, fun q here => some.inj (here.symm.trans unsent)⟩

theorem Sound.took (sound : Sound first w) (calls : w.sending = some p) (part rest : Option Packet)
    (cut : bytesOf part.toList ++ bytesOf rest.toList = p.bytes)
    (counted : (bytesOf part.toList).length + pending.toNat = w.app.m_pendingBurstBytes.toNat) (payload : Bool) :
    Sound first { w with
      app := { w.app with m_unsentPacket := rest, m_pendingBurstBytes := pending, m_hasSentPayload := payload }
      sending := none
      accepted := w.accepted ++ part.toList
      recorded := w.recorded ++ part.toList } := by
  have fits := (sound.sending p calls).1
  have left : w.left = some p := by rw [World.left, calls]; rfl
  refine { sound with balance := ?_, unsent := ?_, ordered := ?_, recorded := ?_, sending := nofun }
  · have balance := sound.balance
    dsimp only
    rw [bytesOf_append, length_append]
    omega
  · intro q same
    dsimp only at same ⊢
    have sizes := congrArg length cut
    rw [length_append, p.length_bytes, same, toList_some, bytesOf_singleton, q.length_bytes] at sizes
    omega
  · have ordered := sound.ordered
    rw [left, toList_some, bytesOf_singleton, ← cut] at ordered
    dsimp only [World.left, none_or]
    rw [bytesOf_append, append_assoc, ordered]
  · rw [sound.recorded]

theorem eq_of_toInt32 {a b : UInt32} (same : a.toInt32 = b.toInt32) : a = b := by
  simpa using congrArg Int32.toUInt32 same

theorem eq_of_toInt32_neg_one (same : size.toInt32 = -1) : size = 0xffffffff :=
  eq_of_toInt32 (same.trans rfl)

theorem afterSend_whole (app : App) (p : Packet) : app.afterSend p p.size.toInt32 = some ({ app with
      m_unsentPacket := none
      m_pendingBurstBytes := app.m_pendingBurstBytes - p.size.toUInt64
      m_hasSentPayload := true }, some p) := if_pos rfl

theorem afterSend_refused (app : App) (apart : p.size ≠ 0xffffffff) :
    app.afterSend p (-1) = some ({ app with m_unsentPacket := some p }, none) := by
  unfold App.afterSend
  rw [if_neg fun same => apart (eq_of_toInt32_neg_one same.symm), if_pos rfl]

/-- A part of the packet that `int` can count: the value is neither that of a failure nor that of the whole. -/
theorem afterSend_part (app : App) {count : UInt32} {result : App × Option Packet}
    (short : count < p.size) (run : app.afterSend p count.toInt32 = some result) :
    result = ({ app with
      m_unsentPacket := some (p.createFragment count (p.size - count))
      m_pendingBurstBytes := app.m_pendingBurstBytes - count.toUInt64
      m_hasSentPayload := true }, some (p.createFragment 0 count)) := by
  have less := UInt32.lt_iff_toNat_lt.mp short
  have other : count.toInt32 ≠ p.size.toInt32 := fun same => by
    rw [eq_of_toInt32 same] at less
    exact absurd less (lt_irrefl _)
  have counts : count.toInt32 ≠ -1 := fun same => by
    have bound := p.size.toNat_lt
    rw [eq_of_toInt32_neg_one same] at less
    exact absurd less (by simpa using Nat.le_of_lt_succ bound)
  unfold App.afterSend at run
  rw [if_neg other, if_neg counts] at run
  split at run <;> cases run
  rfl

theorem toNat_sub_toUInt64 (fits : size.toNat ≤ pending.toNat) :
    size.toNat + (pending - size.toUInt64).toNat = pending.toNat := by
  have sub := UInt64.toNat_sub_of_le pending size.toUInt64 (UInt64.le_iff_toNat_le.mpr (by simpa using fits))
  rw [UInt32.toNat_toUInt64] at sub
  omega

/-- The return of `Send` of a packet that is not refused with the size that a failure is confused with. -/
theorem Sound.sent (sound : Sound first w) (calls : w.sending = some p) {outcome : Outcome}
    (fits : outcome.Fits p.size) (careful : outcome = .refused → p.size ≠ 0xffffffff)
    (run : sent serialized w p outcome = some t) : Sound first t := by
  have inside := (sound.sending p calls).1
  obtain ⟨⟨app, note⟩, back, run⟩ := bind_eq_some_iff.mp run
  cases outcome with
  | refused =>
    rw [Outcome.actual, afterSend_refused w.app (careful rfl)] at back
    cases back
    cases run
    exact sound.took calls none (some p) (by simp) (by simp) w.app.m_hasSentPayload
  | part count =>
    have short : count < p.size := fits.2
    have less := UInt32.lt_iff_toNat_lt.mp short
    cases afterSend_part w.app short back
    cases run
    refine sound.took calls (some (p.createFragment 0 count)) (some (p.createFragment count (p.size - count)))
      (by simpa using Packet.bytes_cut short) ?_ true
    simpa [Packet.length_bytes, Packet.createFragment] using toNat_sub_toUInt64 (less.le.trans inside)
  | whole =>
    rw [Outcome.actual, afterSend_whole] at back
    cases back
    refine Sound.drainLoop (sound.took calls (some p) none (by simp) ?_ true) rfl run
    simpa [Packet.length_bytes] using toNat_sub_toUInt64 inside

theorem tick_floor {generated credit rate : ℚ} (whole : generated = ⌊generated⌋₊ + credit) (start : 0 ≤ credit)
    (more : 0 ≤ rate) :
    ⌊generated + rate⌋₊ = ⌊generated⌋₊ + ⌊credit + rate⌋₊ := by
  have split : generated + rate = (credit + rate) + ⌊generated⌋₊ := by linarith
  rw [split, Nat.floor_add_natCast (add_nonneg start more), Nat.add_comm]

/-- The bytes that a tick adds. -/
def burst (app : App) : Nat := ⌊app.m_sendCreditBytes + app.m_currentRate.toNat / 8⌋₊

theorem computeBurst_spec {app : App} (credit : 0 ≤ app.m_sendCreditBytes ∧ app.m_sendCreditBytes < 1) :
    app.computeBurstBytesForCurrentRate.2.toNat = burst app ∧
      app.computeBurstBytesForCurrentRate.1.m_sendCreditBytes + burst app = app.m_sendCreditBytes +
      app.m_currentRate.toNat / 8 ∧
      0 ≤ app.computeBurstBytesForCurrentRate.1.m_sendCreditBytes ∧
      app.computeBurstBytesForCurrentRate.1.m_sendCreditBytes < 1 := by
  have rate : (0 : ℚ) ≤ app.m_currentRate.toNat / 8 := by positivity
  have more : 0 ≤ app.m_sendCreditBytes + app.m_currentRate.toNat / 8 := add_nonneg credit.1 rate
  have below : (burst app : ℚ) ≤ app.m_sendCreditBytes + app.m_currentRate.toNat / 8 := Nat.floor_le more
  have above : app.m_sendCreditBytes + app.m_currentRate.toNat / 8 < burst app + 1 := Nat.lt_floor_add_one _
  have fits : burst app < 2 ^ 64 := by
    have size : (app.m_currentRate.toNat : ℚ) < 2 ^ 64 := by exact_mod_cast app.m_currentRate.toNat_lt
    have less : (burst app : ℚ) < (2 ^ 64 : ℕ) := by
      push_cast
      linarith
    exact_mod_cast less
  have bytes : app.computeBurstBytesForCurrentRate.2.toNat = burst app := UInt64.toNat_ofNat_of_lt' fits
  have left : app.computeBurstBytesForCurrentRate.1.m_sendCreditBytes =
      app.m_sendCreditBytes + app.m_currentRate.toNat / 8 - burst app := by
    rw [← bytes]
    rfl
  refine ⟨bytes, ?_, ?_, ?_⟩ <;> rw [left] <;> linarith

/-- A tick, up to the draining. -/
def ticked (w : World) : World := { w with
  app := { w.app.computeBurstBytesForCurrentRate.1 with
    m_pendingBurstBytes := w.app.m_pendingBurstBytes + w.app.computeBurstBytesForCurrentRate.2 }
  generated := w.generated + w.app.m_currentRate.toNat / 8 }

theorem sendPacket_eq (live : w.app.live) : sendPacket serialized w = drainPendingPackets serialized (ticked w) :=
  if_pos live

theorem Sound.ticked (sound : Sound first w) (idle : w.sending = none) (careful : Careful w .tick) :
    Sound first (ticked w) := by
  have rate : (0 : ℚ) ≤ w.app.m_currentRate.toNat / 8 := by positivity
  have sum := tick_floor sound.whole sound.credit.1 rate
  obtain ⟨bytes, left, credit⟩ := computeBurst_spec sound.credit
  have pending : (Traffic.ticked w).app.m_pendingBurstBytes.toNat = w.app.m_pendingBurstBytes.toNat +
      burst w.app := by
    have careful : w.app.m_pendingBurstBytes.toNat + burst w.app < 2 ^ 64 := careful
    rw [← bytes] at careful ⊢
    exact (UInt64.toNat_add _ _).trans (Nat.mod_eq_of_lt careful)
  refine { sound with credit := ?_, balance := ?_, unsent := ?_, whole := ?_, sending := ?_ }
  · exact credit
  · have balance := sound.balance
    rw [pending]
    change _ = ⌊w.generated + w.app.m_currentRate.toNat / 8⌋₊
    rw [sum, ← balance, Nat.add_assoc]
    rfl
  · intro p unsent
    rw [pending]
    exact (sound.unsent p unsent).trans (Nat.le_add_right _ _)
  · change w.generated + w.app.m_currentRate.toNat / 8 = ⌊w.generated + w.app.m_currentRate.toNat / 8⌋₊ + _
    have whole := sound.whole
    have left : (Traffic.ticked w).app.m_sendCreditBytes + burst w.app = _ := left
    rw [sum]
    push_cast
    change _ = _ + (burst w.app : ℚ) + _
    linarith
  · intro p calls
    cases idle.symm.trans calls

theorem Sound.step {a : Act} (sound : Sound first w) (careful : Careful w a)
    (run : (generator serialized first).step w a = some t) : Sound first t := by
  cases calls : w.sending with
  | none =>
    cases a with
    | rate bps =>
      simp only [generator, calls] at run
      cases run
      have ordered := sound.ordered
      rw [World.left, calls] at ordered
      exact { sound with ordered := ordered, sending := nofun }
    | tick =>
      simp only [generator, calls] at run
      rw [sendPacket_eq sound.live] at run
      exact (sound.ticked calls careful).drainPendingPackets calls run
    | ready =>
      simp only [generator, calls] at run
      unfold handleSendReady at run
      rw [if_pos sound.live] at run
      split at run
      · cases run
        exact sound
      · exact sound.drainPendingPackets calls run
    | result outcome => simp [generator, calls] at run
  | some p =>
    cases a with
    | result outcome =>
      simp only [generator, calls] at run
      split at run
      next fits =>
        refine sound.sent calls fits (fun refused => ?_) run
        subst refused
        exact careful p calls
      · cases run
    | rate _ | tick | ready => simp [generator, calls] at run

theorem Sound.careful {a : Act} (sound : Sound first w) (run : (generator serialized first).step w a = some t)
    (conserves : Conserves first t) : Careful w a := by
  by_contra careless
  have balance := conserves.balance
  have before := sound.balance
  cases a with
  | rate _ | ready => exact careless trivial
  | tick =>
    cases calls : w.sending with
    | some p => simp [generator, calls] at run
    | none =>
      simp only [generator, calls] at run
      rw [sendPacket_eq sound.live] at run
      obtain ⟨pending, accepted, generated⟩ := drainPendingPackets_same run
      have beyond : ¬ w.app.m_pendingBurstBytes.toNat + burst w.app < 2 ^ 64 := careless
      have rate : (0 : ℚ) ≤ w.app.m_currentRate.toNat / 8 := by positivity
      have sum := tick_floor sound.whole sound.credit.1 rate
      have size := t.app.m_pendingBurstBytes.toNat_lt
      rw [accepted, generated] at balance
      change _ = ⌊w.generated + w.app.m_currentRate.toNat / 8⌋₊ at balance
      rw [sum] at balance
      have same : t.app.m_pendingBurstBytes.toNat = w.app.m_pendingBurstBytes.toNat + burst w.app := by
        change (bytesOf w.accepted).length + _ = _ + burst w.app at balance
        omega
      omega
  | result outcome =>
    cases outcome with
    | part _ | whole => exact careless trivial
    | refused =>
      refine careless fun p calls full => ?_
      simp only [generator, calls] at run
      obtain ⟨⟨app, note⟩, back, run⟩ := bind_eq_some_iff.mp run
      have failure : Outcome.actual p.size .refused = p.size.toInt32 := by
        rw [full]
        rfl
      rw [failure, afterSend_whole] at back
      cases back
      obtain ⟨pending, accepted, generated⟩ := drainLoop_same run
      have inside := (sound.sending p calls).1
      have left := toNat_sub_toUInt64 inside
      have size : p.size.toNat = 2 ^ 32 - 1 := congrArg UInt32.toNat full
      rw [pending, accepted, generated] at balance
      simp only [Outcome.taken, toList_none, append_nil] at balance
      omega

theorem sound_init (start : (generator serialized first).init w) : Sound first w := by
  obtain ⟨rate, enable, sentBefore, rfl⟩ := start
  refine ⟨⟨⟨le_rfl, zero_lt_one⟩, ?_, nofun, rfl, ?_, rfl⟩, rfl, ?_, fun _ => ?_, nofun⟩
  · simp [bytesOf]
  · simp
  · simp
  · simp

/-- The step leads to states that conserve the bytes. -/
def Good (serialized first : UInt32) (w : World) (a : Act) : Prop :=
  ∀ t, (generator serialized first).step w a = some t → Conserves first t

/-- A run conserves the bytes in every state exactly where the pending bytes never overflow and no packet of
2^32 - 1 bytes is refused. -/
theorem conserves_iff_careful {k : Machine.Verdict}
    (reach : ((generator serialized first).judged (fun w a => Careful w a) (Good serialized first)).Reach (w, k)) :
    k.good ↔ k.careful := by
  refine Machine.judged_iff (Sound first) (fun w start => sound_init start) (fun w a t sound run =>
    ⟨⟨?_, ?_⟩, ?_⟩) reach
  · intro good
    exact sound.careful run (good t run)
  · intro careful u other
    exact (sound.step careful other).toConserves
  · intro careful
    exact sound.step careful run

/-- At the start, with a rate of 2^35 bits per second. -/
def silent : World := { app := ⟨true, true, false, 0x800000000, 0, none, 0, 0, false⟩ }

/-- A second later: of 2^32 bytes a packet of the largest size has been made. -/
def backlog : World where
  app := { silent.app with m_pendingBurstBytes := 0x100000000 }
  sending := some ⟨0, none, 0, 0xffffffff⟩
  created := [⟨0, none, 0, 0xffffffff⟩]
  generated := 0x100000000

theorem burst_silent : silent.app.m_sendCreditBytes + silent.app.m_currentRate.toNat / 8 = (0x100000000 : ℕ) := by
  have rate : silent.app.m_currentRate.toNat = 0x800000000 := rfl
  rw [rate, show silent.app.m_sendCreditBytes = 0 from rfl]
  norm_num

theorem ticked_silent : ticked silent =
    { silent with app := { silent.app with m_pendingBurstBytes := 0x100000000 }, generated := 0x100000000 } := by
  have generated : silent.generated + silent.app.m_currentRate.toNat / 8 = 0x100000000 :=
    burst_silent.trans Nat.cast_ofNat
  have compute : silent.app.computeBurstBytesForCurrentRate = (silent.app, 0x100000000) := by
    rw [App.computeBurstBytesForCurrentRate, burst_silent]
    simp [silent]
  rw [ticked, generated, compute]
  rfl

theorem reach_backlog : (generator 0 0).ReachBy (fun w a => Careful w a) backlog := by
  have few : Careful silent .tick := by
    rw [Careful, burst_silent, Nat.floor_natCast]
    decide
  refine .next (.start (s := silent) ⟨0x800000000, false, false, rfl⟩) few (a := .tick) ?_
  change sendPacket 0 silent = some backlog
  rw [sendPacket_eq rfl, ticked_silent]
  rfl

/-- The socket takes a part of the packet. -/
theorem conserves_iff_careful_backlog : ∃ t, (generator 0 0).step backlog (.result (.part 1000)) = some t ∧
    t.accepted = [⟨0, none, 0, 1000⟩] ∧
    ∃ k, ((generator 0 0).judged (fun w a => Careful w a) (Good 0 0)).Reach (t, k) ∧ k.good := by
  have meets : Careful backlog (.result (.part 1000)) := trivial
  obtain ⟨k, reach, careful⟩ := (reach_backlog.next meets rfl).judged
  exact ⟨_, rfl, rfl, k, reach, (conserves_iff_careful reach).mpr careful⟩

/-- A packet of 2^32 - 1 bytes that `Send` refuses is taken for sent. -/
theorem not_conserves : ∃ t, (generator 0 0).step backlog (.result .refused) = some t ∧
    (generator 0 0).Reach t ∧ t.accepted = [] ∧ t.recorded = [⟨0, none, 0, 0xffffffff⟩] ∧ ¬ Conserves 0 t := by
  refine ⟨_, rfl, .next reach_backlog.reach trivial (a := .result .refused) rfl, rfl, rfl, fun conserves => ?_⟩
  exact absurd conserves.recorded (by decide)

end Dce.Traffic
