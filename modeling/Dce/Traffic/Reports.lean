import Dce.Traffic.Conservation

/- The two events of a `RateDualModeApplication` of the duration traffic model, `rate-dual-application.cc`:
the reports of each second and the changes of the state. Times are in nanoseconds from `StartTraffic`. -/

namespace Dce.Traffic

/-- The rates, and the durations of the states in the order in which they are sampled. -/
structure Config where
  steadyRate : UInt64
  burstRate : UInt64
  duration : Nat → Nat
  steady_pos : 0 < steadyRate
  burst_pos : 0 < burstRate

/-- A scheduled event: of two at one time the simulator runs the one that was scheduled first. -/
structure EventId where
  ts : Nat
  uid : Nat
  deriving DecidableEq

def EventId.Before (a b : EventId) : Prop := a.ts < b.ts ∨ a.ts = b.ts ∧ a.uid < b.uid

instance (a b : EventId) : Decidable (a.Before b) := inferInstanceAs (Decidable (_ ∨ _))

structure Report where
  time : Nat
  rate : UInt64
  bytes : UInt64
  deriving DecidableEq

structure Clock where
  now : Nat
  uid : Nat
  app : App
  m_inBurstState : Bool
  m_sendEvent : Option EventId
  m_stateEvent : Option EventId
  sampled : Nat
  reports : List Report

def second : Nat := 10 ^ 9

namespace Config

def rate (cfg : Config) (burst : Bool) : UInt64 := if burst then cfg.burstRate else cfg.steadyRate

variable (cfg : Config)

def scheduleNextTx (c : Clock) : Clock :=
  if c.app.live = false ∨ c.app.m_currentRate = 0 then c
  else { c with m_sendEvent := some ⟨c.now + second, c.uid⟩, uid := c.uid + 1 }

/-- `ScheduleNextStateChange` with the next duration that is sampled -/
def scheduleNextStateChange (c : Clock) : Clock :=
  { c with
    m_stateEvent := some ⟨c.now + max 1 (cfg.duration c.sampled), c.uid⟩
    uid := c.uid + 1
    sampled := c.sampled + 1 }

def startTraffic (c : Clock) : Clock :=
  if c.app.live then
    let c := { c with m_inBurstState := false, app := { c.app with m_currentRate := cfg.steadyRate } }
    cfg.scheduleNextStateChange (if c.m_sendEvent = none then scheduleNextTx c else c)
  else c

def advanceTrafficState (c : Clock) : Clock :=
  if c.app.live then
    let m_inBurstState := !c.m_inBurstState
    let newRate := cfg.rate m_inBurstState
    let c := { c with m_inBurstState }
    let c := if newRate ≠ c.app.m_currentRate then
        { c with app := { c.app with m_currentRate := newRate }, m_sendEvent := none }
      else c
    cfg.scheduleNextStateChange (if c.m_sendEvent = none then scheduleNextTx c else c)
  else c

/-- `SendPacket`: the bytes that are added, and the next event. -/
def sendPacket (c : Clock) : Clock :=
  if c.app.live then
    let (app, bytes) := c.app.computeBurstBytesForCurrentRate
    scheduleNextTx { c with app, reports := c.reports ++ [⟨c.now, c.app.m_currentRate, bytes⟩] }
  else c

/-- The simulator runs the next event. -/
def fire (c : Clock) : Clock :=
  match c.m_sendEvent, c.m_stateEvent with
  | some e, some f =>
    if e.Before f then sendPacket { c with now := e.ts, m_sendEvent := none }
    else cfg.advanceTrafficState { c with now := f.ts, m_stateEvent := none }
  | some e, none => sendPacket { c with now := e.ts, m_sendEvent := none }
  | none, some f => cfg.advanceTrafficState { c with now := f.ts, m_stateEvent := none }
  | none, none => c

/-- A connected application when `StartTraffic` is called, after `CancelEvents`. -/
def connected (rate : UInt64) : Clock where
  now := 0
  uid := 0
  app := { m_running := true, m_connected := true, m_enableSeqTsSizeHeader := false,
           m_currentRate := rate, m_seq := 0 }
  m_inBurstState := false
  m_sendEvent := none
  m_stateEvent := none
  sampled := 0
  reports := []

/-- The clock after so many events. -/
def run : Nat → Clock
  | 0 => cfg.startTraffic (connected cfg.steadyRate)
  | n + 1 => cfg.fire (run n)

end Config

/-- No event is run up to the time. -/
def Clock.Quiet (c : Clock) (t : Nat) : Prop :=
  (∀ e, c.m_sendEvent = some e → t < e.ts) ∧ ∀ f, c.m_stateEvent = some f → t < f.ts

end Dce.Traffic

/- When the reports of the duration traffic model come, and how large they are. -/

namespace Dce.Traffic

/-- The time of the n-th change of the state. -/
def Config.change (cfg : Config) : Nat → Nat
  | 0 => 0
  | n + 1 => cfg.change n + max 1 (cfg.duration n)

/-- The rate is that of a state that is in force at the time. -/
def Config.InForce (cfg : Config) (t : Nat) (rate : UInt64) : Prop :=
  ∃ n, cfg.change n ≤ t ∧ t ≤ cfg.change (n + 1) ∧ rate = cfg.rate (n % 2 = 1)

/-- At a time there is a report for each second that has passed, at the end of that second and of the rate in
force, and together they have the bytes of their rates. -/
structure Right (cfg : Config) (c : Clock) (t : Nat) : Prop where
  count : c.reports.length = t / second
  times : ∀ k r, c.reports[k]? = some r → r.time = (k + 1) * second
  rates : ∀ r ∈ c.reports, cfg.InForce r.time r.rate
  sizes : (c.reports.map fun r => r.bytes.toNat).sum = ⌊(c.reports.map fun r => (r.rate.toNat / 8 : ℚ)).sum⌋₊

/-- The clock between two events, after `n` changes: the next report is `e` and the next change is `f`. -/
structure Ticking (cfg : Config) (n : Nat) (e f : EventId) (c : Clock) : Prop where
  live : c.app.live
  send : c.m_sendEvent = some e
  state : c.m_stateEvent = some f
  sampled : c.sampled = n + 1
  changes : f.ts = cfg.change (n + 1)
  since : cfg.change n ≤ c.now
  before : c.now ≤ f.ts
  due : c.now ≤ e.ts
  soon : e.ts ≤ c.now + second
  older : e.uid < c.uid ∧ f.uid < c.uid
  burst : c.m_inBurstState = decide (n % 2 = 1)
  rate : c.app.m_currentRate = cfg.rate (n % 2 = 1)

/-- What has been reported. -/
structure Reported (cfg : Config) (c : Clock) : Prop where
  past : ∀ r ∈ c.reports, cfg.InForce r.time r.rate
  credit : 0 ≤ c.app.m_sendCreditBytes ∧ c.app.m_sendCreditBytes < 1
  whole : (c.reports.map fun r => (r.rate.toNat / 8 : ℚ)).sum =
    (c.reports.map fun r => r.bytes.toNat).sum + c.app.m_sendCreditBytes

namespace Config

variable {cfg : Config} {n : Nat} {e f : EventId} {c : Clock}

theorem rate_ne_zero (cfg : Config) (burst : Bool) : cfg.rate burst ≠ 0 := by
  have steady := UInt64.lt_iff_toNat_lt.mp cfg.steady_pos
  have bursty := UInt64.lt_iff_toNat_lt.mp cfg.burst_pos
  intro zero
  cases burst <;> simp_all [rate]

theorem rate_not (cfg : Config) (ne : cfg.steadyRate ≠ cfg.burstRate)
    (burst : Bool) : cfg.rate (!burst) ≠ cfg.rate burst := by
  cases burst
  · exact ne.symm
  · exact ne

/-- The clock after a report. -/
def reported (e : EventId) (c : Clock) : Clock :=
  { c with
    now := e.ts
    uid := c.uid + 1
    app := c.app.computeBurstBytesForCurrentRate.1
    m_sendEvent := some ⟨e.ts + second, c.uid⟩
    reports := c.reports ++ [⟨e.ts, c.app.m_currentRate, c.app.computeBurstBytesForCurrentRate.2⟩] }

/-- The clock after a change to another rate. -/
def changed (cfg : Config) (f : EventId) (c : Clock) : Clock :=
  { c with
    now := f.ts
    uid := c.uid + 2
    app := { c.app with m_currentRate := cfg.rate !c.m_inBurstState }
    m_inBurstState := !c.m_inBurstState
    m_sendEvent := some ⟨f.ts + second, c.uid⟩
    m_stateEvent := some ⟨f.ts + max 1 (cfg.duration c.sampled), c.uid + 1⟩
    sampled := c.sampled + 1 }

/-- The clock after a change to a state of the same rate. -/
def flipped (cfg : Config) (f : EventId) (c : Clock) : Clock :=
  { c with
    now := f.ts
    uid := c.uid + 1
    m_inBurstState := !c.m_inBurstState
    m_stateEvent := some ⟨f.ts + max 1 (cfg.duration c.sampled), c.uid⟩
    sampled := c.sampled + 1 }

variable (ticking : Ticking cfg n e f c)
include ticking

theorem fire_report (first : e.Before f) : cfg.fire c = reported e c := by
  have rate : c.app.computeBurstBytesForCurrentRate.1.m_currentRate ≠ 0 := by
    change c.app.m_currentRate ≠ 0
    rw [ticking.rate]
    exact cfg.rate_ne_zero _
  have live : c.app.computeBurstBytesForCurrentRate.1.live = true := ticking.live
  unfold fire
  rw [ticking.send, ticking.state]
  dsimp only
  rw [if_pos first, sendPacket, if_pos ticking.live]
  dsimp only [scheduleNextTx]
  rw [if_neg (by simp [live, rate]), reported, ticking.state]

theorem fire_change (ne : cfg.steadyRate ≠ cfg.burstRate) (first : ¬ e.Before f) : cfg.fire c = cfg.changed f c := by
  have other : cfg.rate (!c.m_inBurstState) ≠ c.app.m_currentRate := by
    rw [ticking.rate, ticking.burst]
    exact cfg.rate_not ne _
  have live : ({ c.app with m_currentRate := cfg.rate !c.m_inBurstState } : App).live = true := ticking.live
  unfold fire
  rw [ticking.send, ticking.state]
  dsimp only
  rw [if_neg first, advanceTrafficState, if_pos ticking.live]
  dsimp only
  rw [if_pos other, if_pos rfl, scheduleNextTx, if_neg (by simp [live, cfg.rate_ne_zero])]
  rfl

theorem fire_flip (same : cfg.steadyRate = cfg.burstRate) (first : ¬ e.Before f) : cfg.fire c = cfg.flipped f c := by
  have rate (burst : Bool) : cfg.rate burst = cfg.burstRate := by
    cases burst
    · exact same
    · rfl
  have unchanged : ¬ cfg.rate (!c.m_inBurstState) ≠ c.app.m_currentRate := by
    rw [ticking.rate, rate, rate, not_not]
  unfold fire
  rw [ticking.send, ticking.state]
  dsimp only
  rw [if_neg first, advanceTrafficState, if_pos ticking.live]
  dsimp only
  rw [if_neg unchanged, flipped, ticking.send]
  rfl

end Config

section

variable {cfg : Config} {n : Nat} {e f : EventId} {c : Clock}

section

variable (ticking : Ticking cfg n e f c)
include ticking

theorem Ticking.report (first : e.Before f) : Ticking cfg n ⟨e.ts + second, c.uid⟩ f (Config.reported e c) := by
  have order : e.ts ≤ f.ts := by
    rcases first with less | ⟨same, -⟩
    · exact less.le
    · exact same.le
  exact { ticking with
    send := rfl
    since := ticking.since.trans ticking.due
    before := order
    due := Nat.le_add_right _ _
    soon := le_rfl
    older := ⟨Nat.lt_succ_self _, Nat.lt_succ_of_lt ticking.older.2⟩ }

theorem Ticking.parity : (!c.m_inBurstState) = decide ((n + 1) % 2 = 1) := by
  rw [ticking.burst]
  rcases Nat.mod_two_eq_zero_or_one n with even | odd
  · simp [even, Nat.add_mod]
  · simp [odd, Nat.add_mod]

theorem Ticking.next : f.ts + max 1 (cfg.duration c.sampled) = cfg.change (n + 2) := by
  rw [ticking.changes, ticking.sampled]
  rfl

theorem Ticking.change :
    Ticking cfg (n + 1) ⟨f.ts + second, c.uid⟩ ⟨f.ts + max 1 (cfg.duration c.sampled),
      c.uid + 1⟩ (cfg.changed f c) where
  live := ticking.live
  send := rfl
  state := rfl
  sampled := congrArg Nat.succ ticking.sampled
  changes := ticking.next
  since := ticking.changes.ge
  before := Nat.le_add_right _ _
  due := Nat.le_add_right _ _
  soon := le_rfl
  older := ⟨Nat.lt_add_of_pos_right (by decide), Nat.lt_succ_self _⟩
  burst := ticking.parity
  rate := congrArg cfg.rate ticking.parity

theorem Ticking.flip (same : cfg.steadyRate = cfg.burstRate) (first : ¬ e.Before f) :
    Ticking cfg (n + 1) e ⟨f.ts + max 1 (cfg.duration c.sampled), c.uid⟩ (cfg.flipped f c) where
  live := ticking.live
  send := ticking.send
  state := rfl
  sampled := congrArg Nat.succ ticking.sampled
  changes := ticking.next
  since := ticking.changes.ge
  before := Nat.le_add_right _ _
  due := not_lt.mp fun less => first (.inl less)
  soon := ticking.soon.trans (Nat.add_le_add_right ticking.before _)
  older := ⟨Nat.lt_succ_of_lt ticking.older.1, Nat.lt_succ_self _⟩
  burst := ticking.parity
  rate := by
    have rate (burst : Bool) : cfg.rate burst = cfg.burstRate := by
      cases burst
      · exact same
      · rfl
    change c.app.m_currentRate = _
    rw [ticking.rate, rate, rate]

omit ticking in
theorem Reported.report (reported : Reported cfg c) (ticking : Ticking cfg n e f c) (first : e.Before f) :
    Reported cfg (Config.reported e c) := by
  have after := ticking.report first
  obtain ⟨bytes, left, credit⟩ := computeBurst_spec reported.credit
  refine ⟨fun r there => ?_, credit, ?_⟩
  · rcases List.mem_append.mp there with old | new
    · exact reported.past r old
    · rw [List.mem_singleton.mp new]
      refine ⟨n, after.since, ?_, ticking.rate⟩
      rw [← ticking.changes]
      exact after.before
  · have whole := reported.whole
    dsimp only [Config.reported] at left ⊢
    rw [List.map_append, List.map_append, List.sum_append, List.sum_append, List.map_singleton, List.map_singleton,
      List.sum_singleton, List.sum_singleton, bytes, Nat.cast_add]
    linarith

omit ticking in
theorem Reported.sizes (reported : Reported cfg c) :
    (c.reports.map fun r => r.bytes.toNat).sum = ⌊(c.reports.map fun r => (r.rate.toNat / 8 : ℚ)).sum⌋₊ := by
  rw [reported.whole, add_comm, Nat.floor_add_natCast reported.credit.1,
    Nat.floor_eq_zero.mpr reported.credit.2, Nat.zero_add]

theorem Ticking.cases : e.Before f ∧ cfg.fire c = Config.reported e c ∨
    ¬ e.Before f ∧ cfg.steadyRate ≠ cfg.burstRate ∧ cfg.fire c = cfg.changed f c ∨
    ¬ e.Before f ∧ cfg.steadyRate = cfg.burstRate ∧ cfg.fire c = cfg.flipped f c := by
  by_cases first : e.Before f
  · exact .inl ⟨first, Config.fire_report ticking first⟩
  · by_cases same : cfg.steadyRate = cfg.burstRate
    · exact .inr (.inr ⟨first, same, Config.fire_flip ticking same first⟩)
    · exact .inr (.inl ⟨first, same, Config.fire_change ticking same first⟩)

theorem Ticking.now_le_fire : c.now ≤ (cfg.fire c).now := by
  rcases ticking.cases with ⟨-, fire⟩ | ⟨-, -, fire⟩ | ⟨-, -, fire⟩ <;> rw [fire]
  · exact ticking.due
  · exact ticking.before
  · exact ticking.before

omit ticking in
theorem Ticking.not_before (first : ¬ e.Before f) : f.ts ≤ e.ts := Nat.not_lt.mp fun less => first (.inl less)

theorem Ticking.fire : ∃ n' e' f', Ticking cfg n' e' f' (cfg.fire c) ∧ e.ts ≤ e'.ts ∧ f.ts ≤ f'.ts ∧
      (cfg.fire c).now ≤ e.ts ∧ (cfg.fire c).now ≤ f.ts ∧
      ((cfg.fire c).now = e.ts ∧ e.ts < e'.ts ∨ (cfg.fire c).now = f.ts ∧ f.ts < f'.ts) := by
  have later := Nat.le_max_left 1 (cfg.duration c.sampled)
  have soon := ticking.soon.trans (Nat.add_le_add_right ticking.before second)
  rcases ticking.cases with ⟨first, fire⟩ | ⟨first, -, fire⟩ | ⟨first, same, fire⟩ <;> rw [fire]
  · have next := ticking.report first
    exact ⟨_, _, _, next, Nat.le_add_right _ _, le_rfl, le_rfl, next.before,
      .inl ⟨rfl, Nat.lt_add_of_pos_right (by decide)⟩⟩
  · exact ⟨_, _, _, ticking.change, soon, Nat.le_add_right _ _, Ticking.not_before first, le_rfl,
      .inr ⟨rfl, Nat.lt_add_of_pos_right later⟩⟩
  · exact ⟨_, _, _, ticking.flip same first, le_rfl, Nat.le_add_right _ _, Ticking.not_before first, le_rfl,
      .inr ⟨rfl, Nat.lt_add_of_pos_right later⟩⟩

end

/-- The reports have come at the end of each second, and the next one will. -/
structure OnTime (e : EventId) (c : Clock) : Prop where
  ahead : e.ts = (c.reports.length + 1) * second
  behind : c.reports.length * second ≤ c.now
  times : ∀ k r, c.reports[k]? = some r → r.time = (k + 1) * second

/-- The report that is due at the end of the second is put off. -/
structure Late (k : Nat) (e : EventId) (c : Clock) : Prop where
  count : c.reports.length = k
  within : k * second < c.now
  off : (k + 1) * second < e.ts
  times : ∀ k r, c.reports[k]? = some r → r.time = (k + 1) * second

/-- Where the rates differ: the next report is the first since the last change or comes later, and a change that
is due now is a second after the last one. -/
structure Ordered (cfg : Config) (n : Nat) (e f : EventId) (c : Clock) : Prop where
  order : e.uid < f.uid ∧ e.ts = cfg.change n + second ∨ f.uid < e.uid ∧ cfg.change n + 2 * second ≤ e.ts
  tie : c.now = f.ts → f.ts = cfg.change n + second

theorem OnTime.report (onTime : OnTime e c) : OnTime ⟨e.ts + second, c.uid⟩ (Config.reported e c) := by
  have ahead := onTime.ahead
  refine ⟨?_, ?_, fun k r there => ?_⟩
  · simp only [Config.reported, List.length_append, List.length_singleton, Nat.add_mul] at ahead ⊢
    omega
  · simp only [Config.reported, List.length_append]
    exact ahead.ge
  · dsimp only [Config.reported] at there
    rw [List.getElem?_append] at there
    split at there
    · exact onTime.times k r there
    · rw [List.getElem?_singleton] at there
      split at there <;> cases there
      have here : k = c.reports.length := by omega
      rw [here]
      exact ahead

theorem Ordered.report (ordered : Ordered cfg n e f c) (ticking : Ticking cfg n e f c) (first : e.Before f) :
    Ordered cfg n ⟨e.ts + second, c.uid⟩ f (Config.reported e c) := by
  refine ⟨.inr ⟨ticking.older.2, ?_⟩, fun now => ?_⟩
  · dsimp only
    rcases ordered.order with ⟨-, after⟩ | ⟨-, later⟩ <;> omega
  · have now : e.ts = f.ts := now
    rcases first with less | ⟨-, older⟩
    · omega
    · rcases ordered.order with ⟨-, after⟩ | ⟨newer, -⟩
      · exact now ▸ after
      · exact absurd older newer.asymm

theorem Ordered.change (ticking : Ticking cfg n e f c) :
    Ordered cfg (n + 1) ⟨f.ts + second, c.uid⟩ ⟨f.ts + max 1 (cfg.duration c.sampled),
      c.uid + 1⟩ (cfg.changed f c) := by
  refine ⟨.inl ⟨Nat.lt_succ_self _, ?_⟩, fun now => ?_⟩
  · rw [← ticking.changes]
  · have now : f.ts = f.ts + max 1 (cfg.duration c.sampled) := now
    omega

theorem second_pos : 1 < second := by decide

section

variable (onTime : OnTime e c)
include onTime

theorem OnTime.due (ordered : Ordered cfg n e f c) (ticking : Ticking cfg n e f c)
    (first : ¬ e.Before f) (one : cfg.duration n = second) : f.ts = c.reports.length * second := by
  have change : f.ts = cfg.change n + second := by
    rw [ticking.changes, Config.change, one, max_eq_right second_pos.le]
  have ahead := onTime.ahead
  have soon := ticking.soon
  have before := ticking.before
  rw [Nat.add_mul] at ahead
  rcases ordered.order with ⟨older, after⟩ | ⟨-, later⟩
  · exact absurd (.inr ⟨after.trans change.symm, older⟩) first
  · omega

theorem OnTime.of_due (ordered : Ordered cfg n e f c) (ticking : Ticking cfg n e f c)
    (due : f.ts = c.reports.length * second) : cfg.duration n = second := by
  have now : c.now = f.ts := le_antisymm ticking.before (due ▸ onTime.behind)
  have change := ordered.tie now
  have more := second_pos
  rw [ticking.changes, Config.change] at change
  omega

theorem OnTime.change (due : f.ts = c.reports.length * second) :
    OnTime ⟨f.ts + second, c.uid⟩ (cfg.changed f c) := by
  refine ⟨?_, due.ge, onTime.times⟩
  change f.ts + second = (c.reports.length + 1) * second
  rw [due, Nat.add_mul, Nat.one_mul]

theorem OnTime.flip (ticking : Ticking cfg n e f c) : OnTime e (cfg.flipped f c) :=
  ⟨onTime.ahead, onTime.behind.trans ticking.before, onTime.times⟩

theorem OnTime.late (ticking : Ticking cfg n e f c) (off : f.ts ≠ c.reports.length * second) :
    Late c.reports.length ⟨f.ts + second, c.uid⟩ (cfg.changed f c) := by
  have within : c.reports.length * second < f.ts := Nat.lt_of_le_of_ne (onTime.behind.trans ticking.before) off.symm
  refine ⟨rfl, within, ?_, onTime.times⟩
  rw [Nat.add_mul]
  exact Nat.add_lt_add_right within second

end

theorem Late.change {k : Nat} (late : Late k e c) (ticking : Ticking cfg n e f c) :
    Late k ⟨f.ts + second, c.uid⟩ (cfg.changed f c) := by
  have within : k * second < f.ts := lt_of_lt_of_le late.within ticking.before
  refine ⟨late.count, within, ?_, late.times⟩
  rw [Nat.add_mul]
  exact Nat.add_lt_add_right within second

end

section

variable {cfg : Config}

section

variable (cfg : Config)

theorem run_zero : cfg.run 0 = { Config.connected cfg.steadyRate with
    uid := 2
    m_sendEvent := some ⟨second, 0⟩
    m_stateEvent := some ⟨max 1 (cfg.duration 0), 1⟩
    sampled := 1 } := by
  have tx : Config.scheduleNextTx (Config.connected cfg.steadyRate) =
      { Config.connected cfg.steadyRate with m_sendEvent := some ⟨0 + second, 0⟩, uid := 1 } := by
    refine if_neg ?_
    rintro (live | zero)
    · cases live
    · exact cfg.rate_ne_zero false zero
  have start : cfg.run 0 = cfg.scheduleNextStateChange (Config.scheduleNextTx (Config.connected cfg.steadyRate)) :=
    rfl
  rw [start, tx, Config.scheduleNextStateChange]
  simp [Config.connected]

theorem ticking_zero : Ticking cfg 0 ⟨second, 0⟩ ⟨max 1 (cfg.duration 0), 1⟩ (cfg.run 0) := by
  rw [run_zero]
  exact ⟨rfl, rfl, rfl, rfl, (Nat.zero_add _).symm, le_rfl, Nat.zero_le _, Nat.zero_le _, (Nat.zero_add _).ge,
    ⟨Nat.zero_lt_two, Nat.one_lt_two⟩, rfl, rfl⟩

theorem reported_zero : Reported cfg (cfg.run 0) := by
  rw [run_zero]
  exact ⟨nofun, ⟨le_rfl, zero_lt_one⟩, by simp [Config.connected]⟩

theorem ordered_zero : Ordered cfg 0 ⟨second, 0⟩ ⟨max 1 (cfg.duration 0), 1⟩ (cfg.run 0) := by
  rw [run_zero]
  refine ⟨.inl ⟨Nat.zero_lt_one, (Nat.zero_add _).symm⟩, fun now => ?_⟩
  have now : 0 = max 1 (cfg.duration 0) := now
  omega

theorem onTime_zero : OnTime ⟨second, 0⟩ (cfg.run 0) := by
  rw [run_zero]
  refine ⟨?_, (Nat.zero_mul second).le, nofun⟩
  change second = (0 + 1) * second
  rw [Nat.one_mul]

theorem ticking_run (m : Nat) : (∃ n e f, Ticking cfg n e f (cfg.run m)) ∧ Reported cfg (cfg.run m) := by
  induction m with
  | zero => exact ⟨⟨_, _, _, ticking_zero cfg⟩, reported_zero cfg⟩
  | succ m ih =>
    obtain ⟨⟨n, e, f, ticking⟩, reported⟩ := ih
    rw [Config.run]
    rcases ticking.cases with ⟨first, fire⟩ | ⟨-, -, fire⟩ | ⟨first, same, fire⟩ <;> rw [fire]
    · exact ⟨⟨_, _, _, ticking.report first⟩, reported.report ticking first⟩
    · exact ⟨⟨_, _, _, ticking.change⟩, reported.past, reported.credit, reported.whole⟩
    · exact ⟨⟨_, _, _, ticking.flip same first⟩, reported.past, reported.credit, reported.whole⟩

theorem now_le_run (m : Nat) : (cfg.run m).now ≤ (cfg.run (m + 1)).now := by
  obtain ⟨⟨n, e, f, ticking⟩, -⟩ := ticking_run cfg m
  exact ticking.now_le_fire

end

/-- The events go on beyond every time, so what each of them keeps up to the time holds when it is quiet. -/
theorem quiet_of_keeps {P : Clock → Prop} {t : Nat}
    (keeps : ∀ n e f c, Ticking cfg n e f c → P c → (cfg.fire c).now ≤ t → P (cfg.fire c))
    {m : Nat} (now : (cfg.run m).now ≤ t) (here : P (cfg.run m)) : ∃ k, (cfg.run k).now ≤ t ∧ (cfg.run k).Quiet t ∧
    P (cfg.run k) := by
  obtain ⟨⟨n, e, f, ticking⟩, -⟩ := ticking_run cfg m
  -- each event is put off by at least a nanosecond
  induction left : t + 1 - e.ts + (t + 1 - f.ts) using Nat.strong_induction_on generalizing m n e f with
  | _ left ih =>
    by_cases quiet : t < e.ts ∧ t < f.ts
    · refine ⟨m, now, ⟨fun e' same => ?_, fun f' same => ?_⟩, here⟩
      · rw [← Option.some.inj (ticking.send.symm.trans same)]
        exact quiet.1
      · rw [← Option.some.inj (ticking.state.symm.trans same)]
        exact quiet.2
    · obtain ⟨n', e', f', next, putOff, later, early, early', moved⟩ := ticking.fire
      have due : (cfg.run (m + 1)).now ≤ t := by
        change (cfg.fire (cfg.run m)).now ≤ t
        omega
      refine ih _ ?_ due (keeps n e f _ ticking here due) n' e' f' next rfl
      omega

theorem exists_quiet (cfg : Config) (t : Nat) : ∃ m, (cfg.run m).now ≤ t ∧ (cfg.run m).Quiet t := by
  have start : (cfg.run 0).now ≤ t := by
    rw [run_zero]
    exact Nat.zero_le t
  obtain ⟨m, now, quiet, -⟩ := quiet_of_keeps (P := fun _ => True) (fun _ _ _ _ _ _ _ => trivial) start trivial
  exact ⟨m, now, quiet⟩

theorem onTime_of_same (same : cfg.steadyRate = cfg.burstRate) (m : Nat) :
    ∃ n e f, Ticking cfg n e f (cfg.run m) ∧ OnTime e (cfg.run m) := by
  induction m with
  | zero => exact ⟨_, _, _, ticking_zero cfg, onTime_zero cfg⟩
  | succ m ih =>
    obtain ⟨n, e, f, ticking, onTime⟩ := ih
    rw [Config.run]
    rcases ticking.cases with ⟨first, fire⟩ | ⟨-, ne, -⟩ | ⟨first, -, fire⟩
    · rw [fire]
      exact ⟨_, _, _, ticking.report first, onTime.report⟩
    · exact absurd same ne
    · rw [fire]
      exact ⟨_, _, _, ticking.flip same first, onTime.flip ticking⟩

/-- Up to the end of the `k`-th second each state lasts a second. -/
def Whole (cfg : Config) (k : Nat) : Prop := ∀ n, cfg.change (n + 1) ≤ k * second → cfg.duration n = second

/-- Where each state lasts a second the reports are on time, and after the last of them none comes too early. -/
theorem onTime_of_whole (ne : cfg.steadyRate ≠ cfg.burstRate) {k : Nat} (whole : Whole cfg k) (m : Nat)
    (now : (cfg.run m).now < (k + 1) * second) :
    ∃ n e f, Ticking cfg n e f (cfg.run m) ∧ Ordered cfg n e f (cfg.run m) ∧
    (OnTime e (cfg.run m) ∨ Late k e (cfg.run m)) := by
  induction m with
  | zero => exact ⟨_, _, _, ticking_zero cfg, ordered_zero cfg, .inl (onTime_zero cfg)⟩
  | succ m ih =>
    obtain ⟨n, e, f, ticking, ordered, upToNow⟩ := ih (lt_of_le_of_lt (now_le_run cfg m) now)
    rw [Config.run] at now ⊢
    rcases ticking.cases with ⟨first, fire⟩ | ⟨first, -, fire⟩ | ⟨-, same, -⟩
    · rw [fire] at now ⊢
      refine ⟨_, _, _, ticking.report first, ordered.report ticking first, ?_⟩
      rcases upToNow with onTime | late
      · exact .inl onTime.report
      · exact absurd now late.off.asymm
    · rw [fire] at now ⊢
      refine ⟨_, _, _, ticking.change, .change ticking, ?_⟩
      rcases upToNow with onTime | late
      · by_cases due : f.ts = (cfg.run m).reports.length * second
        · exact .inl (onTime.change due)
        · -- such a change comes after the last of the reports
          have off := onTime.late ticking due
          have after : k * second < f.ts := by
            by_contra inside
            have one := whole n (ticking.changes ▸ not_lt.mp inside)
            exact due (onTime.due ordered ticking first one)
          have last : (cfg.run m).reports.length = k := by
            have ahead := onTime.ahead
            have put := Ticking.not_before first
            have below : k * second < ((cfg.run m).reports.length + 1) * second := by omega
            have above : (cfg.run m).reports.length * second < (k + 1) * second := lt_trans off.within now
            have least := Nat.lt_of_mul_lt_mul_right below
            have most := Nat.lt_of_mul_lt_mul_right above
            omega
          exact .inr (last ▸ off)
      · exact .inr (late.change ticking)
    · exact absurd same ne

theorem OnTime.right {n t : Nat} {e f : EventId} {c : Clock} (onTime : OnTime e c) (reported : Reported cfg c)
    (ticking : Ticking cfg n e f c) (now : c.now ≤ t) (quiet : c.Quiet t) : Right cfg c t := by
  have next := quiet.1 e ticking.send
  rw [onTime.ahead] at next
  have count := Nat.div_eq_of_lt_le (onTime.behind.trans now) next
  exact ⟨count.symm, onTime.times, reported.past, reported.sizes⟩

theorem Late.right {k t : Nat} {e : EventId} {c : Clock} (late : Late k e c) (reported : Reported cfg c)
    (now : c.now ≤ t) (inside : t < (k + 1) * second) : Right cfg c t := by
  have count := Nat.div_eq_of_lt_le (late.within.le.trans now) inside
  exact ⟨late.count.trans count.symm, late.times, reported.past, reported.sizes⟩

/-- Up to the end of the `k`-th second, and before that of the next one, the reports are right. -/
def RightUpTo (cfg : Config) (k : Nat) : Prop :=
  ∀ m t, t < (k + 1) * second → (cfg.run m).now ≤ t → (cfg.run m).Quiet t → Right cfg (cfg.run m) t

theorem Late.missed {k m : Nat} {n : Nat} {e f : EventId} (ne : cfg.steadyRate ≠ cfg.burstRate)
    (ticking : Ticking cfg n e f (cfg.run m)) (late : Late k e (cfg.run m))
    (now : (cfg.run m).now ≤ (k + 1) * second)
    (right : RightUpTo cfg (k + 1)) : False := by
  let PutOff (c : Clock) : Prop := ∃ n e f, Ticking cfg n e f c ∧ Late k e c
  have keeps : ∀ n e f c, Ticking cfg n e f c → PutOff c → (cfg.fire c).now ≤ (k + 1) * second →
      PutOff (cfg.fire c) := by
    rintro - - - c - ⟨n, e, f, ticking, late⟩ now
    rcases ticking.cases with ⟨-, fire⟩ | ⟨-, -, fire⟩ | ⟨-, same, -⟩
    · rw [fire] at now
      exact absurd late.off (not_lt.mpr now)
    · rw [fire]
      exact ⟨_, _, _, ticking.change, late.change ticking⟩
    · exact absurd same ne
  obtain ⟨i, upTo, quiet, n, e, f, -, late⟩ := quiet_of_keeps keeps now ⟨n, e, f, ticking, late⟩
  have count := (right i _ (Nat.mul_lt_mul_of_pos_right (Nat.lt_succ_self _) (by decide)) upTo quiet).count
  rw [late.count, Nat.mul_div_cancel _ (by decide)] at count
  omega

theorem RightUpTo.mono {j k : Nat} (less : j ≤ k) (right : RightUpTo cfg k) : RightUpTo cfg j := fun m t before =>
  right m t (Nat.lt_of_lt_of_le before (Nat.mul_le_mul_right second (Nat.succ_le_succ less)))

theorem onTime_of_right (ne : cfg.steadyRate ≠ cfg.burstRate) {k : Nat} (right : RightUpTo cfg k) (m : Nat)
    (now : (cfg.run m).now ≤ k * second) :
    ∃ n e f, Ticking cfg n e f (cfg.run m) ∧ Ordered cfg n e f (cfg.run m) ∧ OnTime e (cfg.run m) ∧
      ∀ i < n, cfg.duration i = second := by
  induction m with
  | zero => exact ⟨_, _, _, ticking_zero cfg, ordered_zero cfg, onTime_zero cfg, nofun⟩
  | succ m ih =>
    obtain ⟨n, e, f, ticking, ordered, onTime, whole⟩ := ih ((now_le_run cfg m).trans now)
    rcases ticking.cases with ⟨first, fire⟩ | ⟨first, -, fire⟩ | ⟨-, same, -⟩
    · rw [Config.run, fire]
      exact ⟨_, _, _, ticking.report first, ordered.report ticking first, onTime.report, whole⟩
    · by_cases due : f.ts = (cfg.run m).reports.length * second
      · rw [Config.run, fire]
        refine ⟨_, _, _, ticking.change, .change ticking, onTime.change due, fun i before => ?_⟩
        rcases Nat.lt_succ_iff_lt_or_eq.mp before with old | rfl
        · exact whole i old
        · exact onTime.of_due ordered ticking due
      · -- the change puts off a report that should come before the end of the `k`-th second
        have late := onTime.late ticking due
        have next := ticking.change
        have here : (cfg.fire (cfg.run m)).now = f.ts := by
          rw [fire]
          rfl
        rw [← fire] at late next
        have within := late.within
        have inside : (cfg.run m).reports.length + 1 ≤ k := Nat.lt_of_mul_lt_mul_right (lt_of_lt_of_le within now)
        refine (late.missed (m := m + 1) ne next ?_ (right.mono inside)).elim
        have ahead := onTime.ahead
        have put := Ticking.not_before first
        change (cfg.fire (cfg.run m)).now ≤ _
        omega
    · exact absurd same ne

theorem change_mono (cfg : Config) {i j : Nat} (less : i ≤ j) : cfg.change i ≤ cfg.change j := by
  induction less with
  | refl => exact le_rfl
  | step _ ih => exact ih.trans (Nat.le_add_right _ _)

/-- Up to the end of any second the reports are right exactly where the rates are the same or every state that
ends by then lasts a second. -/
theorem rightUpTo_iff (cfg : Config) (k : Nat) : RightUpTo cfg k ↔ cfg.steadyRate = cfg.burstRate ∨ Whole cfg k := by
  constructor
  · intro right
    refine or_iff_not_imp_left.mpr fun differ n ends => ?_
    obtain ⟨m, now, quiet⟩ := exists_quiet cfg (k * second)
    obtain ⟨i, e, f, ticking, -, -, whole⟩ := onTime_of_right differ right m now
    refine whole n ?_
    by_contra after
    have next := quiet.2 f ticking.state
    have more := change_mono cfg (Nat.add_le_add_right (not_lt.mp after) 1)
    rw [ticking.changes] at next
    omega
  · rintro (same | whole) m t inside now quiet
    · obtain ⟨n, e, f, ticking, onTime⟩ := onTime_of_same same m
      exact onTime.right (ticking_run cfg m).2 ticking now quiet
    · by_cases same : cfg.steadyRate = cfg.burstRate
      · obtain ⟨n, e, f, ticking, onTime⟩ := onTime_of_same same m
        exact onTime.right (ticking_run cfg m).2 ticking now quiet
      · obtain ⟨n, e, f, ticking, -, onTime | late⟩ := onTime_of_whole same whole m (lt_of_le_of_lt now inside)
        · exact onTime.right (ticking_run cfg m).2 ticking now quiet
        · exact late.right (ticking_run cfg m).2 now inside

end

/-- States of half a second. -/
def halves : Config where
  steadyRate := 12000
  burstRate := 25000000
  duration _ := second / 2
  steady_pos := by decide
  burst_pos := by decide

/-- After the first second, in which the state has changed twice, there is no report. -/
theorem not_rightUpTo : (halves.run 2).now ≤ second ∧ (halves.run 2).Quiet second ∧ (halves.run 2).reports = [] ∧
    ¬ RightUpTo halves 1 := by
  have now : (halves.run 2).now = second := rfl
  have quiet : (halves.run 2).Quiet second := by
    refine ⟨fun e send => ?_, fun f state => ?_⟩
    · have due : (halves.run 2).m_sendEvent = some ⟨2 * second, 4⟩ := rfl
      rw [← Option.some.inj (due.symm.trans send)]
      decide
    · have due : (halves.run 2).m_stateEvent = some ⟨second + second / 2, 5⟩ := rfl
      rw [← Option.some.inj (due.symm.trans state)]
      decide
  refine ⟨now.le, quiet, rfl, fun right => ?_⟩
  have count := (right 2 second (by decide) now.le quiet).count
  exact absurd count (by decide)

end Dce.Traffic
