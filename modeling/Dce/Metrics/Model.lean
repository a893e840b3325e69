import Dce.Lib.Grouped
import Mathlib.Algebra.Order.Ring.Rat
import Mathlib.Data.UInt

/- The metrics of the priorities: `PriorityPacketSinkTracker` and `ApplyPriorityPathSplitMetrics`,
`pamptcp-report.cc`. Times are in nanoseconds and the `double` values are rationals. -/

namespace Dce.Metrics

open Grouped (alter)

/-- `ClientTrafficConfig`, of which the report uses these -/
structure Client where
  clientIndex : Nat
  templateId : String
  priority : Nat

structure Binding where
  clientIndex : Nat
  priority : Nat
  templateId : String

structure ClientWindowStats where
  rxBytes : UInt64 := 0
  rxPackets : UInt64 := 0
  delaySlaViolationPackets : UInt64 := 0
  delaySamplesMs : List ℚ := []
  jitterSamplesMs : List ℚ := []
  lastDelayMs : ℚ := 0
  hasLastDelay : Bool := false

structure DelayAggregateStats where
  activeFlows : UInt32 := 0
  rxPackets : UInt64 := 0
  delaySlaViolationPackets : UInt64 := 0
  delaySamplesMs : List ℚ := []
  jitterSamplesMs : List ℚ := []

/-- `PriorityAggregateStats`; the least throughput starts as the largest `double`, here `none`. -/
structure PriorityAggregateStats where
  expectedFlows : UInt32 := 0
  activeFlows : UInt32 := 0
  rxBytes : UInt64 := 0
  rxPackets : UInt64 := 0
  steadyDelay : DelayAggregateStats := {}
  peakDelay : DelayAggregateStats := {}
  minFlowThroughputMbps : Option ℚ := none
  maxFlowThroughputMbps : ℚ := 0

/-- `PriorityMetricsEntry`, where `delay`, `peakDelay` and `jitter` are the samples that
`SummarizeDistribution` is given. -/
structure PriorityMetricsEntry where
  isOverall : Bool
  priority : Nat
  expectedFlows : UInt32
  activeFlows : UInt32
  delayActiveFlows : UInt32
  rxBytes : UInt64
  rxPackets : UInt64
  delayRxPackets : UInt64
  throughputMbps : ℚ
  delay : List ℚ
  peakDelay : List ℚ
  jitter : List ℚ
  flowThroughputRange : Option (Option ℚ × ℚ)
  delaySlaThresholdMs : Option ℚ
  delaySlaViolationPackets : UInt64
  delaySlaViolationRatePct : ℚ
  nrPayloadBytes : UInt64 := 0
  wifiPayloadBytes : UInt64 := 0
  nrSharePct : ℚ := 0
  wifiSharePct : ℚ := 0

structure PriorityMetricsReport where
  unknownPackets : UInt64
  outsideWindowPackets : UInt64
  entries : List PriorityMetricsEntry

def templateIdLooksPeakLike (templateId : String) : Bool :=
  "peak".toList <:+: templateId.toList.map Char.toLower

def getDelaySlaThresholdMs (priority : Nat) : ℚ := if priority = 1 then 20 else if priority = 2 then 40 else 100

structure PriorityPacketSinkTracker (A : Type) where
  m_bindingBySource : A → Option Binding := fun _ => none
  m_clientStats : List ClientWindowStats := []
  m_windowStart : Int
  m_windowStop : Int
  m_unknownPackets : UInt64 := 0
  m_outsideWindowPackets : UInt64 := 0

/-- What `Rx` does to the statistics of a client. -/
def ClientWindowStats.receive (stats : ClientWindowStats) (priority : Nat) (delayMs : ℚ)
    (size : UInt64) : ClientWindowStats where
  rxBytes := stats.rxBytes + size
  rxPackets := stats.rxPackets + 1
  delaySlaViolationPackets :=
    if getDelaySlaThresholdMs priority < delayMs then stats.delaySlaViolationPackets + 1
    else stats.delaySlaViolationPackets
  delaySamplesMs := stats.delaySamplesMs ++ [delayMs]
  jitterSamplesMs :=
    if stats.hasLastDelay then stats.jitterSamplesMs ++ [|delayMs - stats.lastDelayMs|] else stats.jitterSamplesMs
  lastDelayMs := delayMs
  hasLastDelay := true

namespace PriorityPacketSinkTracker

variable {A : Type} [DecidableEq A]

def registerSource (t : PriorityPacketSinkTracker A) (src : A) (clientIndex : Nat) (priority : Nat)
    (templateId : String) : PriorityPacketSinkTracker A :=
  { t with
    m_bindingBySource := fun a => if a = src then some ⟨clientIndex, priority, templateId⟩ else t.m_bindingBySource a
    m_clientStats := t.m_clientStats ++ List.replicate (clientIndex + 1 - t.m_clientStats.length) {} }

/-- `Rx` at the time `now` of a packet with the size and the time `ts` in its header, from a source that has
an IPv4 address or not. It is undefined where the client has no statistics. -/
def rx (t : PriorityPacketSinkTracker A) (source : Option A) (now ts : Int) (size : UInt64) :
    Option (PriorityPacketSinkTracker A) :=
  match source with
  | none => some t
  | some src =>
    match t.m_bindingBySource src with
    | none => some { t with m_unknownPackets := t.m_unknownPackets + 1 }
    | some binding =>
      if now < t.m_windowStart ∨ t.m_windowStop < now then
        some { t with m_outsideWindowPackets := t.m_outsideWindowPackets + 1 }
      else do
        let stats ← t.m_clientStats[binding.clientIndex]?
        let delayMs : ℚ := (now - ts : Int) / 1000000
        some { t with m_clientStats :=
          t.m_clientStats.set binding.clientIndex (stats.receive binding.priority delayMs size) }

end PriorityPacketSinkTracker

/-- What `BuildSummary` adds to the delays of the steady or of the peak flows. -/
def DelayAggregateStats.add (d : DelayAggregateStats) (stats : ClientWindowStats) : DelayAggregateStats where
  activeFlows := d.activeFlows + 1
  rxPackets := d.rxPackets + stats.rxPackets
  delaySlaViolationPackets := d.delaySlaViolationPackets + stats.delaySlaViolationPackets
  delaySamplesMs := d.delaySamplesMs ++ stats.delaySamplesMs
  jitterSamplesMs := d.jitterSamplesMs ++ stats.jitterSamplesMs

/-- `bytes * 8.0 / windowSeconds / 1e6` -/
def throughput (windowSeconds : ℚ) (bytes : UInt64) : ℚ :=
  if 0 < windowSeconds then bytes.toNat * 8 / windowSeconds / 1000000 else 0

namespace PriorityAggregateStats

/-- A flow that is expected. -/
def expect (a : PriorityAggregateStats) : PriorityAggregateStats := { a with expectedFlows := a.expectedFlows + 1 }

/-- What the loop over the clients of `BuildSummary` adds, for a priority and overall. -/
def add (windowSeconds : ℚ) (a : PriorityAggregateStats) (client : Client) (stats : ClientWindowStats) :
    PriorityAggregateStats :=
  if stats.rxPackets = 0 then a
  else
    let flow := throughput windowSeconds stats.rxBytes
    let peak := templateIdLooksPeakLike client.templateId
    { a with
      activeFlows := a.activeFlows + 1
      rxBytes := a.rxBytes + stats.rxBytes
      rxPackets := a.rxPackets + stats.rxPackets
      minFlowThroughputMbps := some (a.minFlowThroughputMbps.elim flow (min · flow))
      maxFlowThroughputMbps := max a.maxFlowThroughputMbps flow
      peakDelay := if peak then a.peakDelay.add stats else a.peakDelay
      steadyDelay := if peak then a.steadyDelay else a.steadyDelay.add stats }

/-- `AppendAggregate` -/
def entry (windowSeconds : ℚ) (isOverall : Bool) (priority : Nat) (a : PriorityAggregateStats) :
    PriorityMetricsEntry where
  isOverall
  priority
  expectedFlows := a.expectedFlows
  activeFlows := a.activeFlows
  delayActiveFlows := a.steadyDelay.activeFlows
  rxBytes := a.rxBytes
  rxPackets := a.rxPackets
  delayRxPackets := a.steadyDelay.rxPackets
  throughputMbps := throughput windowSeconds a.rxBytes
  delay := a.steadyDelay.delaySamplesMs
  peakDelay := a.peakDelay.delaySamplesMs
  jitter := a.steadyDelay.jitterSamplesMs
  flowThroughputRange := if 0 < a.activeFlows then some (a.minFlowThroughputMbps, a.maxFlowThroughputMbps) else none
  delaySlaThresholdMs := if isOverall then none else some (getDelaySlaThresholdMs priority)
  delaySlaViolationPackets := a.steadyDelay.delaySlaViolationPackets
  delaySlaViolationRatePct :=
    if 0 < a.steadyDelay.rxPackets then
      100 * a.steadyDelay.delaySlaViolationPackets.toNat / a.steadyDelay.rxPackets.toNat
    else 0

end PriorityAggregateStats

abbrev Aggregates : Type := List (Nat × PriorityAggregateStats)

/-- The first loop of `BuildSummary`: the aggregates of the priorities, and the one of all. -/
def expectFlows (clients : List Client) : Aggregates × PriorityAggregateStats :=
  clients.foldl (fun (m, overall) client => (alter {} client.priority .expect m, overall.expect)) ([], {})

/-- The second loop of `BuildSummary`, over the clients with their statistics. -/
def addFlows (windowSeconds : ℚ) (flows : List (Client × ClientWindowStats))
    (start : Aggregates × PriorityAggregateStats) :
    Aggregates × PriorityAggregateStats :=
  flows.foldl (fun (m, overall) (client, stats) =>
    (alter {} client.priority (fun a => a.add windowSeconds client stats) m,
      overall.add windowSeconds client stats)) start

/-- `BuildSummary`. It is undefined where a client has no statistics. -/
def PriorityPacketSinkTracker.buildSummary {A : Type} (t : PriorityPacketSinkTracker A) (clients : List Client)
    (windowSeconds : ℚ) : Option PriorityMetricsReport :=
  if t.m_clientStats.length < clients.length then none
  else
    let (aggregates, overall) := addFlows windowSeconds (clients.zip t.m_clientStats) (expectFlows clients)
    some {
      unknownPackets := t.m_unknownPackets
      outsideWindowPackets := t.m_outsideWindowPackets
      entries := overall.entry windowSeconds true 0 :: aggregates.map fun (priority, a) =>
        a.entry windowSeconds false priority }

structure PathSplitAggregate where
  nrPayloadBytes : UInt64 := 0
  wifiPayloadBytes : UInt64 := 0

def PathSplitAggregate.add (nrBytes wifiBytes : UInt64) (a : PathSplitAggregate) : PathSplitAggregate where
  nrPayloadBytes := a.nrPayloadBytes + nrBytes
  wifiPayloadBytes := a.wifiPayloadBytes + wifiBytes

abbrev PathSplits : Type := List (Nat × PathSplitAggregate)

/-- The nodes of the clients, their addresses at the NR interface, those of the nodes at the Wi-Fi interface,
and the payload that came from an address. -/
structure Paths (A : Type) where
  ueNodes : List Nat
  ueNrIf : List A
  wifiCfgByNodeId : Nat → Option A
  getPayloadBytes : A → UInt64

/-- A round of the loop of `ApplyPriorityPathSplitMetrics` over the nodes. It is undefined where there is no
such client. -/
def splitNode {A : Type} (paths : Paths A) (clients : List Client) (s : PathSplits × PathSplitAggregate)
    (at_ : Nat × Nat) : Option (PathSplits × PathSplitAggregate) := do
  let (node, i) := at_
  let client ← clients[i]?
  match paths.wifiCfgByNodeId node with
  | none => some s
  | some addr =>
    let nrBytes := paths.getPayloadBytes (← paths.ueNrIf[i]?)
    let wifiBytes := paths.getPayloadBytes addr
    some (alter {} client.priority (.add nrBytes wifiBytes) s.1, s.2.add nrBytes wifiBytes)

/-- What `ApplyPriorityPathSplitMetrics` writes to an entry. -/
def PriorityMetricsEntry.split (aggregates : PathSplits) (overall : PathSplitAggregate)
    (entry : PriorityMetricsEntry) :
    PriorityMetricsEntry :=
  let found := if entry.isOverall then overall else (aggregates.lookup entry.priority).getD {}
  let totalBytes := found.nrPayloadBytes + found.wifiPayloadBytes
  { entry with
    nrPayloadBytes := found.nrPayloadBytes
    wifiPayloadBytes := found.wifiPayloadBytes
    nrSharePct := if 0 < totalBytes then 100 * found.nrPayloadBytes.toNat / totalBytes.toNat else entry.nrSharePct
    wifiSharePct := if 0 < totalBytes then 100 * found.wifiPayloadBytes.toNat / totalBytes.toNat
      else entry.wifiSharePct }

def applyPriorityPathSplitMetrics {A : Type} (paths : Paths A) (clients : List Client)
    (report : PriorityMetricsReport) :
    Option PriorityMetricsReport := do
  let (aggregates, overall) ← paths.ueNodes.zipIdx.foldlM (splitNode paths clients) ([], {})
  some { report with entries := report.entries.map (.split aggregates overall) }

end Dce.Metrics

/- Each reception is counted once. -/

namespace Dce.Metrics

open ClientWindowStats List Option

variable {A : Type} [DecidableEq A]

inductive Call (A : Type)
  | register (src : A) (clientIndex : Nat) (priority : Nat) (templateId : String)
  | rx (source : Option A) (now ts : Int) (size : UInt64)

/-- The client is registered under its own index and priority. -/
def Call.Own (clients : List Client) : Call A → Prop
  | register _ clientIndex priority templateId =>
    ∃ client, clients[clientIndex]? = some client ∧ priority = client.priority ∧ templateId = client.templateId
  | rx .. => True

/-- The client with the index is registered. -/
def Call.Registers (i : Nat) : Call A → Prop
  | register _ clientIndex _ _ => clientIndex = i
  | rx .. => False

/-- A reception from an IPv4 address. -/
def Call.isIpv4 : Call A → Bool
  | rx (some _) .. => true
  | _ => false

/-- What a reception is counted as. -/
inductive Category
  | unknown
  | outside
  | client (i : Nat)
  deriving DecidableEq

namespace PriorityPacketSinkTracker

def call (t : PriorityPacketSinkTracker A) : Call A → Option (PriorityPacketSinkTracker A)
  | .register src clientIndex priority templateId => some (t.registerSource src clientIndex priority templateId)
  | .rx source now ts size => t.rx source now ts size

def run (t : PriorityPacketSinkTracker A) (calls : List (Call A)) : Option (PriorityPacketSinkTracker A) :=
  calls.foldlM call t

def counter (t : PriorityPacketSinkTracker A) : Category → UInt64
  | .unknown => t.m_unknownPackets
  | .outside => t.m_outsideWindowPackets
  | .client i => (t.m_clientStats[i]?.map ClientWindowStats.rxPackets).getD 0

/-- The category of a reception is that of its source, if this is known, at its time. -/
def category (t : PriorityPacketSinkTracker A) : Call A → Option Category
  | .rx (some src) now _ _ =>
    match t.m_bindingBySource src with
    | none => some .unknown
    | some binding =>
      if now < t.m_windowStart ∨ t.m_windowStop < now then some .outside else some (.client binding.clientIndex)
  | _ => none

/-- The categories of the receptions of a run. -/
def categories (t : PriorityPacketSinkTracker A) : List (Call A) → List Category
  | [] => []
  | c :: calls => (t.category c).toList ++ ((t.call c).map fun u => u.categories calls).getD []

/-- All that is counted. -/
def total (t : PriorityPacketSinkTracker A) : UInt64 :=
  t.m_unknownPackets + t.m_outsideWindowPackets + (t.m_clientStats.map ClientWindowStats.rxPackets).sum

/-- A client that is registered has statistics. -/
def Sound (t : PriorityPacketSinkTracker A) : Prop :=
  ∀ src binding, t.m_bindingBySource src = some binding → binding.clientIndex < t.m_clientStats.length

end PriorityPacketSinkTracker

open PriorityPacketSinkTracker

variable {t u : PriorityPacketSinkTracker A} {c : Call A} {calls : List (Call A)} {clients : List Client}

omit [DecidableEq A] in
theorem isSome_category (t : PriorityPacketSinkTracker A) (c : Call A) : (t.category c).isSome = c.isIpv4 := by
  cases c with
  | register => rfl
  | rx source now ts size =>
    cases source with
    | none => rfl
    | some src =>
      unfold category
      dsimp only
      split
      · rfl
      · split <;> rfl

theorem sum_set {l : List ClientWindowStats} {i : Nat} {old new : ClientWindowStats} (there : l[i]? = some old)
    (one : new.rxPackets = old.rxPackets + 1) :
    ((l.set i new).map rxPackets).sum = (l.map rxPackets).sum + 1 := by
  induction l generalizing i with
  | nil => cases there
  | cons s l ih =>
    cases i with
    | zero =>
      cases there
      simp only [set_cons_zero, map_cons, sum_cons, one]
      abel
    | succ i =>
      simp only [set_cons_succ, map_cons, sum_cons, ih there]
      abel

variable (sound : t.Sound)
include sound

theorem registerSource_spec (src : A) (clientIndex priority : Nat) (templateId : String) :
    (t.registerSource src clientIndex priority templateId).Sound ∧
      (∀ k, (t.registerSource src clientIndex priority templateId).counter k = t.counter k) ∧
      (t.registerSource src clientIndex priority templateId).total = t.total ∧
      (t.registerSource src clientIndex priority templateId).m_clientStats.length =
        max t.m_clientStats.length (clientIndex + 1) := by
  have length : (t.registerSource src clientIndex priority templateId).m_clientStats.length =
      max t.m_clientStats.length (clientIndex + 1) := by
    simp only [registerSource, length_append, length_replicate]
    omega
  refine ⟨fun a binding bound => ?_, fun k => ?_, ?_, length⟩
  · simp only [registerSource] at bound
    split at bound
    · cases bound
      dsimp only
      omega
    · have inside := sound a binding bound
      omega
  · cases k with
    | unknown => rfl
    | outside => rfl
    | client i =>
      simp only [counter, registerSource, getElem?_append, getElem?_replicate]
      split
      · rfl
      next beyond =>
        rw [getElem?_eq_none (not_lt.mp beyond)]
        split <;> rfl
  · simp [total, registerSource]

omit [DecidableEq A] in
theorem rx_spec (source : Option A) (now ts : Int) (size : UInt64) :
    ∃ u, t.rx source now ts size = some u ∧ u.Sound ∧ u.m_clientStats.length = t.m_clientStats.length ∧
      (∀ k, u.counter k = t.counter k + if t.category (.rx source now ts size) = some k then 1 else 0) ∧
      u.total = t.total + if source.isSome then 1 else 0 := by
  cases source with
  | none => exact ⟨t, rfl, sound, rfl, fun k => by simp [category], by simp⟩
  | some src =>
    unfold rx category
    rcases eq_none_or_eq_some (t.m_bindingBySource src) with bound | ⟨binding, bound⟩
    · simp only [bound]
      refine ⟨_, rfl, sound, rfl, fun k => ?_, ?_⟩
      · cases k <;> simp [counter]
      · simp only [total, isSome_some, if_true]
        abel
    · simp only [bound]
      split
      · refine ⟨_, rfl, sound, rfl, fun k => ?_, ?_⟩
        · cases k <;> simp [counter]
        · simp only [total, isSome_some, if_true]
          abel
      · have inside := sound src binding bound
        have there := getElem?_eq_getElem inside
        rw [there]
        refine ⟨_, rfl, fun a b known => ?_, length_set, fun k => ?_, ?_⟩
        · rw [length_set]
          exact sound a b known
        · cases k with
          | unknown => simp [counter]
          | outside => simp [counter]
          | client i =>
            by_cases same : binding.clientIndex = i
            · subst same
              simp [counter, inside, ClientWindowStats.receive]
            · simp [counter, same]
        · simp only [total]
          rw [sum_set there rfl]
          abel

theorem call_spec (c : Call A) : ∃ u, t.call c = some u ∧ u.Sound ∧
      (∀ k, u.counter k = t.counter k + if t.category c = some k then 1 else 0) ∧
      (u.total = t.total + if c.isIpv4 then 1 else 0) ∧
      t.m_clientStats.length ≤ u.m_clientStats.length ∧
      (∀ i, c.Registers i → i < u.m_clientStats.length) ∧
      ∀ clients, c.Own clients → t.m_clientStats.length ≤ clients.length →
      u.m_clientStats.length ≤ clients.length := by
  cases c with
  | register src clientIndex priority templateId =>
    obtain ⟨still, counters, total, length⟩ := registerSource_spec sound src clientIndex priority templateId
    refine ⟨_, rfl, still, fun k => by simp [counters, category], by simp [total, Call.isIpv4], ?_, ?_, ?_⟩
    · rw [length]
      exact le_max_left _ _
    · rintro i rfl
      rw [length]
      exact Nat.le_max_right _ _
    · rintro clients ⟨client, own, -, -⟩ fits
      rw [length]
      exact max_le fits (List.getElem?_eq_some_iff.mp own).1
  | rx source now ts size =>
    obtain ⟨u, run, still, length, counters, total⟩ := rx_spec sound source now ts size
    refine ⟨u, run, still, counters, ?_, length.ge, fun _ => False.elim, fun _ _ fits => length ▸ fits⟩
    cases source <;> exact total

theorem run_spec (calls : List (Call A)) :
    ∃ u, t.run calls = some u ∧ u.Sound ∧ (t.categories calls).length = calls.countP Call.isIpv4 ∧
      (∀ k, u.counter k = t.counter k + .ofNat ((t.categories calls).count k)) ∧
      u.total = t.total + .ofNat (calls.countP Call.isIpv4) ∧
      t.m_clientStats.length ≤ u.m_clientStats.length ∧
      (∀ i, (∃ c ∈ calls, c.Registers i) → i < u.m_clientStats.length) ∧
      ∀ clients, (∀ c ∈ calls, c.Own clients) → t.m_clientStats.length ≤ clients.length →
        u.m_clientStats.length ≤ clients.length := by
  induction calls generalizing t with
  | nil => exact ⟨t, rfl, sound, rfl, fun k => by simp [categories], by simp, le_rfl, by simp, fun _ _ fits => fits⟩
  | cons c calls ih =>
    obtain ⟨v, first, still, counters, total, grows, registers, own⟩ := call_spec sound c
    obtain ⟨u, run, after, number, counters', total', grows', registers', own'⟩ := ih still
    have split : t.categories (c :: calls) = (t.category c).toList ++ v.categories calls := by
      rw [categories, first]
      rfl
    have known := isSome_category t c
    refine ⟨u, ?_, after, ?_, fun k => ?_, ?_, grows.trans grows', ?_, ?_⟩
    · exact bind_eq_some_iff.mpr ⟨v, first, run⟩
    · rw [split, length_append, number, countP_cons, ← known]
      cases t.category c <;> simp [Nat.add_comm]
    · rw [counters', counters, split, count_append]
      rcases eq_none_or_eq_some (t.category c) with none | ⟨l, some⟩
      · simp [none]
      · simp only [some, Option.some.injEq, toList_some, count_singleton, beq_iff_eq]
        split <;> simp [add_assoc]
    · rw [total', total, countP_cons, Nat.add_comm, UInt64.ofNat_add, ← add_assoc]
      split <;> rfl
    · rintro i ⟨c', there, same⟩
      rcases mem_cons.mp there with rfl | later
      · exact (registers i same).trans_le grows'
      · exact registers' i ⟨c', later, same⟩
    · intro clients all fits
      exact own' clients (fun c' later => all c' (mem_cons_of_mem _ later)) (own clients (all c mem_cons_self) fits)

end Dce.Metrics
