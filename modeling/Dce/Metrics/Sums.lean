import Dce.Metrics.Model
import Mathlib.Algebra.Order.Group.Multiset

/- The overall entry of a report is the sum of those of the priorities. -/

namespace Dce.Metrics

open PriorityAggregateStats Grouped List Option

/-- The first entry is that of all priorities, the others are of one priority each, and add up to it. -/
structure Sums (overall : PriorityMetricsEntry) (parts : List PriorityMetricsEntry) : Prop where
  first : overall.isOverall
  others : ∀ e ∈ parts, e.isOverall = false
  priorities : (parts.map (·.priority)).Pairwise (· < ·)
  expectedFlows : overall.expectedFlows = (parts.map (·.expectedFlows)).sum
  activeFlows : overall.activeFlows = (parts.map (·.activeFlows)).sum
  delayActiveFlows : overall.delayActiveFlows = (parts.map (·.delayActiveFlows)).sum
  rxBytes : overall.rxBytes = (parts.map (·.rxBytes)).sum
  rxPackets : overall.rxPackets = (parts.map (·.rxPackets)).sum
  delayRxPackets : overall.delayRxPackets = (parts.map (·.delayRxPackets)).sum
  delaySlaViolationPackets : overall.delaySlaViolationPackets = (parts.map (·.delaySlaViolationPackets)).sum
  delay : overall.delay.Perm (parts.flatMap (·.delay))
  peakDelay : overall.peakDelay.Perm (parts.flatMap (·.peakDelay))
  jitter : overall.jitter.Perm (parts.flatMap (·.jitter))

/-- The payloads of the two paths add up as well. -/
structure PathSums (overall : PriorityMetricsEntry) (parts : List PriorityMetricsEntry) : Prop where
  nr : overall.nrPayloadBytes = (parts.map (·.nrPayloadBytes)).sum
  wifi : overall.wifiPayloadBytes = (parts.map (·.wifiPayloadBytes)).sum

section

variable {M : Type} [AddCommMonoid M] {windowSeconds : ℚ} {μ : PriorityAggregateStats → M}

/-- What both an aggregate of a priority and the one of all are increased by with a client. -/
structure Measured (windowSeconds : ℚ) (μ : PriorityAggregateStats → M) : Prop where
  zero : μ {} = 0
  expect : ∃ d, ∀ a, μ a.expect = μ a + d
  add : ∀ client stats, ∃ d, ∀ a, μ (a.add windowSeconds client stats) = μ a + d

variable {s : Aggregates × PriorityAggregateStats} {e : ClientWindowStats → M} {ν : DelayAggregateStats → M}

section

variable (measured : Measured windowSeconds μ)
include measured

variable (clients : List Client)

theorem Measured.expectFlows (balanced : Balanced μ s.1 s.2) : Balanced μ
      (clients.foldl (fun (m, overall) client => (alter {} client.priority .expect m, overall.expect)) s).1
      (clients.foldl (fun (m, overall) client => (alter {} client.priority .expect m, overall.expect)) s).2 := by
  induction clients generalizing s with
  | nil => exact balanced
  | cons client clients ih =>
    obtain ⟨d, shift⟩ := measured.expect
    exact ih (balanced.alter measured.zero shift)

variable (flows : List (Client × ClientWindowStats))

theorem Measured.addFlows (balanced : Balanced μ s.1 s.2) :
    Balanced μ (addFlows windowSeconds flows s).1 (addFlows windowSeconds flows s).2 := by
  induction flows generalizing s with
  | nil => exact balanced
  | cons flow flows ih =>
    obtain ⟨d, shift⟩ := measured.add flow.1 flow.2
    exact ih (balanced.alter measured.zero shift)

theorem Measured.balanced : Balanced μ (Metrics.addFlows windowSeconds flows (Metrics.expectFlows clients)).1
      (Metrics.addFlows windowSeconds flows (Metrics.expectFlows clients)).2 :=
  measured.addFlows flows (measured.expectFlows clients (.nil measured.zero))

end

theorem measured_of_active {d : Client → ClientWindowStats → M} (zero : μ {} = 0) (expect : ∀ a, μ a.expect = μ a)
    (add : ∀ client stats, stats.rxPackets ≠ 0 → ∀ a, μ (a.add windowSeconds client stats) = μ a + d client stats) :
    Measured windowSeconds μ := by
  refine ⟨zero, ⟨0, fun a => (expect a).trans (add_zero _).symm⟩, fun client stats => ?_⟩
  by_cases idle : stats.rxPackets = 0
  · refine ⟨0, fun a => ?_⟩
    rw [PriorityAggregateStats.add, if_pos idle, add_zero]
  · exact ⟨d client stats, add client stats idle⟩

theorem add_of_active {client : Client} {stats : ClientWindowStats} (active : stats.rxPackets ≠ 0)
    (a : PriorityAggregateStats) :
    (a.add windowSeconds client stats).expectedFlows = a.expectedFlows ∧
      (a.add windowSeconds client stats).activeFlows = a.activeFlows + 1 ∧
      (a.add windowSeconds client stats).rxBytes = a.rxBytes + stats.rxBytes ∧
      (a.add windowSeconds client stats).rxPackets = a.rxPackets + stats.rxPackets ∧
      (a.add windowSeconds client stats).steadyDelay =
        (if templateIdLooksPeakLike client.templateId then a.steadyDelay else a.steadyDelay.add stats) ∧
      (a.add windowSeconds client stats).peakDelay =
        if templateIdLooksPeakLike client.templateId then a.peakDelay.add stats else a.peakDelay := by
  unfold add
  rw [if_neg active]
  exact ⟨rfl, rfl, rfl, rfl, rfl, rfl⟩

theorem measured_expectedFlows : Measured windowSeconds expectedFlows := by
  refine ⟨rfl, ⟨1, fun _ => rfl⟩, fun client stats => ⟨0, fun a => ?_⟩⟩
  by_cases idle : stats.rxPackets = 0
  · rw [add, if_pos idle, add_zero]
  · rw [(add_of_active idle a).1, add_zero]

theorem measured_activeFlows : Measured windowSeconds activeFlows :=
  measured_of_active rfl (fun _ => rfl) fun _ _ active a => (add_of_active active a).2.1

theorem measured_rxBytes : Measured windowSeconds rxBytes :=
  measured_of_active rfl (fun _ => rfl) fun _ _ active a => (add_of_active active a).2.2.1

theorem measured_rxPackets : Measured windowSeconds rxPackets :=
  measured_of_active rfl (fun _ => rfl) fun _ _ active a => (add_of_active active a).2.2.2.1

theorem measured_steady (zero : ν {} = 0)
    (add : ∀ d stats, ν (d.add stats) = ν d + e stats) : Measured windowSeconds fun a => ν a.steadyDelay := by
  refine measured_of_active
    (d := fun client stats => if templateIdLooksPeakLike client.templateId then 0 else e stats)
    zero (fun _ => rfl) fun client stats active a => ?_
  rw [(add_of_active active a).2.2.2.2.1]
  split
  · rw [add_zero]
  · exact add _ _

theorem measured_peak (zero : ν {} = 0)
    (add : ∀ d stats, ν (d.add stats) = ν d + e stats) : Measured windowSeconds fun a => ν a.peakDelay := by
  refine measured_of_active
    (d := fun client stats => if templateIdLooksPeakLike client.templateId then e stats else 0)
    zero (fun _ => rfl) fun client stats active a => ?_
  rw [(add_of_active active a).2.2.2.2.2]
  split
  · exact add _ _
  · rw [add_zero]

theorem perm_of_balanced {samples : PriorityAggregateStats → List ℚ} {m : Aggregates}
    {overall : PriorityAggregateStats}
    (balanced : Balanced (fun a => (samples a : Multiset ℚ)) m overall) :
    (samples overall).Perm (m.flatMap fun e => samples e.2) := by
  have joined (m : Aggregates) : (m.map fun e => (samples e.2 : Multiset ℚ)).sum =
      (m.flatMap fun e => samples e.2 : List ℚ) := by
    induction m with
    | nil => rfl
    | cons e m ih => rw [map_cons, sum_cons, ih, flatMap_cons, Multiset.coe_add]
  exact (Multiset.coe_eq_coe.mp ((joined m).symm.trans balanced)).symm

theorem expectFlows_keys (clients : List Client) (sorted : (s.1.map Prod.fst).Pairwise (· < ·)) :
    let m := (clients.foldl (fun (m, overall) client => (alter {} client.priority .expect m, overall.expect)) s).1
    (m.map Prod.fst).Pairwise (· < ·) ∧
      ∀ p, (p ∈ s.1.map Prod.fst ∨ ∃ client ∈ clients, client.priority = p) → p ∈ m.map Prod.fst := by
  induction clients generalizing s with
  | nil => exact ⟨sorted, by simp⟩
  | cons client clients ih =>
    obtain ⟨still, known⟩ := ih (s := (alter {} client.priority .expect s.1, s.2.expect)) (sorted_alter sorted)
    refine ⟨still, fun p there => known p ?_⟩
    rcases there with old | ⟨c, mem, rfl⟩
    · exact .inl (mem_keys_alter.mpr (.inr old))
    · rcases mem_cons.mp mem with rfl | later
      · exact .inl (mem_keys_alter.mpr (.inl rfl))
      · exact .inr ⟨c, later, rfl⟩

variable (windowSeconds) in
theorem addFlows_keys (flows : List (Client × ClientWindowStats)) (sorted : (s.1.map Prod.fst).Pairwise (· < ·)) :
    ((addFlows windowSeconds flows s).1.map Prod.fst).Pairwise (· < ·) ∧
      ∀ p ∈ s.1.map Prod.fst, p ∈ (addFlows windowSeconds flows s).1.map Prod.fst := by
  induction flows generalizing s with
  | nil => exact ⟨sorted, fun _ there => there⟩
  | cons flow flows ih =>
    obtain ⟨still, known⟩ := ih (s := (alter {} flow.1.priority (fun a => a.add windowSeconds flow.1 flow.2) s.1,
      s.2.add windowSeconds flow.1 flow.2)) (sorted_alter sorted)
    exact ⟨still, fun p there => known p (mem_keys_alter.mpr (.inr there))⟩

theorem expectFlows_rxPackets (clients : List Client) : (Metrics.expectFlows clients).2.rxPackets = 0 := by
  have kept (s : Aggregates × PriorityAggregateStats) : (clients.foldl (fun (m, overall) client =>
      (alter {} client.priority .expect m, overall.expect)) s).2.rxPackets = s.2.rxPackets := by
    induction clients generalizing s with
    | nil => rfl
    | cons client clients ih => exact ih _
  exact kept _

variable (windowSeconds) in
theorem addFlows_rxPackets (flows : List (Client × ClientWindowStats)) (s : Aggregates × PriorityAggregateStats) :
    (addFlows windowSeconds flows s).2.rxPackets = s.2.rxPackets + (flows.map fun flow => flow.2.rxPackets).sum := by
  induction flows generalizing s with
  | nil => exact (add_zero _).symm
  | cons flow flows ih =>
    have one : (s.2.add windowSeconds flow.1 flow.2).rxPackets = s.2.rxPackets + flow.2.rxPackets := by
      by_cases idle : flow.2.rxPackets = 0
      · rw [PriorityAggregateStats.add, if_pos idle, idle, add_zero]
      · exact (add_of_active idle s.2).2.2.2.1
    refine (ih _).trans ?_
    rw [one, map_cons, sum_cons, add_assoc]

end

/-- The entries of the aggregates. -/
def entriesOf (windowSeconds : ℚ) (s : Aggregates × PriorityAggregateStats) : List PriorityMetricsEntry :=
  s.1.map fun (priority, a) => a.entry windowSeconds false priority

theorem map_entriesOf {X : Type} (f : PriorityMetricsEntry → X) (windowSeconds : ℚ)
    (s : Aggregates × PriorityAggregateStats) :
    (entriesOf windowSeconds s).map f = s.1.map fun e => f (e.2.entry windowSeconds false e.1) := map_map

theorem sums_buildSummary (windowSeconds : ℚ) (clients : List Client) (flows : List (Client × ClientWindowStats)) :
    let s := addFlows windowSeconds flows (expectFlows clients)
    Sums (s.2.entry windowSeconds true 0) (entriesOf windowSeconds s) ∧
      ∀ client ∈ clients, client.priority ∈ (entriesOf windowSeconds s).map (·.priority) := by
  intro s
  obtain ⟨sorted, known⟩ := expectFlows_keys clients (s := ([], {})) .nil
  obtain ⟨keys, kept⟩ := addFlows_keys windowSeconds flows sorted
  have priorities : (entriesOf windowSeconds s).map (·.priority) = s.1.map Prod.fst := map_entriesOf _ _ _
  have sum {M : Type} [AddCommMonoid M] {μ : PriorityAggregateStats → M} (measured : Measured windowSeconds μ)
      {f : PriorityMetricsEntry → M} (shown : ∀ isOverall p a, f (a.entry windowSeconds isOverall p) = μ a) :
      f (s.2.entry windowSeconds true 0) = ((entriesOf windowSeconds s).map f).sum := by
    rw [map_entriesOf]
    simp only [shown]
    exact (measured.balanced clients flows).symm
  have perm {samples : PriorityAggregateStats → List ℚ}
      (measured : Measured windowSeconds fun a => (samples a : Multiset ℚ)) {f : PriorityMetricsEntry → List ℚ}
      (shown : ∀ isOverall p a, f (a.entry windowSeconds isOverall p) = samples a) :
      (f (s.2.entry windowSeconds true 0)).Perm ((entriesOf windowSeconds s).flatMap f) := by
    rw [flatMap_def, map_entriesOf]
    simp only [shown]
    exact perm_of_balanced (measured.balanced clients flows)
  have others : ∀ e ∈ entriesOf windowSeconds s, e.isOverall = false := by
    intro e there
    obtain ⟨a, -, rfl⟩ := mem_map.mp there
    rfl
  have known : ∀ client ∈ clients, client.priority ∈ (entriesOf windowSeconds s).map (·.priority) := by
    intro client mem
    rw [priorities]
    exact kept _ (known _ (.inr ⟨client, mem, rfl⟩))
  refine ⟨?_, known⟩
  exact {
    first := rfl
    others := others
    priorities := priorities ▸ keys
    expectedFlows := sum measured_expectedFlows fun _ _ _ => rfl
    activeFlows := sum measured_activeFlows fun _ _ _ => rfl
    delayActiveFlows :=
      sum (measured_steady (ν := DelayAggregateStats.activeFlows) rfl fun _ _ => rfl) fun _ _ _ => rfl
    rxBytes := sum measured_rxBytes fun _ _ _ => rfl
    rxPackets := sum measured_rxPackets fun _ _ _ => rfl
    delayRxPackets := sum (measured_steady (ν := DelayAggregateStats.rxPackets) rfl fun _ _ => rfl) fun _ _ _ => rfl
    delaySlaViolationPackets :=
      sum (measured_steady (ν := DelayAggregateStats.delaySlaViolationPackets) rfl fun _ _ => rfl) fun _ _ _ => rfl
    delay := perm (measured_steady (ν := fun d => (d.delaySamplesMs : Multiset ℚ)) rfl
      fun _ _ => (Multiset.coe_add _ _).symm) fun _ _ _ => rfl
    peakDelay := perm (measured_peak (ν := fun d => (d.delaySamplesMs : Multiset ℚ)) rfl
      fun _ _ => (Multiset.coe_add _ _).symm) fun _ _ _ => rfl
    jitter := perm (measured_steady (ν := fun d => (d.jitterSamplesMs : Multiset ℚ)) rfl
      fun _ _ => (Multiset.coe_add _ _).symm) fun _ _ _ => rfl }

section

variable {A : Type} {paths : Paths A} {clients : List Client}

/-- The splits of the priorities of the clients, and the one of all. -/
structure SplitOk (clients : List Client) (s : PathSplits × PathSplitAggregate) : Prop where
  nr : Balanced PathSplitAggregate.nrPayloadBytes s.1 s.2
  wifi : Balanced PathSplitAggregate.wifiPayloadBytes s.1 s.2
  sorted : (s.1.map Prod.fst).Pairwise (· < ·)
  known : ∀ p ∈ s.1.map Prod.fst, ∃ client ∈ clients, client.priority = p

variable {s t : PathSplits × PathSplitAggregate} {parts : List PriorityMetricsEntry} {e : PriorityMetricsEntry}

theorem SplitOk.node {node : Nat × Nat} (ok : SplitOk clients s)
    (run : splitNode paths clients s node = some t) : SplitOk clients t := by
  obtain ⟨client, there, run⟩ := bind_eq_some_iff.mp run
  split at run
  · cases run
    exact ok
  · obtain ⟨nr, -, run⟩ := bind_eq_some_iff.mp run
    cases run
    refine ⟨ok.nr.alter rfl fun _ => rfl, ok.wifi.alter rfl fun _ => rfl, sorted_alter ok.sorted, fun p mem => ?_⟩
    rcases mem_keys_alter.mp mem with rfl | old
    · exact ⟨client, mem_of_getElem? there, rfl⟩
    · exact ok.known p old

theorem SplitOk.nodes {nodes : List (Nat × Nat)} (ok : SplitOk clients s)
    (run : nodes.foldlM (splitNode paths clients) s = some t) : SplitOk clients t := by
  induction nodes generalizing s with
  | nil =>
    cases run
    exact ok
  | cons node nodes ih =>
    obtain ⟨u, first, rest⟩ := bind_eq_some_iff.mp run
    exact ih (ok.node first) rest

theorem splitOk_nil (clients : List Client) : SplitOk clients ([], {}) := ⟨.nil rfl, .nil rfl, .nil, nofun⟩

theorem SplitOk.sum (ok : SplitOk clients s)
    (priorities : (parts.map (·.priority)).Pairwise (· < ·))
    (all : ∀ client ∈ clients, client.priority ∈ parts.map (·.priority))
    {μ : PathSplitAggregate → UInt64} (zero : μ {} = 0) (balanced : Balanced μ s.1 s.2) :
    μ s.2 = (parts.map fun e => μ ((s.1.lookup e.priority).getD {})).sum := by
  have distinct : (parts.map (·.priority)).Nodup := priorities.imp ne_of_lt
  have once : (s.1.map Prod.fst).Nodup := ok.sorted.imp ne_of_lt
  have found (p : Nat) : μ ((s.1.lookup p).getD {}) = measureOf μ s.1 p := by
    unfold measureOf
    cases s.1.lookup p with
    | none => exact zero
    | some a => rfl
  have sum := sum_measureOf (μ := μ) distinct once fun p mem => by
    obtain ⟨client, there, rfl⟩ := ok.known p mem
    exact all client there
  simp only [found]
  rw [List.map_map] at sum
  exact (sum.trans balanced).symm

theorem split_overall (m : PathSplits) (o : PathSplitAggregate) (first : e.isOverall) :
    (e.split m o).nrPayloadBytes = o.nrPayloadBytes ∧ (e.split m o).wifiPayloadBytes = o.wifiPayloadBytes := by
  unfold PriorityMetricsEntry.split
  rw [if_pos first]
  exact ⟨rfl, rfl⟩

theorem split_other (m : PathSplits) (o : PathSplitAggregate) (other : e.isOverall = false) :
    (e.split m o).nrPayloadBytes = ((m.lookup e.priority).getD {}).nrPayloadBytes ∧
      (e.split m o).wifiPayloadBytes = ((m.lookup e.priority).getD {}).wifiPayloadBytes := by
  unfold PriorityMetricsEntry.split
  rw [if_neg (Bool.eq_false_iff.mp other)]
  exact ⟨rfl, rfl⟩

theorem Sums.split {overall : PriorityMetricsEntry} (sums : Sums overall parts)
    (all : ∀ client ∈ clients, client.priority ∈ parts.map (·.priority)) (ok : SplitOk clients s) :
    Sums (overall.split s.1 s.2) (parts.map (.split s.1 s.2)) ∧
    PathSums (overall.split s.1 s.2) (parts.map (.split s.1 s.2)) := by
  have same {X : Type} {f : PriorityMetricsEntry →
    X} (kept : ∀ e : PriorityMetricsEntry, f (e.split s.1 s.2) = f e) :
      (parts.map (.split s.1 s.2)).map f = parts.map f := by
    rw [List.map_map]
    exact map_congr_left fun e _ => kept e
  have perm {f : PriorityMetricsEntry → List ℚ} (kept : ∀ e : PriorityMetricsEntry, f (e.split s.1 s.2) = f e)
      (before : (f overall).Perm (parts.flatMap f)) : (f (overall.split s.1 s.2)).Perm
      ((parts.map (.split s.1 s.2)).flatMap f) := by
    rw [kept, flatMap_def, same kept]
    exact before
  have path {f : PriorityMetricsEntry → UInt64} {μ : PathSplitAggregate →
    UInt64} (first : f (overall.split s.1 s.2) = μ s.2)
      (shown : ∀ e : PriorityMetricsEntry, e.isOverall = false →
        f (e.split s.1 s.2) = μ ((s.1.lookup e.priority).getD {}))
      (zero : μ {} = 0) (balanced : Balanced μ s.1 s.2) :
      f (overall.split s.1 s.2) = ((parts.map (.split s.1 s.2)).map f).sum := by
    rw [first, ok.sum sums.priorities all zero balanced, List.map_map]
    exact congrArg sum (map_congr_left fun e mem => (shown e (sums.others e mem)).symm)
  constructor
  · exact {
      first := sums.first
      others := fun e mem => by
        obtain ⟨e, there, rfl⟩ := mem_map.mp mem
        exact sums.others e there
      priorities := by
        rw [same (f := (·.priority)) fun _ => rfl]
        exact sums.priorities
      expectedFlows := sums.expectedFlows.trans (congrArg sum (same fun _ => rfl).symm)
      activeFlows := sums.activeFlows.trans (congrArg sum (same fun _ => rfl).symm)
      delayActiveFlows := sums.delayActiveFlows.trans (congrArg sum (same fun _ => rfl).symm)
      rxBytes := sums.rxBytes.trans (congrArg sum (same fun _ => rfl).symm)
      rxPackets := sums.rxPackets.trans (congrArg sum (same fun _ => rfl).symm)
      delayRxPackets := sums.delayRxPackets.trans (congrArg sum (same fun _ => rfl).symm)
      delaySlaViolationPackets := sums.delaySlaViolationPackets.trans (congrArg sum (same fun _ => rfl).symm)
      delay := perm (fun _ => rfl) sums.delay
      peakDelay := perm (fun _ => rfl) sums.peakDelay
      jitter := perm (fun _ => rfl) sums.jitter }
  · have first := split_overall s.1 s.2 sums.first
    exact ⟨path first.1 (fun e other => (split_other s.1 s.2 other).1) rfl ok.nr,
      path first.2 (fun e other => (split_other s.1 s.2 other).2) rfl ok.wifi⟩

end

section

variable {A : Type} [DecidableEq A]

/-- Before any call. -/
def start (A : Type) (windowStart windowStop : Int) : PriorityPacketSinkTracker A where
  m_windowStart := windowStart
  m_windowStop := windowStop

/-- Every run in which each client is registered as its own counts each IPv4 reception in one category, and in the
report that is then built the entry of all is the sum of those of the priorities, also after the split of the
paths. There is a report where every client is registered. -/
theorem priorityMetrics_conserve (windowStart windowStop : Int) (clients : List Client) (calls : List (Call A))
    (own : ∀ c ∈ calls, c.Own clients) :
    ∃ t, (start A windowStart windowStop).run calls = some t ∧
      ((start A windowStart windowStop).categories calls).length = calls.countP Call.isIpv4 ∧
      (∀ k, t.counter k = .ofNat (((start A windowStart windowStop).categories calls).count k)) ∧
      ((∀ i < clients.length, ∃ c ∈ calls, c.Registers i) →
        ∀ windowSeconds, (t.buildSummary clients windowSeconds).isSome) ∧
      ∀ windowSeconds report, t.buildSummary clients windowSeconds = some report →
        ∃ overall parts, report.entries = overall :: parts ∧ Sums overall parts ∧
          report.unknownPackets + report.outsideWindowPackets +
          overall.rxPackets = .ofNat (calls.countP Call.isIpv4) ∧
          ∀ (paths : Paths A) split, applyPriorityPathSplitMetrics paths clients report = some split →
            ∃ overall parts, split.entries = overall :: parts ∧ Sums overall parts ∧ PathSums overall parts := by
  obtain ⟨t, run, -, number, counters, total, -, registers, fits⟩ :=
    run_spec (t := start A windowStart windowStop) nofun calls
  have fits := fits clients own (Nat.zero_le _)
  refine ⟨t, run, number, fun k => ?_, fun all windowSeconds => ?_, fun windowSeconds report built => ?_⟩
  · rw [counters k]
    cases k <;> exact zero_add _
  · rw [PriorityPacketSinkTracker.buildSummary, if_neg]
    · rfl
    · rintro short
      exact absurd (registers _ (all _ short)) (lt_irrefl _)
  · unfold PriorityPacketSinkTracker.buildSummary at built
    split at built <;> cases built
    rename_i long
    obtain ⟨sums, known⟩ := sums_buildSummary windowSeconds clients (clients.zip t.m_clientStats)
    refine ⟨_, _, rfl, sums, ?_, fun paths split applied => ?_⟩
    · have same : clients.length = t.m_clientStats.length := le_antisymm (not_lt.mp long) fits
      have packets : ((clients.zip t.m_clientStats).map fun flow => flow.2.rxPackets) =
          t.m_clientStats.map ClientWindowStats.rxPackets := by
        have stats := map_snd_zip same.ge
        rw [← stats, List.map_map, List.map_snd_zip same.ge]
        rfl
      have overall := addFlows_rxPackets windowSeconds (clients.zip t.m_clientStats) (expectFlows clients)
      rw [packets, expectFlows_rxPackets, zero_add] at overall
      have nothing : (start A windowStart windowStop).total = 0 := rfl
      rw [nothing, zero_add] at total
      rw [← total, PriorityPacketSinkTracker.total, ← overall]
      rfl
    · obtain ⟨s, nodes, applied⟩ := bind_eq_some_iff.mp applied
      cases applied
      have ok := (splitOk_nil clients).nodes nodes
      exact ⟨_, _, rfl, sums.split known ok⟩

end

/-- Two clients of different priorities. -/
def twoClients : List Client := [⟨0, "uplink-steady", 1⟩, ⟨1, "Peak-report", 3⟩]

/-- Both are registered, and of three receptions one is from an unknown source and one is too late. -/
def twoCalls : List (Call Nat) :=
  [.register 10 0 1 "uplink-steady", .register 20 1 3 "Peak-report", .rx (some 10) 50 20 100,
    .rx (some 30) 60 20 100,
    .rx (some 20) 101 90 100, .rx none 60 20 100]

theorem priorityMetrics_conserve_two : ∃ t, (start Nat 0 100).run twoCalls = some t ∧ t.counter .unknown = 1 ∧
    t.counter .outside = 1 ∧ t.counter (.client 0) = 1 ∧ (t.buildSummary twoClients 1).isSome := by
  obtain ⟨t, run, -, counters, built, -⟩ := priorityMetrics_conserve 0 100 twoClients twoCalls (by
    simp [twoCalls, twoClients, Call.Own])
  refine ⟨t, run, ?_, ?_, ?_, built ?_ 1⟩
  · rw [counters]
    rfl
  · rw [counters]
    rfl
  · rw [counters]
    rfl
  · intro i inside
    rcases i with - | - | i
    · exact ⟨.register 10 0 1 "uplink-steady", by simp [twoCalls], rfl⟩
    · exact ⟨.register 20 1 3 "Peak-report", by simp [twoCalls], rfl⟩
    · exact absurd inside (by simp [twoClients])

end Dce.Metrics
