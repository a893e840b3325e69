import Mathlib.Algebra.Order.BigOperators.Group.List
import Mathlib.Algebra.Order.Floor.Semiring
import Mathlib.Data.List.GetD
import Mathlib.Data.Rat.Floor
import Mathlib.Tactic.Linarith

/- Summaries of samples, `pamptcp-report.cc`, over the rational numbers. -/

namespace Dce.Report

open List

def ComputeMean (samples : List ℚ) : ℚ := if samples = [] then 0 else samples.foldl (· + ·) 0 / samples.length

/-- For samples of this number. -/
def rank (size : Nat) (percentile : ℚ) : ℚ := max 0 (min percentile 100) / 100 * (size - 1 : Nat)

def lowerIndex (size : Nat) (percentile : ℚ) : Nat := ⌊rank size percentile⌋₊

def upperIndex (size : Nat) (percentile : ℚ) : Nat := ⌈rank size percentile⌉₊

/-- `none` is an access outside of the samples. -/
def ComputePercentile (samples : List ℚ) (percentile : ℚ) : Option ℚ :=
  if samples = [] then some 0
  else
    let samples := samples.mergeSort
    if samples.length = 1 then samples.head?
    else
      let lower := lowerIndex samples.length percentile
      let upper := upperIndex samples.length percentile
      if lower = upper then samples[lower]?
      else do
        let fraction := rank samples.length percentile - lower
        pure ((← samples[lower]?) * (1 - fraction) + (← samples[upper]?) * fraction)

structure DistributionSummary where
  mean : ℚ
  p50 : ℚ
  p95 : ℚ
  p99 : ℚ
  p999 : ℚ
  max : ℚ
  deriving DecidableEq

/-- All fields are 0 by default. -/
def SummarizeDistribution (samples : List ℚ) : Option DistributionSummary :=
  if samples = [] then some ⟨0, 0, 0, 0, 0, 0⟩
  else do
    pure ⟨ComputeMean samples, ← ComputePercentile samples 50, ← ComputePercentile samples 95,
      ← ComputePercentile samples 99,
      ← ComputePercentile samples (999 / 10), ← samples.max?⟩

/-- The summary of samples, of which `lo` is the least one. -/
structure Ordered (lo : ℚ) (summary : DistributionSummary) : Prop where
  p50 : lo ≤ summary.p50
  p95 : summary.p50 ≤ summary.p95
  p99 : summary.p95 ≤ summary.p99
  p999 : summary.p99 ≤ summary.p999
  max : summary.p999 ≤ summary.max
  lower : lo ≤ summary.mean
  upper : summary.mean ≤ summary.max

/-- What should hold of the percentiles of samples. -/
structure Sensible (samples : List ℚ) : Prop where
  ordered : ∃ lo summary, samples.min? = some lo ∧ SummarizeDistribution samples = some summary ∧ Ordered lo summary
  monotone : ∀ p q, p ≤ q → ∃ x y, ComputePercentile samples p = some x ∧
    ComputePercentile samples q = some y ∧ x ≤ y
  order : ∀ other, other.Perm samples → ∀ p, ComputePercentile other p = ComputePercentile samples p
  inside : ∀ p, lowerIndex samples.length p < samples.length ∧ upperIndex samples.length p < samples.length

section

variable {size : Nat} {p q : ℚ}

theorem rank_nonneg : 0 ≤ rank size p :=
  mul_nonneg (div_nonneg (le_max_left _ _) (by norm_num)) (Nat.cast_nonneg _)

theorem rank_mono (le : p ≤ q) : rank size p ≤ rank size q := by
  have clamped : max 0 (min p 100) ≤ max 0 (min q 100) := max_le_max le_rfl (min_le_min_right _ le)
  unfold rank
  gcongr

theorem rank_le : rank size p ≤ (size - 1 : Nat) := by
  have clamped : max 0 (min p 100) / 100 ≤ 1 := by
    rw [div_le_one (by norm_num)]
    exact max_le (by norm_num) (min_le_right _ _)
  exact mul_le_of_le_one_left (Nat.cast_nonneg _) clamped

theorem indices_inside (some : 0 < size) : lowerIndex size p < size ∧ upperIndex size p < size := by
  have upper : upperIndex size p ≤ size - 1 := Nat.ceil_le.mpr rank_le
  have lower : lowerIndex size p ≤ upperIndex size p := Nat.floor_le_ceil _
  omega

end

/-- What lies at the rank `r` between two of the samples. -/
def interpolated (s : List ℚ) (r : ℚ) : ℚ := s.getD ⌊r⌋₊ 0 + (s.getD ⌈r⌉₊ 0 - s.getD ⌊r⌋₊ 0) * (r - ⌊r⌋₊)

section

variable {s samples : List ℚ} {i j : Nat} {r r' p : ℚ}

theorem getD_mono (sorted : s.Pairwise (· ≤ ·)) (le : i ≤ j) (inside : j < s.length) : s.getD i 0 ≤ s.getD j 0 := by
  have before : i < s.length := lt_of_le_of_lt le inside
  rw [getD_eq_getElem _ _ before, getD_eq_getElem _ _ inside]
  rcases eq_or_lt_of_le le with rfl | lt
  · exact le_rfl
  · exact pairwise_iff_getElem.mp sorted i j before inside lt

theorem interpolated_bounds (sorted : s.Pairwise (· ≤ ·)) (nonneg : 0 ≤ r) (inside : ⌈r⌉₊ < s.length) :
    s.getD ⌊r⌋₊ 0 ≤ interpolated s r ∧ interpolated s r ≤ s.getD ⌈r⌉₊ 0 := by
  have step := getD_mono sorted (Nat.floor_le_ceil r) inside
  have below : (⌊r⌋₊ : ℚ) ≤ r := Nat.floor_le nonneg
  have above : r < ⌊r⌋₊ + 1 := Nat.lt_floor_add_one r
  unfold interpolated
  constructor <;> nlinarith

/-- Past the next sample the bounds of both ranks say it, up to it they lie on one line. -/
theorem interpolated_mono (sorted : s.Pairwise (· ≤ ·)) (nonneg : 0 ≤ r) (le : r ≤ r') (inside : ⌈r'⌉₊ < s.length) :
    interpolated s r ≤ interpolated s r' := by
  have inside' : ⌈r⌉₊ < s.length := lt_of_le_of_lt (Nat.ceil_mono le) inside
  have first := interpolated_bounds sorted nonneg inside'
  have second := interpolated_bounds sorted (nonneg.trans le) inside
  rcases Nat.lt_or_ge ⌊r'⌋₊ ⌈r⌉₊ with near | far
  · have same : ⌊r'⌋₊ = ⌊r⌋₊ := by
      have next := Nat.ceil_le_floor_add_one r
      have floors := Nat.floor_mono le
      omega
    have same' : ⌈r'⌉₊ = ⌈r⌉₊ := by
      have next := Nat.ceil_le_floor_add_one r'
      have ceils := Nat.ceil_mono le
      omega
    have step := getD_mono sorted (Nat.floor_le_ceil r) inside'
    unfold interpolated
    rw [same, same']
    nlinarith
  · exact first.2.trans ((getD_mono sorted far (lt_of_le_of_lt (Nat.floor_le_ceil _) inside)).trans second.1)

theorem sorted_mergeSort (samples : List ℚ) : samples.mergeSort.Pairwise (· ≤ ·) := by
  have sorted := @pairwise_mergeSort ℚ (fun a b => decide (a ≤ b)) (fun a b c => by simpa using le_trans)
    (fun a b => by simpa using le_total a b) samples
  simpa using sorted

theorem computePercentile_eq (some : samples ≠ []) (p : ℚ) :
    ComputePercentile samples p = Option.some (interpolated samples.mergeSort (rank samples.length p)) := by
  have positive := length_pos_iff.mpr some
  have length : samples.mergeSort.length = samples.length := length_mergeSort samples
  obtain ⟨lower, upper⟩ := indices_inside (p := p) positive
  unfold ComputePercentile
  rw [if_neg some]
  dsimp only
  rw [length]
  have there : ∀ i, i < samples.length → samples.mergeSort[i]? = Option.some (samples.mergeSort.getD i 0) :=
    fun i inside => by
    rw [getD_eq_getElem?_getD, getElem?_eq_getElem (length ▸ inside)]
    rfl
  split
  · rename_i one
    have zero : rank samples.length p = 0 := by simp [rank, one]
    rw [zero, head?_eq_getElem?, there 0 positive]
    simp [interpolated]
  · rw [there _ lower, there _ upper]
    split
    · rename_i same
      unfold lowerIndex upperIndex at same
      simp [interpolated, lowerIndex, ← same]
    · simp only [Option.bind_eq_bind, Option.bind_some, pure]
      unfold interpolated lowerIndex upperIndex
      congr 1
      ring

end

section

variable {samples : List ℚ} {lo hi : ℚ}

theorem mean_between (some : samples ≠ []) (least : ∀ x ∈ samples, lo ≤ x) (most : ∀ x ∈ samples, x ≤ hi) :
    lo ≤ ComputeMean samples ∧ ComputeMean samples ≤ hi := by
  have positive : (0 : ℚ) < samples.length := Nat.cast_pos.mpr (length_pos_iff.mpr some)
  have below := card_nsmul_le_sum samples lo least
  have above := sum_le_card_nsmul samples hi most
  rw [nsmul_eq_mul] at below above
  unfold ComputeMean
  rw [if_neg some, ← sum_eq_foldl, le_div_iff₀ positive, div_le_iff₀ positive, mul_comm lo, mul_comm hi]
  exact ⟨below, above⟩

theorem percentile_between (some : samples ≠ []) (least : ∀ x ∈ samples, lo ≤ x)
    (most : ∀ x ∈ samples, x ≤ hi) (p : ℚ) :
    lo ≤ interpolated samples.mergeSort (rank samples.length p) ∧
    interpolated samples.mergeSort (rank samples.length p) ≤ hi := by
  have inside : ⌈rank samples.length p⌉₊ < samples.mergeSort.length := by
    rw [length_mergeSort]
    exact (indices_inside (length_pos_iff.mpr some)).2
  have bounds := interpolated_bounds (sorted_mergeSort samples) rank_nonneg inside
  have mem : ∀ i, i < samples.mergeSort.length → samples.mergeSort.getD i 0 ∈ samples := fun i lt => by
    rw [getD_eq_getElem _ _ lt]
    exact mem_mergeSort.mp (getElem_mem lt)
  have lower := least _ (mem _ (lt_of_le_of_lt (Nat.floor_le_ceil _) inside))
  exact ⟨lower.trans bounds.1, bounds.2.trans (most _ (mem _ inside))⟩

theorem percentile_mono (some : samples ≠ []) {p q : ℚ} (le : p ≤ q) :
    interpolated samples.mergeSort (rank samples.length p) ≤ interpolated samples.mergeSort
    (rank samples.length q) := by
  refine interpolated_mono (sorted_mergeSort samples) rank_nonneg (rank_mono le) ?_
  rw [length_mergeSort]
  exact (indices_inside (length_pos_iff.mpr some)).2

theorem percentiles_sensible (samples : List ℚ) (some : samples ≠ []) : Sensible samples := by
  obtain ⟨lo, least⟩ := Option.isSome_iff_exists.mp (isSome_min?_of_ne_nil some)
  obtain ⟨hi, most⟩ := Option.isSome_iff_exists.mp (isSome_max?_of_ne_nil some)
  have lower := (min?_eq_some_iff.mp least).2
  have upper := (max?_eq_some_iff.mp most).2
  have mean := mean_between some lower upper
  obtain ⟨value, percentile, between, mono⟩ : ∃ value : ℚ →
    ℚ, (∀ p, ComputePercentile samples p = Option.some (value p)) ∧
      (∀ p, lo ≤ value p ∧ value p ≤ hi) ∧ ∀ p q, p ≤ q → value p ≤ value q :=
    ⟨_, computePercentile_eq some, percentile_between some lower upper, fun _ _ => percentile_mono some⟩
  have summary : SummarizeDistribution samples =
      Option.some ⟨ComputeMean samples, value 50, value 95, value 99, value (999 / 10), hi⟩ := by
    rw [SummarizeDistribution, if_neg some, percentile, percentile, percentile, percentile, most]
    rfl
  refine ⟨⟨lo, _, least, summary, ?_⟩, fun p q le => ⟨_, _, percentile p, percentile q, mono p q le⟩,
    fun other perm p => ?_,
    fun _ => indices_inside (length_pos_iff.mpr some)⟩
  · exact ⟨(between _).1, mono _ _ (by norm_num), mono _ _ (by norm_num), mono _ _ (by norm_num), (between _).2,
      mean.1, mean.2⟩
  · have sorted : other.mergeSort = samples.mergeSort :=
      ((mergeSort_perm other _).trans (perm.trans (mergeSort_perm samples _).symm)).eq_of_pairwise
        (fun _ _ _ _ => le_antisymm) (sorted_mergeSort other) (sorted_mergeSort samples)
    have others : other ≠ [] := fun empty => some (nil_perm.mp (empty ▸ perm))
    rw [computePercentile_eq some, computePercentile_eq others, sorted, perm.length_eq]

theorem sensible_two : Sensible [2, 1] := percentiles_sensible [2, 1] (by simp)

end

end Dce.Report
