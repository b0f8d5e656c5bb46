import TradeWatch.Lib.Empirical
import TradeWatch.Metrics

/-!
What the latency statistics say of the reservoir. The percentiles are taken from
the sorted list at the integer part of their share of its length, and each bucket
of the histogram starts where the one before it ends.
-/

namespace TradeWatch

open PyFloat Empirical

namespace MetricsCollector

theorem intUpTo_real {n : ℕ} {x : ℝ} (h0 : 0 ≤ x) (hn : x < n) : intUpTo n x = ⌊x⌋₊ := by
  have hbound : ⌊x⌋₊ ≤ n := (Nat.floor_le_of_le hn.le)
  unfold intUpTo
  rw [Nat.findGreatest_eq_iff]
  refine ⟨hbound, fun _ => ?_, ?_⟩
  · simpa using Nat.floor_le h0
  · intro k hk _
    simpa using Nat.lt_of_floor_lt hk

/-- Where a percentile is taken: the clamp never has to do anything. -/
theorem pct_real {data : List ℝ} (hne : data ≠ []) {p : ℚ} (h0 : 0 ≤ p) (h1 : p < 1) :
    ∃ h : ⌊(p : ℝ) * data.length⌋₊ < data.length,
      pct data p = .ok data[⌊(p : ℝ) * data.length⌋₊] := by
  have hlength : (0 : ℝ) < data.length := by exact_mod_cast List.length_pos_iff.mpr hne
  have hshare : 0 ≤ (p : ℝ) * data.length := mul_nonneg (by exact_mod_cast h0) hlength.le
  have hbelow : (p : ℝ) * data.length < data.length :=
    mul_lt_of_lt_one_left hlength (by exact_mod_cast h1)
  have hplace : ⌊(p : ℝ) * data.length⌋₊ < data.length := (Nat.floor_lt hshare).mpr hbelow
  refine ⟨hplace, ?_⟩
  have hindex : min (data.length - 1) (intUpTo data.length ((p : ℝ) * data.length)) =
      ⌊(p : ℝ) * data.length⌋₊ := by
    rw [intUpTo_real hshare hbelow]
    omega
  have hpct : pct data p =
      item data (min (data.length - 1) (intUpTo data.length ((p : ℝ) * data.length))) := by
    simp [pct]
  rw [hpct, hindex, item_eq_ok hplace]

/-- The edges of the histogram, as numbers of the reservoir. -/
noncomputable def edge (i : ℕ) : ℝ := ofRat (edges.getD i 0)

theorem edge_ascends : Ascends edge (edges.length - 1) := by
  have hedges : edges.Pairwise (· ≤ ·) := by decide +kernel
  have hsome : 0 < edges.length := by decide
  intro i j hij hj
  have hplace : j < edges.length := by omega
  have hle := getElem_le_getElem hedges hij hplace
  rw [edge, edge, List.getD_eq_getElem?_getD, List.getD_eq_getElem?_getD,
    List.getElem?_eq_getElem hplace, List.getElem?_eq_getElem (hij.trans_lt hplace),
    Option.getD_some, Option.getD_some, ofRat_real, ofRat_real]
  exact_mod_cast hle

/-- The first bucket that fits is the only one. -/
theorem bucketOf_real (v : ℝ) (i : ℕ) :
    bucketOf v = some i ↔ i < edges.length - 1 ∧ InBin edge i v := by
  have htest : ∀ j, (le (ofRat (edges.getD j 0)) v && lt v (ofRat (edges.getD (j + 1) 0))) = true ↔
      InBin edge j v := by
    intro j
    rw [Bool.and_eq_true, le_real, lt_real]
    exact Iff.rfl
  rw [bucketOf, List.find?_range_eq_some, htest, List.mem_range]
  constructor
  · rintro ⟨hbin, hi, _⟩
    exact ⟨hi, hbin⟩
  · rintro ⟨hi, hbin⟩
    refine ⟨hbin, hi, ?_⟩
    intro j hj
    rw [Bool.not_eq_true', ← Bool.not_eq_true, htest]
    exact fun hother => hj.ne (hother.unique edge_ascends (hj.trans hi) hi hbin)

/-- What the statistics say of the latencies they are taken from: the percentiles
are quantiles, in their order, and the buckets divide the latencies up. -/
structure Summarises (stats : LatencyStats ℝ) (latencies : List ℝ) (p50 p95 p99 top : ℝ) :
    Prop where
  count : stats.count = latencies.length
  picked : pct (sorted latencies) (1 / 2) = .ok p50 ∧
    pct (sorted latencies) (95 / 100) = .ok p95 ∧ pct (sorted latencies) (99 / 100) = .ok p99
  quantile : IsQuantile (1 / 2) latencies p50 ∧ IsQuantile (95 / 100) latencies p95 ∧
    IsQuantile (99 / 100) latencies p99
  greatest : top ∈ latencies ∧ ∀ v ∈ latencies, v ≤ top
  ordered : p50 ≤ p95 ∧ p95 ≤ p99 ∧ p99 ≤ top
  rounded : stats.p50 = .float (roundDigits p50 1) ∧ stats.p95 = .float (roundDigits p95 1) ∧
    stats.p99 = .float (roundDigits p99 1) ∧ stats.max = .float (roundDigits top 1)
  reported : stats.p50.toFloat ≤ stats.p95.toFloat ∧ stats.p95.toFloat ≤ stats.p99.toFloat ∧
    stats.p99.toFloat ≤ stats.max.toFloat
  bucket : ∀ v ∈ latencies, ∃! i, i < edges.length - 1 ∧ InBin edge i v
  histogram : stats.histogram =
    labels.mapIdx fun i label => (label, latencies.countP (InBin edge i ·))
  total : (stats.histogram.map Prod.snd).sum = stats.count

section Stats

variable {latencies : List ℝ}

theorem place_mono {p q : ℚ} (h : p ≤ q) (n : ℕ) : ⌊(p : ℝ) * n⌋₊ ≤ ⌊(q : ℝ) * n⌋₊ :=
  Nat.floor_le_floor (mul_le_mul_of_nonneg_right (by exact_mod_cast h) (Nat.cast_nonneg n))

/-- A percentile of the sorted latencies with its place. -/
theorem pct_sorted (hne : latencies ≠ []) {p : ℚ} (h0 : 0 ≤ p) (h1 : p < 1) :
    ∃ i, ∃ h : i < (sorted latencies).length, i = ⌊(p : ℝ) * latencies.length⌋₊ ∧
      pct (sorted latencies) p = .ok (sorted latencies)[i] ∧
      IsQuantile p latencies (sorted latencies)[i] := by
  have hperm := sorted_perm latencies
  have hdata : sorted latencies ≠ [] := by
    rwa [ne_eq, ← List.length_eq_zero_iff, hperm.length_eq, List.length_eq_zero_iff]
  obtain ⟨hplace, hpct⟩ := pct_real hdata h0 h1
  have hshare : 0 ≤ (p : ℝ) * (sorted latencies).length :=
    mul_nonneg (by exact_mod_cast h0) (Nat.cast_nonneg _)
  have hquantile := isQuantile_getElem (sorted_real_pairwise latencies) hplace
    (Nat.floor_le hshare) (Nat.lt_floor_add_one _)
  exact ⟨_, hplace, by rw [hperm.length_eq], hpct, hquantile.perm hperm⟩

theorem histogram_sorted (latencies : List ℝ) :
    histogram (sorted latencies) =
      labels.mapIdx fun i label => (label, latencies.countP (InBin edge i ·)) := by
  have hcount : ∀ i < labels.length, (sorted latencies).countP (fun v => bucketOf v = some i) =
      latencies.countP (InBin edge i ·) := by
    intro i hi
    rw [(sorted_perm latencies).countP_eq]
    refine List.countP_congr fun v _ => ?_
    rw [decide_eq_true_eq, decide_eq_true_eq, bucketOf_real]
    exact and_iff_right hi
  rw [histogram]
  refine List.ext_getElem (by simp) fun i hi _ => ?_
  rw [List.length_mapIdx] at hi
  simp only [List.getElem_mapIdx, hcount i hi]

theorem sum_histogram (hrange : ∀ v ∈ latencies, 0 ≤ v ∧ v < 10 ^ 12) :
    ((histogram (sorted latencies)).map Prod.snd).sum = latencies.length := by
  have hcounts : (histogram (sorted latencies)).map Prod.snd =
      (List.range (edges.length - 1)).map fun i => latencies.countP (InBin edge i ·) := by
    rw [histogram_sorted]
    exact List.ext_getElem (by simp; rfl) (by simp)
  rw [hcounts]
  exact sum_countP_inBin edge_ascends (by simpa [edge, edges] using hrange)

end Stats

/-- The statistics of a reservoir of latencies below a trillion microseconds. -/
theorem latencyStats_sound (m : MetricsCollector ℝ) (hne : m.latency.items ≠ [])
    (hrange : ∀ v ∈ m.latency.items, 0 ≤ v ∧ v < 10 ^ 12) :
    ∃ stats p50 p95 p99 top, m.latencyStats = .ok stats ∧
      Summarises stats m.latency.items p50 p95 p99 top := by
  have hperm := sorted_perm m.latency.items
  have hsorted := sorted_real_pairwise m.latency.items
  have hlength : 0 < m.latency.items.length := List.length_pos_iff.mpr hne
  obtain ⟨i, hi, hiplace, hp50, hq50⟩ := pct_sorted hne (p := 1 / 2) (by norm_num) (by norm_num)
  obtain ⟨j, hj, hjplace, hp95, hq95⟩ :=
    pct_sorted hne (p := 95 / 100) (by norm_num) (by norm_num)
  obtain ⟨k, hk, hkplace, hp99, hq99⟩ :=
    pct_sorted hne (p := 99 / 100) (by norm_num) (by norm_num)
  have htop : (sorted m.latency.items).length - 1 < (sorted m.latency.items).length := by
    rw [hperm.length_eq]
    omega
  have hij : (sorted m.latency.items)[i] ≤ (sorted m.latency.items)[j] := by
    apply getElem_le_getElem hsorted
    rw [hiplace, hjplace]
    exact place_mono (by norm_num) _
  have hjk : (sorted m.latency.items)[j] ≤ (sorted m.latency.items)[k] := by
    apply getElem_le_getElem hsorted
    rw [hjplace, hkplace]
    exact place_mono (by norm_num) _
  have hlast : (sorted m.latency.items)[k] ≤
      (sorted m.latency.items)[(sorted m.latency.items).length - 1] :=
    getElem_le_getElem hsorted (by omega) htop
  have hgreatest : ∀ v ∈ m.latency.items,
      v ≤ (sorted m.latency.items)[(sorted m.latency.items).length - 1] := by
    intro v hv
    obtain ⟨place, hplace, rfl⟩ := List.mem_iff_getElem.mp (hperm.mem_iff.mpr hv)
    exact getElem_le_getElem hsorted (by omega) htop
  have hmean : trueDiv (sum (sorted m.latency.items))
      (ofRat ((sorted m.latency.items).length : ℚ) : ℝ) =
        .ok (sum (sorted m.latency.items) / (sorted m.latency.items).length) := by
    rw [ofRat_real, Rat.cast_natCast, trueDiv_real]
    exact Nat.cast_ne_zero.mpr (by omega)
  unfold latencyStats
  dsimp only
  rw [if_neg (by omega), hp50, hp95, hp99, item_eq_ok htop, hmean]
  refine ⟨_, (sorted m.latency.items)[i], (sorted m.latency.items)[j],
    (sorted m.latency.items)[k],
    (sorted m.latency.items)[(sorted m.latency.items).length - 1], rfl, ?_⟩
  constructor
  · exact hperm.length_eq
  · exact ⟨hp50, hp95, hp99⟩
  · push_cast at hq50 hq95 hq99
    exact ⟨hq50, hq95, hq99⟩
  · exact ⟨hperm.mem_iff.mp (List.getElem_mem htop), hgreatest⟩
  · exact ⟨hij, hjk, hlast⟩
  · exact ⟨rfl, rfl, rfl, rfl⟩
  · exact ⟨roundDigits_mono hij 1, roundDigits_mono hjk 1, roundDigits_mono hlast 1⟩
  · intro v hv
    exact existsUnique_inBin edge_ascends (by simpa [edge, edges] using (hrange v hv).1)
      (by simpa [edge, edges] using (hrange v hv).2)
  · exact histogram_sorted m.latency.items
  · exact (sum_histogram hrange).trans hperm.length_eq.symm

/-- A collector that has timed two trades. -/
noncomputable def twoTimed : MetricsCollector ℝ :=
  { init 0 with latency := ((BoundedDeque.empty 4000).append 1).append 0 }

theorem latencyStats_sound_twoTimed :
    ∃ stats p50 p95 p99 top, twoTimed.latencyStats = .ok stats ∧
      Summarises stats [1, 0] p50 p95 p99 top := by
  have hitems : twoTimed.latency.items = [1, 0] := by
    simp [twoTimed, BoundedDeque.append, BoundedDeque.empty, List.rtake]
  have hsound := latencyStats_sound twoTimed (by rw [hitems]; simp) (by
    rw [hitems]
    intro v hv
    obtain rfl | rfl := List.mem_pair.mp hv
    all_goals norm_num)
  rwa [hitems] at hsound

end MetricsCollector

end TradeWatch
