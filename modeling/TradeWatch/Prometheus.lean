import TradeWatch.Metrics

/-!
The text exposition of the collector. Most of it comes from lifetime totals,
which only grow; the sum and the count of the latency summary come from the
reservoir and from a mean rounded to tenths. They are what a scraper may take
for counters as long as the reservoir has not forgotten a trade and the
rounding of the mean does not take back more than a new latency adds.
-/

namespace TradeWatch

open PyFloat

variable {F : Type} [PyFloat F]

namespace Prometheus

inductive MetricType
  | counter
  | gauge
  | summary
  deriving DecidableEq, Repr

def MetricType.value : MetricType → String
  | .counter => "counter"
  | .gauge => "gauge"
  | .summary => "summary"

structure Sample (F : Type) where
  name : String
  labels : List (String × String)
  value : PyNumber F

/-- What tells a sample from the others of a scrape. -/
def Sample.series (sample : Sample F) : String × List (String × String) :=
  (sample.name, sample.labels)

def escape (v : String) : String := (v.replace "\\" "\\\\").replace "\"" "\\\""

/-- `_line`. -/
def line (sample : Sample F) : String :=
  if sample.labels.isEmpty then sample.name ++ " " ++ sample.value.str
  else
    let inner := ",".intercalate
      (sample.labels.map fun (k, v) => k ++ "=\"" ++ escape v ++ "\"")
    sample.name ++ "\x7b" ++ inner ++ "\x7d" ++ " " ++ sample.value.str

structure Block (F : Type) where
  name : String
  helpText : String
  mtype : MetricType
  samples : List (Sample F)

/-- The lines that `block` appends. -/
def Block.lines (block : Block F) : List String :=
  ["# HELP " ++ block.name ++ " " ++ block.helpText,
    "# TYPE " ++ block.name ++ " " ++ block.mtype.value] ++ block.samples.map line

/-- A block of one sample without labels. -/
def single (name helpText : String) (mtype : MetricType) (value : PyNumber F) : Block F :=
  ⟨name, helpText, mtype, [⟨name, [], value⟩]⟩

/-- A sample for each key of a counter, or a placeholder where there is none. -/
def breakdown (name label : String) (counts : Counter String) : List (Sample F) :=
  if counts.entries.isEmpty then [⟨name, [(label, "none")], .int 0⟩]
  else counts.entries.map fun (key, c) => ⟨name, [(label, key)], .int c⟩

/-- The blocks of `render`; one reading of the clock stands for all of them. -/
def blocks (metrics : MetricsCollector F) (pipelineRunning : Bool) (now : ℚ) :
    Except PyError (List (Block F)) := do
  let kpis ← metrics.kpis now
  let lat ← metrics.latencyStats
  return [
    single "tradewatch_trades_total" "Total trades processed." .counter (.int kpis.totalTrades),
    single "tradewatch_alerts_total" "Total alerts raised." .counter (.int kpis.totalAlerts),
    single "tradewatch_notional_total" "Total traded notional observed." .counter
      (.float kpis.totalNotional),
    single "tradewatch_symbols_tracked" "Distinct symbols currently tracked." .gauge
      (.int kpis.symbolsTracked),
    single "tradewatch_alert_rate_pct" "Alerts as a percentage of trades." .gauge
      (.float kpis.alertRatePct),
    single "tradewatch_trades_per_second" "Recent trade ingestion rate." .gauge
      (.float kpis.tradesPerSec),
    single "tradewatch_pipeline_running" "1 if the background pipeline is running." .gauge
      (.int (if pipelineRunning then 1 else 0)),
    single "tradewatch_uptime_seconds" "Process uptime." .gauge (.int kpis.uptimeSeconds),
    ⟨"tradewatch_alerts_by_detector_total", "Alerts broken down by detector.", .counter,
      breakdown "tradewatch_alerts_by_detector_total" "detector" metrics.byDetector⟩,
    ⟨"tradewatch_alerts_by_severity_total", "Alerts broken down by severity.", .counter,
      breakdown "tradewatch_alerts_by_severity_total" "severity" metrics.bySeverity⟩,
    ⟨"tradewatch_latency_microseconds", "Per-event processing latency (microseconds).", .summary,
      [⟨"tradewatch_latency_microseconds", [("quantile", "0.5")], lat.p50⟩,
        ⟨"tradewatch_latency_microseconds", [("quantile", "0.95")], lat.p95⟩,
        ⟨"tradewatch_latency_microseconds", [("quantile", "0.99")], lat.p99⟩,
        ⟨"tradewatch_latency_microseconds_sum", [], lat.mean.mul (.int lat.count)⟩,
        ⟨"tradewatch_latency_microseconds_count", [], .int lat.count⟩]⟩]

def render (metrics : MetricsCollector F) (pipelineRunning : Bool) (now : ℚ) :
    Except PyError String := do
  let out ← blocks metrics pipelineRunning now
  return "\n".intercalate (out.flatMap Block.lines) ++ "\n"

/-- The samples that count from the start: those of a counter, and the sum and
the count of a summary. -/
def Block.cumulative (block : Block F) : List (Sample F) :=
  match block.mtype with
  | .counter => block.samples
  | .gauge => []
  | .summary => block.samples.filter fun sample =>
      sample.name = block.name ++ "_sum" || sample.name = block.name ++ "_count"

def cumulative (out : List (Block F)) : List (Sample F) := out.flatMap Block.cumulative

/-- From one scrape to another no series falls, and only a series at zero is
dropped. -/
structure Grow (early late : List (Sample ℝ)) : Prop where
  grows : ∀ s ∈ early, ∀ s' ∈ late, s.series = s'.series → s.value.toFloat ≤ s'.value.toFloat
  kept : ∀ s ∈ early, s.value.toFloat ≠ 0 → ∃ s' ∈ late, s'.series = s.series

/-- The summary has counted `n` trades. -/
def CountsTrades (n : ℕ) (out : List (Block ℝ)) : Prop :=
  ((cumulative out).filter fun s => s.name = "tradewatch_latency_microseconds_count") =
    [⟨"tradewatch_latency_microseconds_count", [], .int n⟩]

/-- Any two scrapes of a run are there, grow from the earlier one to the later
one and count the trades recorded so far. -/
def ExportsCounters (start : MetricsCollector ℝ) (calls : List (RecordCall ℝ)) : Prop :=
  ∀ first second rest, calls = first ++ second ++ rest →
    ∀ (running running' : Bool) (now now' : ℚ), ∃ earlier later,
      blocks (start.recordAll first) running now = .ok earlier ∧
        blocks (start.recordAll (first ++ second)) running' now' = .ok later ∧
        Grow (cumulative earlier) (cumulative later) ∧
        CountsTrades first.length earlier ∧ CountsTrades (first ++ second).length later

/-- The mean of `n` latencies that add up to `total` lies past the middle between `a - 1`
and `a` tenths; or in the middle, if `a` is even. -/
def ReachesTenth (n : ℕ) (total : ℝ) (a : ℤ) : Prop :=
  (n * (2 * a - 1) / 20 : ℚ) ≤ total ∧ ((n * (2 * a - 1) / 20 : ℚ) = total → Even a)

/-- A condition on the latencies of a run: wherever one is added to `n` others whose mean
reaches `a` tenths, the new mean reaches the least number of tenths that comes to as much
for one latency more. -/
def KeepsTenths (latencies : List ℝ) : Prop :=
  ∀ before next after, latencies = before ++ next :: after →
    ∀ a : ℤ, ReachesTenth before.length before.sum a →
      ReachesTenth (before.length + 1) (before.sum + next) (a - a / (before.length + 1))

/-- The families of cumulative samples. -/
inductive Family
  | trades
  | alerts
  | notional
  | byDetector
  | bySeverity
  | latencySum
  | latencyCount
  deriving DecidableEq, Repr

namespace Family

def all : List Family :=
  [trades, alerts, notional, byDetector, bySeverity, latencySum, latencyCount]

def name : Family → String
  | trades => "tradewatch_trades_total"
  | alerts => "tradewatch_alerts_total"
  | notional => "tradewatch_notional_total"
  | byDetector => "tradewatch_alerts_by_detector_total"
  | bySeverity => "tradewatch_alerts_by_severity_total"
  | latencySum => "tradewatch_latency_microseconds_sum"
  | latencyCount => "tradewatch_latency_microseconds_count"

theorem name_injective : ∀ {f g : Family}, f.name = g.name → f = g := by
  intro f g h
  cases f <;> cases g <;> first | rfl | exact absurd h (by decide)

/-- What a collector exports under a family. -/
noncomputable def samples (m : MetricsCollector ℝ) (lat : MetricsCollector.LatencyStats ℝ) :
    Family → List (Sample ℝ)
  | trades => [⟨trades.name, [], .int m.totalTrades⟩]
  | alerts => [⟨alerts.name, [], .int m.totalAlerts⟩]
  | notional => [⟨notional.name, [], .float (round m.totalNotional 2)⟩]
  | byDetector => breakdown byDetector.name "detector" m.byDetector
  | bySeverity => breakdown bySeverity.name "severity" m.bySeverity
  | latencySum => [⟨latencySum.name, [], lat.mean.mul (.int lat.count)⟩]
  | latencyCount => [⟨latencyCount.name, [], .int lat.count⟩]

end Family

omit [PyFloat F] in
theorem name_of_mem_breakdown {name label : String} {counts : Counter String} {s : Sample F}
    (h : s ∈ breakdown name label counts) : s.name = name := by
  unfold breakdown at h
  split at h
  · rw [List.mem_singleton.mp h]
  · obtain ⟨entry, _, rfl⟩ := List.mem_map.mp h
    rfl

theorem Family.name_of_mem_samples {m : MetricsCollector ℝ}
    {lat : MetricsCollector.LatencyStats ℝ} {family : Family} {s : Sample ℝ}
    (h : s ∈ family.samples m lat) : s.name = family.name := by
  cases family with
  | byDetector => exact name_of_mem_breakdown h
  | bySeverity => exact name_of_mem_breakdown h
  | trades => rw [List.mem_singleton.mp h]
  | alerts => rw [List.mem_singleton.mp h]
  | notional => rw [List.mem_singleton.mp h]
  | latencySum => rw [List.mem_singleton.mp h]
  | latencyCount => rw [List.mem_singleton.mp h]

/-- A scrape always succeeds, and its cumulative samples are those of the
families. -/
theorem blocks_eq_ok (m : MetricsCollector ℝ) (running : Bool) (now : ℚ)
    {lat : MetricsCollector.LatencyStats ℝ} (hlat : m.latencyStats = .ok lat) :
    ∃ out, blocks m running now = .ok out ∧
      cumulative out = Family.all.flatMap (Family.samples m lat) := by
  obtain ⟨kpis, hkpis, htrades, halerts, hnotional⟩ := m.kpis_eq_ok now
  unfold blocks
  rw [hkpis, hlat]
  refine ⟨_, rfl, ?_⟩
  simp [cumulative, Block.cumulative, single, Family.all, Family.samples, Family.name, htrades,
    halerts, hnotional]

theorem grow_singleton (name : String) {v v' : PyNumber ℝ} (h : v.toFloat ≤ v'.toFloat) :
    Grow [⟨name, [], v⟩] [⟨name, [], v'⟩] where
  grows s hs s' hs' _ := by
    rw [List.mem_singleton.mp hs, List.mem_singleton.mp hs']
    exact h
  kept s hs _ := by
    rw [List.mem_singleton.mp hs]
    exact ⟨_, List.mem_singleton_self _, rfl⟩

theorem mem_breakdown {name label : String} {counts : Counter String} {s : Sample ℝ}
    (h : s ∈ breakdown name label counts) :
    (counts.entries = [] ∧ s.value.toFloat = 0) ∨
      ∃ key n, counts.get? key = some n ∧ s = ⟨name, [(label, key)], .int n⟩ := by
  unfold breakdown at h
  split at h
  · rename_i hempty
    rw [List.mem_singleton.mp h]
    exact Or.inl ⟨List.isEmpty_iff.mp hempty, by simp [PyNumber.toFloat]⟩
  · obtain ⟨⟨key, n⟩, hmem, rfl⟩ := List.mem_map.mp h
    exact Or.inr ⟨key, n, OrderedDict.mem_entries_iff.mp hmem, rfl⟩

omit [PyFloat F] in
theorem mem_breakdown_of_get? {name label : String} {counts : Counter String} {key : String}
    {n : ℕ} (h : counts.get? key = some n) :
    (⟨name, [(label, key)], .int n⟩ : Sample F) ∈ breakdown name label counts := by
  have hmem := OrderedDict.mem_entries_iff.mpr h
  unfold breakdown
  rw [if_neg (by
    rw [List.isEmpty_iff]
    exact List.ne_nil_of_mem hmem)]
  exact List.mem_map.mpr ⟨_, hmem, rfl⟩

/-- More counting makes no count smaller and takes no key away. -/
theorem grow_breakdown (name label : String) (counts : Counter String) (keys : List String) :
    Grow (breakdown name label counts) (breakdown name label (counts.tally keys)) where
  grows s hs s' hs' hseries := by
    rcases mem_breakdown hs with ⟨_, hzero⟩ | ⟨key, n, hget, rfl⟩
    · rw [hzero]
      rcases mem_breakdown hs' with ⟨_, hzero'⟩ | ⟨key', n', _, rfl⟩
      · rw [hzero']
      · simp [PyNumber.toFloat]
    · obtain ⟨n', hget', hle⟩ := Counter.le_of_get?_tally hget keys
      rcases mem_breakdown hs' with ⟨hempty, _⟩ | ⟨key', m, hgetm, rfl⟩
      · exact absurd (OrderedDict.mem_entries_iff.mpr hget') (by rw [hempty]; simp)
      · obtain rfl : key = key' := by simpa [Sample.series] using hseries
        obtain rfl := Option.some.inj (hget'.symm.trans hgetm)
        simpa [PyNumber.toFloat] using hle
  kept s hs hvalue := by
    rcases mem_breakdown hs with ⟨_, hzero⟩ | ⟨key, n, hget, rfl⟩
    · exact absurd hzero hvalue
    · obtain ⟨n', hget', _⟩ := Counter.le_of_get?_tally hget keys
      exact ⟨_, mem_breakdown_of_get? hget', rfl⟩

/-- Scrapes grow family by family. -/
theorem grow_of_families {m m' : MetricsCollector ℝ}
    {lat lat' : MetricsCollector.LatencyStats ℝ} {earlier later : List (Block ℝ)}
    (hearlier : cumulative earlier = Family.all.flatMap (Family.samples m lat))
    (hlater : cumulative later = Family.all.flatMap (Family.samples m' lat'))
    (h : ∀ family : Family, Grow (family.samples m lat) (family.samples m' lat')) :
    Grow (cumulative earlier) (cumulative later) where
  grows s hs s' hs' hseries := by
    rw [hearlier] at hs
    rw [hlater] at hs'
    obtain ⟨family, _, hmem⟩ := List.mem_flatMap.mp hs
    obtain ⟨family', _, hmem'⟩ := List.mem_flatMap.mp hs'
    obtain rfl : family = family' := by
      apply Family.name_injective
      rw [← Family.name_of_mem_samples hmem, ← Family.name_of_mem_samples hmem']
      exact (Prod.mk.inj hseries).1
    exact (h family).grows s hmem s' hmem' hseries
  kept s hs hvalue := by
    rw [hearlier] at hs
    obtain ⟨family, hfamily, hmem⟩ := List.mem_flatMap.mp hs
    obtain ⟨s', hmem', hseries⟩ := (h family).kept s hmem hvalue
    rw [hlater]
    exact ⟨s', List.mem_flatMap.mpr ⟨family, hfamily, hmem'⟩, hseries⟩

/-- The only sample named after the count is that of the count. -/
theorem countsTrades_iff {m : MetricsCollector ℝ} {lat : MetricsCollector.LatencyStats ℝ}
    {out : List (Block ℝ)} (hout : cumulative out = Family.all.flatMap (Family.samples m lat))
    (n : ℕ) : CountsTrades n out ↔ lat.count = n := by
  have hother : ∀ family : Family, family ≠ .latencyCount →
      (family.samples m lat).filter
        (fun s => s.name = "tradewatch_latency_microseconds_count") = [] := by
    intro family hne
    rw [List.filter_eq_nil_iff]
    intro s hs hname
    refine hne (Family.name_injective ?_)
    rw [← Family.name_of_mem_samples hs, decide_eq_true_eq.mp hname]
    rfl
  have hcount : (cumulative out).filter
      (fun s => s.name = "tradewatch_latency_microseconds_count") =
        [⟨"tradewatch_latency_microseconds_count", [], .int lat.count⟩] := by
    rw [hout, List.filter_flatMap]
    simp [Family.all, hother]
    rfl
  rw [CountsTrades, hcount]
  simp

theorem reachesTenth_iff {n : ℕ} (hn : 0 < n) (total : ℝ) (a : ℤ) :
    ReachesTenth n total a ↔ a ≤ roundHalfEven (total / n * 10) := by
  have hpos : (0 : ℝ) < n := by exact_mod_cast hn
  have hcancel : total / n * n = total := div_mul_cancel₀ _ hpos.ne'
  have hcast : ((n * (2 * a - 1) / 20 : ℚ) : ℝ) = n * (2 * a - 1) / 20 := by push_cast; rfl
  have hle : (n : ℝ) * (2 * a - 1) / 20 ≤ total ↔ (a : ℝ) - 1 / 2 ≤ total / n * 10 := by
    constructor <;> intro h <;> nlinarith
  have hlt : (n : ℝ) * (2 * a - 1) / 20 < total ↔ (a : ℝ) - 1 / 2 < total / n * 10 := by
    constructor <;> intro h <;> nlinarith
  rw [le_roundHalfEven_iff, ReachesTenth, hcast]
  by_cases heven : Even a
  · rw [if_pos heven, ← hle]
    exact and_iff_left fun _ => heven
  · rw [if_neg heven, ← hlt, lt_iff_le_and_ne]
    exact and_congr_right fun _ => imp_iff_not heven

/-- The exported sum: the mean in tenths, once for each latency. -/
noncomputable def exportedSum (latencies : List ℝ) : ℝ :=
  latencies.length * roundDigits (SampleStatistics.average latencies) 1

theorem exportedSum_eq (latencies : List ℝ) :
    exportedSum latencies = ((latencies.length * roundHalfEven (latencies.sum / latencies.length *
      10) : ℤ) : ℝ) / 10 := by
  rw [exportedSum, roundDigits, SampleStatistics.average, pow_one]
  push_cast
  ring

/-- Tenths that `n` latencies have and `n + 1` shall not fall below. -/
theorem sub_ediv_le_iff (n : ℕ) (a b : ℤ) :
    a - a / (n + 1) ≤ b ↔ n * a ≤ (n + 1) * b := by
  have hpos : (0 : ℤ) < n + 1 := by omega
  rw [sub_le_comm, Int.le_ediv_iff_mul_le hpos]
  constructor <;> intro h <;> linarith

/-- The exported sum does not fall with a latency exactly if that keeps the tenths. -/
theorem exportedSum_snoc_iff (before : List ℝ) (next : ℝ) :
    exportedSum before ≤ exportedSum (before ++ [next]) ↔
      ∀ a : ℤ, ReachesTenth before.length before.sum a →
        ReachesTenth (before.length + 1) (before.sum + next) (a - a / (before.length + 1)) := by
  have htenths : exportedSum before ≤ exportedSum (before ++ [next]) ↔
      (before.length : ℤ) * roundHalfEven (before.sum / before.length * 10) ≤
        (before.length + 1) * roundHalfEven ((before.sum + next) / (before.length + 1 : ℕ) * 10) := by
    rw [exportedSum_eq, exportedSum_eq, div_le_div_iff_of_pos_right (by norm_num), Int.cast_le]
    simp
  simp only [htenths, reachesTenth_iff (Nat.succ_pos before.length), sub_ediv_le_iff]
  rcases Nat.eq_zero_or_pos before.length with hnone | hsome
  · rw [hnone]
    simp only [Nat.cast_zero, zero_mul]
    refine ⟨fun h _ _ => h, fun h => h 0 ?_⟩
    simp [ReachesTenth, List.length_eq_zero_iff.mp hnone]
  · simp only [reachesTenth_iff hsome]
    constructor
    · intro h a ha
      exact (mul_le_mul_of_nonneg_left ha (Int.natCast_nonneg _)).trans h
    · exact fun h => h _ le_rfl

/-- What holds from one latency to the next holds from any scrape to a later one. -/
theorem KeepsTenths.exportedSum_le {first second rest : List ℝ}
    (h : KeepsTenths (first ++ second ++ rest)) :
    exportedSum first ≤ exportedSum (first ++ second) := by
  induction second using List.reverseRecOn generalizing rest with
  | nil => rw [List.append_nil]
  | append_singleton second next ih =>
      rw [← List.append_assoc, List.append_assoc, List.singleton_append] at h
      refine (ih h).trans ?_
      rw [← List.append_assoc, exportedSum_snoc_iff]
      exact h _ _ _ rfl

/-- What a scrape shows of the calls before it. -/
structure Shows (latencyReservoir : ℕ) (calls : List (RecordCall ℝ)) (m : MetricsCollector ℝ)
    (lat : MetricsCollector.LatencyStats ℝ) (out : List (Block ℝ)) : Prop where
  lifetime : m.Lifetime latencyReservoir calls
  families : cumulative out = Family.all.flatMap (Family.samples m lat)
  count : lat.count = min latencyReservoir calls.length
  sum : calls.length ≤ latencyReservoir →
    (lat.mean.mul (.int lat.count)).toFloat = exportedSum (calls.map (·.latencyUs))

theorem blocks_of_lifetime {latencyReservoir : ℕ} {calls : List (RecordCall ℝ)}
    {m : MetricsCollector ℝ} (h : m.Lifetime latencyReservoir calls) (running : Bool) (now : ℚ) :
    ∃ lat out, blocks m running now = .ok out ∧ Shows latencyReservoir calls m lat out := by
  obtain ⟨lat, hlat, hcount, hsum⟩ := m.latencyStats_real
  obtain ⟨out, hout, hfamilies⟩ := blocks_eq_ok m running now hlat
  refine ⟨lat, out, hout, h, hfamilies, ?_, ?_⟩
  · have hkept : m.latency.items = (calls.map (·.latencyUs)).rtake m.latency.maxlen := h.latency
    rw [hcount, hkept, Suffix.length_rtake, List.length_map, h.reservoir]
  · intro hfits
    rw [PyNumber.toFloat_mul_real, exportedSum, ← h.items hfits, ← hsum]
    simp [PyNumber.toFloat]

theorem notional_pos (trade : Trade ℝ) : 0 < trade.notional := by
  have hprice := trade.price_pos
  have hquantity := trade.quantity_pos
  rw [lt_real, ofRat_real, Rat.cast_zero] at hprice hquantity
  exact mul_pos hprice hquantity

section Scrapes

variable {latencyReservoir : ℕ} {first second : List (RecordCall ℝ)}
  {m m' : MetricsCollector ℝ} {lat lat' : MetricsCollector.LatencyStats ℝ}
  {out out' : List (Block ℝ)}

/-- Between two scrapes everything grows if the exported sum does. -/
theorem Shows.grow (h : Shows latencyReservoir first m lat out)
    (h' : Shows latencyReservoir (first ++ second) m' lat' out')
    (hsum : (lat.mean.mul (.int lat.count)).toFloat ≤
      (lat'.mean.mul (.int lat'.count)).toFloat) :
    Grow (cumulative out) (cumulative out') := by
  refine grow_of_families h.families h'.families fun family => ?_
  cases family with
  | trades =>
      apply grow_singleton
      simp only [PyNumber.toFloat, h.lifetime.trades, h'.lifetime.trades, ofRat_real]
      exact_mod_cast (by simp : first.length ≤ (first ++ second).length)
  | alerts =>
      apply grow_singleton
      simp only [PyNumber.toFloat, h.lifetime.alerts, h'.lifetime.alerts, ofRat_real]
      exact_mod_cast (by simp : (first.flatMap (·.alerts)).length ≤
        ((first ++ second).flatMap (·.alerts)).length)
  | notional =>
      apply grow_singleton
      have hadded : 0 ≤ (second.map (·.trade.notional)).sum := by
        apply List.sum_nonneg
        intro x hx
        obtain ⟨call, _, rfl⟩ := List.mem_map.mp hx
        exact (notional_pos call.trade).le
      simp only [PyNumber.toFloat, h.lifetime.notional, h'.lifetime.notional, List.map_append,
        List.sum_append]
      exact roundDigits_mono (by linarith) 2
  | byDetector =>
      simp only [Family.samples, h.lifetime.byDetector, h'.lifetime.byDetector,
        List.flatMap_append, List.map_append, Counter.tally_append]
      exact grow_breakdown _ _ _ _
  | bySeverity =>
      simp only [Family.samples, h.lifetime.bySeverity, h'.lifetime.bySeverity,
        List.flatMap_append, List.map_append, Counter.tally_append]
      exact grow_breakdown _ _ _ _
  | latencySum => exact grow_singleton _ hsum
  | latencyCount =>
      apply grow_singleton
      have hle : lat.count ≤ lat'.count := by
        rw [h.count, h'.count, List.length_append]
        omega
      simp only [PyNumber.toFloat, ofRat_real]
      exact_mod_cast hle

/-- Conversely the exported sum is one of what grows. -/
theorem Shows.sum_le (h : Shows latencyReservoir first m lat out)
    (h' : Shows latencyReservoir (first ++ second) m' lat' out')
    (hgrow : Grow (cumulative out) (cumulative out')) :
    (lat.mean.mul (.int lat.count)).toFloat ≤ (lat'.mean.mul (.int lat'.count)).toFloat := by
  have hsum : (⟨Family.latencySum.name, [], lat.mean.mul (.int lat.count)⟩ : Sample ℝ) ∈
      cumulative out := by
    rw [h.families]
    exact List.mem_flatMap.mpr ⟨.latencySum, by simp [Family.all], List.mem_singleton_self _⟩
  have hsum' : (⟨Family.latencySum.name, [], lat'.mean.mul (.int lat'.count)⟩ : Sample ℝ) ∈
      cumulative out' := by
    rw [h'.families]
    exact List.mem_flatMap.mpr ⟨.latencySum, by simp [Family.all], List.mem_singleton_self _⟩
  exact hgrow.grows _ hsum _ hsum' rfl

end Scrapes

section Run

variable {startTime : ℚ} {tsWindow : ℤ} {pricePoints latencyReservoir tapeSize : ℕ}
  {calls : List (RecordCall ℝ)}

/-- A run that outgrows the reservoir is not counted. -/
theorem ExportsCounters.length_le
    (h : ExportsCounters (.init startTime tsWindow pricePoints latencyReservoir tapeSize) calls) :
    calls.length ≤ latencyReservoir := by
  obtain ⟨earlier, later, hearlier, _, _, hcounts, _⟩ :=
    h calls [] [] (by simp) false false 0 0
  obtain ⟨lat, out, hout, hshows⟩ := blocks_of_lifetime
    (MetricsCollector.lifetime_recordAll startTime tsWindow pricePoints latencyReservoir tapeSize
      calls) false 0
  obtain rfl := Except.ok.inj (hearlier.symm.trans hout)
  rw [countsTrades_iff hshows.families, hshows.count] at hcounts
  omega

variable (startTime tsWindow pricePoints latencyReservoir tapeSize calls)

end Run

/-- A trade handled in a microsecond. -/
noncomputable def recordCall : RecordCall ℝ where
  trade := realTradeAt 0
  alerts := []
  latencyUs := 1
  now := 0

end Prometheus

end TradeWatch
