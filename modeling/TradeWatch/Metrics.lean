import TradeWatch.Lib.Bounded
import TradeWatch.Lib.OrderedDict
import TradeWatch.Lib.Statistics
import TradeWatch.Models

/-!
The collector behind the dashboard. Every handled trade updates per-second
buckets, per-symbol aggregates, a latency reservoir and a tape; the wall clock
is an argument. Buckets older than the window are trimmed when the second
changes. What the exposition reads comes from the totals and the breakdowns,
which a run only adds to, and from the reservoir, which forgets.
-/

namespace TradeWatch

open PyFloat

variable {F : Type} [PyFloat F]

/-- `int(x)`: towards zero. -/
def pyInt (x : ℚ) : ℤ := x.num.tdiv x.den

structure SymbolMetrics (F : Type) where
  symbol : String
  prices : BoundedDeque F
  firstPrice : F
  lastPrice : F
  high : F
  low : F
  trades : ℕ
  alerts : ℕ
  notional : F
  buy : ℕ
  sell : ℕ
  lastSeen : ℚ

structure TapeRow (F : Type) where
  tradeId : String
  symbol : String
  price : F
  quantity : F
  side : Side
  notional : F
  anomalous : Bool
  ts : ℚ

structure MetricsCollector (F : Type) where
  startTime : ℚ
  tsWindow : ℤ
  pricePoints : ℕ
  tsTrades : OrderedDict ℤ ℕ
  tsAlerts : OrderedDict ℤ ℕ
  tsNotional : OrderedDict ℤ F
  symbols : OrderedDict String (SymbolMetrics F)
  latency : BoundedDeque F
  tape : BoundedDeque (TapeRow F)
  byDetector : Counter String
  bySeverity : Counter String
  totalTrades : ℕ
  totalAlerts : ℕ
  totalNotional : F
  lastTrim : ℤ

namespace SymbolMetrics

/-- The aggregates of a symbol that has not been seen before. -/
def opened (pricePoints : ℕ) (trade : Trade F) (now : ℚ) : SymbolMetrics F where
  symbol := trade.symbol
  prices := .empty pricePoints
  firstPrice := trade.price
  lastPrice := trade.price
  high := trade.price
  low := trade.price
  trades := 0
  alerts := 0
  notional := ofRat 0
  buy := 0
  sell := 0
  lastSeen := now

def record (sym : SymbolMetrics F) (trade : Trade F) (alerts : ℕ) (now : ℚ) :
    SymbolMetrics F :=
  { sym with
    trades := sym.trades + 1
    lastPrice := trade.price
    high := pyMax sym.high trade.price
    low := pyMin sym.low trade.price
    notional := add sym.notional trade.notional
    lastSeen := now
    prices := sym.prices.append (round trade.price 6)
    buy := if trade.side.value = "buy" then sym.buy + 1 else sym.buy
    sell := if trade.side.value = "buy" then sym.sell else sym.sell + 1
    alerts := sym.alerts + alerts }

end SymbolMetrics

namespace MetricsCollector

def init (startTime : ℚ) (tsWindow : ℤ := 300) (pricePoints : ℕ := 120)
    (latencyReservoir : ℕ := 4000) (tapeSize : ℕ := 80) : MetricsCollector F where
  startTime := startTime
  tsWindow := tsWindow
  pricePoints := pricePoints
  tsTrades := .empty
  tsAlerts := .empty
  tsNotional := .empty
  symbols := .empty
  latency := .empty latencyReservoir
  tape := .empty tapeSize
  byDetector := .empty
  bySeverity := .empty
  totalTrades := 0
  totalAlerts := 0
  totalNotional := ofRat 0
  lastTrim := pyInt startTime

/-- `_trim`. -/
def trim (m : MetricsCollector F) (sec : ℤ) : MetricsCollector F :=
  let cutoff := sec - m.tsWindow
  { m with
    tsTrades := m.tsTrades.filterKeys (fun k => cutoff ≤ k)
    tsAlerts := m.tsAlerts.filterKeys (fun k => cutoff ≤ k)
    tsNotional := m.tsNotional.filterKeys (fun k => cutoff ≤ k) }

def tapeRow (trade : Trade F) (alerts : List (Alert F)) : TapeRow F where
  tradeId := trade.tradeId
  symbol := trade.symbol
  price := trade.price
  quantity := trade.quantity
  side := trade.side
  notional := round trade.notional 2
  anomalous := !alerts.isEmpty
  ts := trade.timestamp

/-- The part of `record` that every trade takes. -/
def recordTrade (m : MetricsCollector F) (trade : Trade F) (alerts : List (Alert F))
    (latencyUs : F) (now : ℚ) : MetricsCollector F :=
  let sec := pyInt now
  let sym := (m.symbols.get? trade.symbol).getD (.opened m.pricePoints trade now)
  { m with
    tsTrades := m.tsTrades.set sec ((m.tsTrades.get? sec).getD 0 + 1)
    tsNotional := m.tsNotional.set sec
      (add ((m.tsNotional.get? sec).getD (ofRat 0)) trade.notional)
    totalTrades := m.totalTrades + 1
    totalNotional := add m.totalNotional trade.notional
    latency := m.latency.append latencyUs
    symbols := m.symbols.set trade.symbol (sym.record trade alerts.length now)
    tape := m.tape.appendleft (tapeRow trade alerts) }

/-- The part of `record` that only a trade with alerts takes. -/
def recordAlerts (m : MetricsCollector F) (alerts : List (Alert F)) (now : ℚ) :
    MetricsCollector F :=
  if alerts.isEmpty then m
  else
    let sec := pyInt now
    { m with
      tsAlerts := m.tsAlerts.set sec ((m.tsAlerts.get? sec).getD 0 + alerts.length)
      totalAlerts := m.totalAlerts + alerts.length
      byDetector := alerts.foldl (fun c a => Counter.incr c a.detector) m.byDetector
      bySeverity := alerts.foldl (fun c a => Counter.incr c a.severity.value) m.bySeverity }

def record (m : MetricsCollector F) (trade : Trade F) (alerts : List (Alert F))
    (latencyUs : F) (now : ℚ) : MetricsCollector F :=
  let sec := pyInt now
  let m := (m.recordTrade trade alerts latencyUs now).recordAlerts alerts now
  if sec ≠ m.lastTrim then { m.trim sec with lastTrim := sec } else m

/-- Everything `record` does, up to which buckets it keeps and when it last
trimmed them. -/
theorem record_eq (m : MetricsCollector F) (trade : Trade F) (alerts : List (Alert F))
    (latencyUs : F) (now : ℚ) :
    ∃ tsTrades tsAlerts tsNotional lastTrim,
      m.record trade alerts latencyUs now =
        { m.recordTrade trade alerts latencyUs now with
          tsTrades := tsTrades
          tsAlerts := tsAlerts
          tsNotional := tsNotional
          totalAlerts := m.totalAlerts + alerts.length
          byDetector := m.byDetector.tally (alerts.map (·.detector))
          bySeverity := m.bySeverity.tally (alerts.map (·.severity.value))
          lastTrim := lastTrim } := by
  obtain ⟨tsAlerts, halerts⟩ : ∃ tsAlerts,
      (m.recordTrade trade alerts latencyUs now).recordAlerts alerts now =
        { m.recordTrade trade alerts latencyUs now with
          tsAlerts := tsAlerts
          totalAlerts := m.totalAlerts + alerts.length
          byDetector := m.byDetector.tally (alerts.map (·.detector))
          bySeverity := m.bySeverity.tally (alerts.map (·.severity.value)) } := by
    unfold recordAlerts Counter.tally
    simp only [List.foldl_map]
    cases alerts with
    | nil => exact ⟨m.tsAlerts, rfl⟩
    | cons alert rest => exact ⟨_, rfl⟩
  unfold record
  rw [halerts]
  dsimp only [trim]
  split
  · exact ⟨_, _, _, _, rfl⟩
  · exact ⟨_, _, _, _, rfl⟩

/-- What `record` adds to the totals. -/
theorem record_totals (m : MetricsCollector F) (trade : Trade F) (alerts : List (Alert F))
    (latencyUs : F) (now : ℚ) :
    (m.record trade alerts latencyUs now).totalTrades = m.totalTrades + 1 ∧
      (m.record trade alerts latencyUs now).totalAlerts = m.totalAlerts + alerts.length := by
  obtain ⟨_, _, _, _, hrecord⟩ := m.record_eq trade alerts latencyUs now
  rw [hrecord]
  exact ⟨rfl, rfl⟩

/-- What `record` adds to the breakdowns. -/
theorem record_breakdowns (m : MetricsCollector F) (trade : Trade F) (alerts : List (Alert F))
    (latencyUs : F) (now : ℚ) :
    (m.record trade alerts latencyUs now).byDetector =
        m.byDetector.tally (alerts.map (·.detector)) ∧
      (m.record trade alerts latencyUs now).bySeverity =
        m.bySeverity.tally (alerts.map (·.severity.value)) := by
  obtain ⟨_, _, _, _, hrecord⟩ := m.record_eq trade alerts latencyUs now
  rw [hrecord]
  exact ⟨rfl, rfl⟩

/-- What `record` adds to the notional and to the latency reservoir. -/
theorem record_amounts (m : MetricsCollector F) (trade : Trade F) (alerts : List (Alert F))
    (latencyUs : F) (now : ℚ) :
    (m.record trade alerts latencyUs now).totalNotional = add m.totalNotional trade.notional ∧
      (m.record trade alerts latencyUs now).latency = m.latency.append latencyUs := by
  obtain ⟨_, _, _, _, hrecord⟩ := m.record_eq trade alerts latencyUs now
  rw [hrecord]
  exact ⟨rfl, rfl⟩

section Snapshots

/-- One second as the dashboard shows it. -/
structure SeriesPoint (F : Type) where
  t : ℤ
  trades : ℕ
  alerts : ℕ
  notional : F

/-- `timeseries`: the seconds up to the current one. A window of `None` or zero
stands for the collector's own. -/
def timeseries (m : MetricsCollector F) (now : ℚ) (window : Option ℤ := none) :
    List (SeriesPoint F) :=
  let window := if window.getD 0 = 0 then m.tsWindow else window.getD 0
  (List.range window.toNat).map fun (i : ℕ) =>
    let s := pyInt now - window + 1 + i
    { t := s
      trades := (m.tsTrades.get? s).getD 0
      alerts := (m.tsAlerts.get? s).getD 0
      notional := round ((m.tsNotional.get? s).getD (ofRat 0)) 2 }

/-- Log-spaced histogram buckets (microseconds). -/
def edges : List ℚ := [0, 50, 100, 200, 500, 1000, 2000, 5000, 10000, 20000, 50000, 10 ^ 12]

def labels : List String :=
  ["<50µs", "50-100", "100-200", "200-500", "500µs-1ms", "1-2ms",
    "2-5ms", "5-10ms", "10-20ms", "20-50ms", ">50ms"]

/-- The first bucket whose edges enclose the value. -/
def bucketOf (v : F) : Option ℕ :=
  (List.range (edges.length - 1)).find? fun i =>
    le (ofRat (edges.getD i 0)) v && lt v (ofRat (edges.getD (i + 1) 0))

def histogram (data : List F) : List (String × ℕ) :=
  labels.mapIdx fun i label => (label, data.countP fun v => bucketOf v = some i)

/-- `data[i]`. -/
def item (data : List F) (i : ℕ) : Except PyError F :=
  match data[i]? with
  | none => .error .indexError
  | some v => .ok v

omit [PyFloat F] in
theorem item_eq_ok {data : List F} {i : ℕ} (h : i < data.length) : item data i = .ok data[i] := by
  rw [item, List.getElem?_eq_getElem h]

/-- `int(x)` of a float from zero up to `bound`. -/
def intUpTo (bound : ℕ) (x : F) : ℕ := Nat.findGreatest (fun k => le (ofRat k) x) bound

def pct (data : List F) (p : ℚ) : Except PyError F :=
  let n := data.length
  item data (min (n - 1) (intUpTo n (mul (ofRat p) (ofRat n) : F)))

structure LatencyStats (F : Type) where
  count : ℕ
  p50 : PyNumber F
  p95 : PyNumber F
  p99 : PyNumber F
  max : PyNumber F
  mean : PyNumber F
  histogram : List (String × ℕ)

def latencyStats (m : MetricsCollector F) : Except PyError (LatencyStats F) :=
  let data := sorted m.latency.items
  let n := data.length
  if n = 0 then
    .ok
      { count := 0, p50 := .int 0, p95 := .int 0, p99 := .int 0, max := .int 0, mean := .int 0
        histogram := [] }
  else do
    let p50 ← pct data (1 / 2)
    let p95 ← pct data (95 / 100)
    let p99 ← pct data (99 / 100)
    let max ← item data (n - 1)
    let mean ← trueDiv (sum data) (ofRat n)
    return {
      count := n
      p50 := .float (round p50 1)
      p95 := .float (round p95 1)
      p99 := .float (round p99 1)
      max := .float (round max 1)
      mean := .float (round mean 1)
      histogram := histogram data }

/-- A symbol as the dashboard shows it. -/
structure SymbolRow (F : Type) where
  symbol : String
  lastPrice : F
  changePct : F
  high : F
  low : F
  trades : ℕ
  alerts : ℕ
  notional : F
  buy : ℕ
  sell : ℕ
  spark : List F

/-- The body of the loop of `symbols`. -/
def symbolRow (s : SymbolMetrics F) : Except PyError (SymbolRow F) := do
  let first := if isZero s.firstPrice then s.lastPrice else s.firstPrice
  let change ← if isZero first then .ok (ofRat 0) else trueDiv (sub s.lastPrice first) first
  return {
    symbol := s.symbol
    lastPrice := round s.lastPrice 4
    changePct := round (mul change (ofRat 100)) 3
    high := round s.high 4
    low := round s.low 4
    trades := s.trades
    alerts := s.alerts
    notional := round s.notional 2
    buy := s.buy
    sell := s.sell
    spark := s.prices.items }

/-- `symbols()`, the greatest notional first. -/
def symbolRows (m : MetricsCollector F) : Except PyError (List (SymbolRow F)) := do
  let out ← m.symbols.values.mapM symbolRow
  return out.insertionSort (fun a b => !lt a.notional b.notional)

structure Rate (F : Type) where
  tradesPerSec : F
  alertsPerSec : F

/-- Over the last `seconds` fully elapsed buckets. -/
def rate (m : MetricsCollector F) (now : ℚ) (seconds : ℕ := 5) : Except PyError (Rate F) := do
  let elapsed := (List.range seconds).map fun (i : ℕ) => pyInt now - seconds + i
  let t := (elapsed.map fun s => (m.tsTrades.get? s).getD 0).sum
  let a := (elapsed.map fun s => (m.tsAlerts.get? s).getD 0).sum
  let trades ← intDiv t seconds
  let alerts ← intDiv a seconds
  return { tradesPerSec := round trades 2, alertsPerSec := round alerts 2 }

structure Kpis (F : Type) where
  totalTrades : ℕ
  totalAlerts : ℕ
  totalNotional : F
  alertRatePct : F
  symbolsTracked : ℕ
  uptimeSeconds : ℤ
  tradesPerSec : F
  alertsPerSec : F

/-- Alerts as a percentage of trades. -/
def alertRatePct (m : MetricsCollector F) : Except PyError F :=
  if m.totalTrades = 0 then .ok (ofRat 0)
  else (intDiv (100 * m.totalAlerts) m.totalTrades).map fun share => round share 3

def kpis (m : MetricsCollector F) (now : ℚ) : Except PyError (Kpis F) := do
  let rate ← m.rate now
  let alertRatePct ← m.alertRatePct
  return {
    totalTrades := m.totalTrades
    totalAlerts := m.totalAlerts
    totalNotional := round m.totalNotional 2
    alertRatePct := alertRatePct
    symbolsTracked := m.symbols.entries.length
    uptimeSeconds := pyInt (now - m.startTime)
    tradesPerSec := rate.tradesPerSec
    alertsPerSec := rate.alertsPerSec }

theorem kpis_eq_ok (m : MetricsCollector F) (now : ℚ) :
    ∃ kpis, m.kpis now = .ok kpis ∧ kpis.totalTrades = m.totalTrades ∧
      kpis.totalAlerts = m.totalAlerts ∧ kpis.totalNotional = round m.totalNotional 2 := by
  obtain ⟨rate, hrate⟩ : ∃ rate, m.rate now = .ok rate := by
    unfold MetricsCollector.rate
    dsimp only
    rw [intDiv_eq_ok (by norm_num), intDiv_eq_ok (by norm_num)]
    exact ⟨_, rfl⟩
  obtain ⟨share, hshare⟩ : ∃ share, m.alertRatePct = .ok share := by
    unfold alertRatePct
    split
    · exact ⟨_, rfl⟩
    · rename_i hsome
      rw [intDiv_eq_ok (by exact_mod_cast hsome)]
      exact ⟨_, rfl⟩
  unfold kpis
  rw [hrate, hshare]
  exact ⟨_, rfl, rfl, rfl, rfl⟩

/-- A percentile lies inside the data. -/
theorem pct_eq_ok {data : List F} (h : data ≠ []) (p : ℚ) : ∃ v, pct data p = .ok v := by
  have hlength := List.length_pos_iff.mpr h
  have hindex : min (data.length - 1)
      (intUpTo data.length (mul (ofRat p) (ofRat data.length) : F)) < data.length := by
    omega
  exact ⟨_, item_eq_ok hindex⟩

/-- The statistics are always there, of as many latencies as are kept and with their mean
in tenths. -/
theorem latencyStats_real (m : MetricsCollector ℝ) :
    ∃ stats, m.latencyStats = .ok stats ∧ stats.count = m.latency.items.length ∧
      stats.mean.toFloat * stats.count =
        m.latency.items.length * roundDigits (SampleStatistics.average m.latency.items) 1 := by
  have hperm := sorted_perm m.latency.items
  unfold latencyStats
  dsimp only
  rcases eq_or_ne m.latency.items [] with hnil | hne
  · rw [hnil]
    exact ⟨_, rfl, rfl, by simp [PyNumber.toFloat]⟩
  · have hdata : sorted m.latency.items ≠ [] := by
      rwa [ne_eq, ← List.length_eq_zero_iff, hperm.length_eq, List.length_eq_zero_iff]
    have hlength : ((m.latency.items.length : ℕ) : ℝ) ≠ 0 :=
      Nat.cast_ne_zero.mpr (fun h => hne (List.length_eq_zero_iff.mp h))
    obtain ⟨p50, hp50⟩ := pct_eq_ok hdata (1 / 2)
    obtain ⟨p95, hp95⟩ := pct_eq_ok hdata (95 / 100)
    obtain ⟨p99, hp99⟩ := pct_eq_ok hdata (99 / 100)
    have hlast := item_eq_ok (Nat.sub_one_lt (mt List.length_eq_zero_iff.mp hdata))
    rw [if_neg (by rwa [List.length_eq_zero_iff]), hp50, hp95, hp99, hlast,
      trueDiv_real (by rwa [ofRat_real, hperm.length_eq, Rat.cast_natCast])]
    refine ⟨_, rfl, hperm.length_eq, ?_⟩
    simp only [PyNumber.toFloat, round_real, sum_real, ofRat_real, Rat.cast_natCast,
      hperm.length_eq, hperm.sum_eq]
    rw [SampleStatistics.average, mul_comm]

end Snapshots

end MetricsCollector

/-- The arguments of one call of `record`, the wall clock among them. -/
structure RecordCall (F : Type) [PyFloat F] where
  trade : Trade F
  alerts : List (Alert F)
  latencyUs : F
  now : ℚ

namespace MetricsCollector

/-- The collector after a run of calls. -/
def recordAll (m : MetricsCollector F) (calls : List (RecordCall F)) : MetricsCollector F :=
  calls.foldl (fun m call => m.record call.trade call.alerts call.latencyUs call.now) m

/-- What the collector knows of all the calls so far: the totals and the
breakdowns for good, the latencies as far as the reservoir reaches. -/
structure Lifetime (m : MetricsCollector ℝ) (latencyReservoir : ℕ)
    (calls : List (RecordCall ℝ)) : Prop where
  trades : m.totalTrades = calls.length
  alerts : m.totalAlerts = (calls.flatMap (·.alerts)).length
  notional : m.totalNotional = (calls.map (·.trade.notional)).sum
  byDetector : m.byDetector =
    Counter.tally .empty ((calls.flatMap (·.alerts)).map (·.detector))
  bySeverity : m.bySeverity =
    Counter.tally .empty ((calls.flatMap (·.alerts)).map (·.severity.value))
  reservoir : m.latency.maxlen = latencyReservoir
  latency : m.latency.Keeps (calls.map (·.latencyUs))

theorem Lifetime.record {m : MetricsCollector ℝ} {latencyReservoir : ℕ}
    {calls : List (RecordCall ℝ)} (h : Lifetime m latencyReservoir calls) (call : RecordCall ℝ) :
    Lifetime (m.record call.trade call.alerts call.latencyUs call.now) latencyReservoir
      (calls ++ [call]) := by
  obtain ⟨htrades, halerts⟩ := m.record_totals call.trade call.alerts call.latencyUs call.now
  obtain ⟨hdetector, hseverity⟩ :=
    m.record_breakdowns call.trade call.alerts call.latencyUs call.now
  obtain ⟨hnotional, hlatency⟩ := m.record_amounts call.trade call.alerts call.latencyUs call.now
  constructor
  · rw [htrades, h.trades, List.length_append, List.length_singleton]
  · simp [halerts, h.alerts]
  · simp [hnotional, h.notional]
  · simp [hdetector, h.byDetector, Counter.tally_append]
  · simp [hseverity, h.bySeverity, Counter.tally_append]
  · rw [hlatency]
    exact h.reservoir
  · rw [hlatency, List.map_append]
    exact h.latency.append call.latencyUs

theorem lifetime_recordAll (startTime : ℚ) (tsWindow : ℤ)
    (pricePoints latencyReservoir tapeSize : ℕ) (calls : List (RecordCall ℝ)) :
    Lifetime ((init startTime tsWindow pricePoints latencyReservoir tapeSize).recordAll calls)
      latencyReservoir calls := by
  induction calls using List.reverseRecOn with
  | nil => exact ⟨rfl, rfl, by simp [recordAll, init], rfl, rfl, rfl, BoundedDeque.keeps_empty _⟩
  | append_singleton calls call ih =>
      rw [recordAll, List.foldl_append]
      exact ih.record call

/-- Within the reservoir every latency is still there. -/
theorem Lifetime.items {m : MetricsCollector ℝ} {latencyReservoir : ℕ}
    {calls : List (RecordCall ℝ)} (h : Lifetime m latencyReservoir calls)
    (hfits : calls.length ≤ latencyReservoir) :
    m.latency.items = calls.map (·.latencyUs) := by
  have hkept : m.latency.items = (calls.map (·.latencyUs)).rtake m.latency.maxlen := h.latency
  rw [hkept, h.reservoir, Suffix.rtake_of_length_le (by rwa [List.length_map])]

end MetricsCollector

end TradeWatch
