import TradeWatch.Lib.SqlLogic
import TradeWatch.Spark.DetectionSql

/-!
The two batch jobs over a history whose columns may be null: the backtest, which
flags by the shared detection logic, and the Databricks notebook, which spells the
same rules out once more. Spark is a parameter: its aggregates, its rounding and its
order of the doubles, which puts NaN above everything.
-/

namespace TradeWatch.Spark

open PyFloat Sql

structure SparkSql (F : Type) extends Functions F where
  gt : F → F → Bool
  ge : F → F → Bool
  round : F → ℕ → F
  castString : F → String

/-- A row of the history, as far as the jobs read it. -/
structure HistoryRow (F : Type) where
  timestamp : Option ℚ
  symbol : Option String
  price : Option F
  quantity : Option F

/-- The columns that the features add. -/
structure FeatureColumns (F : Type) where
  priceMean : Option F
  priceStd : Option F
  priceZ : Option F
  volRatio : Option F
  velocity : ℕ

/-- The columns that the verdict adds. -/
structure Verdict where
  anomalous : Truth
  detector : Option String
  severity : Option String
  reason : Option String

/-- A row that the backtest writes. -/
structure Anomaly (F : Type) where
  timestamp : Option ℚ
  symbol : Option String
  price : Option F
  quantity : Option F
  detector : Option String
  severity : Option String
  reason : Option String

/-- A row that the notebook writes. -/
structure NotebookAnomaly (F : Type) where
  timestamp : Option ℚ
  symbol : Option String
  detector : Option String
  severity : Option String
  price : Option F
  quantity : Option F
  priceZ : Option F
  volRatio : Option F

section Rows

variable {F : Type}

/-- `timestamp.cast("long")`. -/
def HistoryRow.tsSeconds (row : HistoryRow F) : Option ℤ := row.timestamp.map Int.floor

/-- `rangeBetween(-velocity_seconds, 0)`. A null is in the range of nulls alone. -/
def inRange (velocitySeconds : ℕ) (row other : HistoryRow F) : Bool :=
  match row.tsSeconds, other.tsSeconds with
  | some now, some ts => now - velocitySeconds ≤ ts && ts ≤ now
  | none, none => true
  | _, _ => false

/-- Every row of a partition, with the rows before it and after it. -/
def splits : List (HistoryRow F) → List (List (HistoryRow F) × HistoryRow F × List (HistoryRow F))
  | [] => []
  | row :: rest => ([], row, rest) :: (splits rest).map (fun s => (row :: s.1, s.2))

end Rows

variable {F : Type} [PyFloat F] (sql : SparkSql F)

/-- `F.when(d > 0, n / d).otherwise(0.0)`. -/
def ratio (numerator divisor : Option F) : Option F :=
  if holds (test (sql.gt · (ofRat 0)) divisor) then
    match numerator, divisor with
    | some n, some d => some (div n d)
    | _, _ => none
  else some (ofRat 0)

/-- `price - price_mean`, null for a null. -/
def difference : Option F → Option F → Option F
  | some price, some mean => some (sub price mean)
  | _, _ => none

/-- `add_statistical_features` for the row between `front` and `back` of its
partition. -/
def featureColumns (lookback velocitySeconds : ℕ) (front : List (HistoryRow F))
    (row : HistoryRow F) (back : List (HistoryRow F)) : FeatureColumns F :=
  let prior := front.rtake lookback
  let priceMean := sql.avg (prior.filterMap HistoryRow.price)
  let priceStd := sql.stddev (prior.filterMap HistoryRow.price)
  let volMean := sql.avg (prior.filterMap HistoryRow.quantity)
  { priceMean := priceMean
    priceStd := priceStd
    priceZ := ratio sql (difference row.price priceMean) priceStd
    volRatio := ratio sql row.quantity volMean
    velocity := (front ++ row :: back).countP (inRange velocitySeconds row) }

/-- `flag_anomalies`. -/
def flagAnomalies (priceZThreshold volRatioThreshold : F) (velocityThreshold : ℤ)
    (columns : FeatureColumns F) : Verdict :=
  let extreme (threshold : F) := test (fun z => sql.ge (abs z) threshold) columns.priceZ
  let isPrice := extreme priceZThreshold
  let isVol := test (sql.ge · volRatioThreshold) columns.volRatio
  let isVelocity := test (velocityThreshold ≤ ·) (some (columns.velocity : ℤ))
  let anomalous := either (either isPrice isVol) isVelocity
  { anomalous := anomalous
    detector :=
      caseWhen [(isPrice, some "zscore"), (isVol, some "volume_spike"),
        (isVelocity, some "velocity")]
    severity :=
      caseWhen [(extreme (mul priceZThreshold (ofRat (8 / 5))), some "critical"),
        (anomalous, some "high")]
    reason :=
      caseWhen
        [(isPrice, columns.priceZ.map (fun z =>
            "price z-score " ++ sql.castString (sql.round z 2))),
          (isVol, columns.volRatio.map (fun v =>
            "volume " ++ sql.castString (sql.round v 1) ++ "x avg")),
          (isVelocity, some (toString columns.velocity ++ " trades in window"))] }

/-- What the backtest writes for a row, if it flags it. -/
def backtestRow (lookback : ℕ) (priceZ volRatio : F) (velocity : ℤ)
    (split : List (HistoryRow F) × HistoryRow F × List (HistoryRow F)) : Option (Anomaly F) :=
  let (front, row, back) := split
  let verdict := flagAnomalies sql priceZ volRatio velocity
    (featureColumns sql lookback 5 front row back)
  if holds verdict.anomalous then
    some
      { timestamp := row.timestamp
        symbol := row.symbol
        price := row.price
        quantity := row.quantity
        detector := verdict.detector
        severity := verdict.severity
        reason := verdict.reason }
  else none

/-- `batch_backtest.main` up to its report: the partitions as Spark goes through
them, and the anomalies. -/
def batchBacktest (lookback : ℕ) (priceZ volRatio : F) (velocity : ℤ)
    (partitions : List (List (HistoryRow F))) : List (Anomaly F) :=
  partitions.flatMap (fun part =>
    (splits part).filterMap (backtestRow sql lookback priceZ volRatio velocity))

/-- What the notebook writes for a row, if it keeps it. -/
def notebookRow (priceZ volRatio : F)
    (split : List (HistoryRow F) × HistoryRow F × List (HistoryRow F)) :
    Option (NotebookAnomaly F) :=
  let (front, row, back) := split
  let prior := front.rtake 100
  let priceMean := sql.avg (prior.filterMap HistoryRow.price)
  let priceStd := sql.stddev (prior.filterMap HistoryRow.price)
  let volMean := sql.avg (prior.filterMap HistoryRow.quantity)
  let velocity := (front ++ row :: back).countP (inRange 5 row)
  let z := ratio sql (difference row.price priceMean) priceStd
  let vol := ratio sql row.quantity volMean
  let detector :=
    caseWhen [(test (fun z => sql.ge (abs z) priceZ) z, some "zscore"),
      (test (sql.ge · volRatio) vol, some "volume_spike"),
      (test (25 ≤ ·) (some (velocity : ℤ)), some "velocity")]
  let severity :=
    caseWhen [(test (fun z => sql.ge (abs z) (mul priceZ (ofRat (8 / 5)))) z, some "critical"),
      (some detector.isSome, some "high")]
  if detector.isSome then
    some
      { timestamp := row.timestamp
        symbol := row.symbol
        detector := detector
        severity := severity
        price := row.price
        quantity := row.quantity
        priceZ := z
        volRatio := vol }
  else none

/-- The notebook over the same partitions. -/
def databricksBatch (priceZ volRatio : F) (partitions : List (List (HistoryRow F))) :
    List (NotebookAnomaly F) :=
  partitions.flatMap (fun part => (splits part).filterMap (notebookRow sql priceZ volRatio))

section Trades

/-- A trade as a row without nulls. -/
def ofTrade (trade : Trade F) : HistoryRow F :=
  ⟨some trade.timestamp, some trade.symbol, some trade.price, some trade.quantity⟩

variable {sql}

theorem filterMap_ofTrade {α : Type} (column : HistoryRow F → Option α) (field : Trade F → α)
    (h : ∀ trade, column (ofTrade trade) = some (field trade)) (trades : List (Trade F)) :
    (trades.map ofTrade).filterMap column = trades.map field := by
  rw [List.filterMap_map, ← List.filterMap_eq_map]
  exact List.filterMap_congr (fun trade _ => h trade)

theorem ratio_some (hgt : ∀ x, sql.gt x (ofRat 0) = lt (ofRat 0) x) (numerator : F)
    (divisor : Option F) :
    ratio sql (some numerator) divisor = some (whenPositive (fun _ => numerator) divisor) := by
  cases divisor with
  | none => rfl
  | some d =>
      simp only [ratio, whenPositive, test, Option.map_some, holds, hgt]
      split_ifs <;> rfl

/-- Over validated trades the columns are the features. -/
theorem featureColumns_ofTrade (hgt : ∀ x, sql.gt x (ofRat 0) = lt (ofRat 0) x)
    (hmean : ∀ xs, (sql.stddev xs).isSome → (sql.avg xs).isSome) (front : List (Trade F))
    (row : Trade F) (back : List (Trade F)) (lookback velocitySeconds : ℕ) :
    let columns := featureColumns sql lookback velocitySeconds (front.map ofTrade) (ofTrade row)
      (back.map ofTrade)
    let features := addStatisticalFeatures sql.toFunctions front row back lookback velocitySeconds
    columns.priceZ = some features.priceZ ∧ columns.volRatio = some features.volRatio ∧
      columns.velocity = features.velocity := by
  have hprices := filterMap_ofTrade HistoryRow.price Trade.price (fun _ => rfl)
    (prior lookback front)
  have hquantities := filterMap_ofTrade HistoryRow.quantity Trade.quantity (fun _ => rfl)
    (prior lookback front)
  have hprior : (front.map ofTrade).rtake lookback = (prior lookback front).map ofTrade :=
    Suffix.rtake_map ofTrade lookback front
  dsimp only [featureColumns, addStatisticalFeatures]
  rw [hprior, hprices, hquantities]
  refine ⟨?_, ratio_some hgt row.quantity _, ?_⟩
  · cases havg : sql.avg ((prior lookback front).map Trade.price) with
    | some mean => exact ratio_some hgt _ _
    | none =>
        have hnone : sql.stddev ((prior lookback front).map Trade.price) = none := by
          by_contra hne
          have hsome := hmean _ (Option.isSome_iff_ne_none.mpr hne)
          rw [havg] at hsome
          cases hsome
        rw [hnone]
        rfl
  · rw [← List.map_cons, ← List.map_append, List.countP_map, recent,
      ← List.countP_eq_length_filter]
    apply List.countP_congr
    intro other _
    simp [inRange, HistoryRow.tsSeconds, ofTrade, tsSeconds]

end Trades

section Labels

variable {sql}

/-- A verdict and its labels say the same: a row is anomalous exactly when it has a
detector and a reason, and then it has a severity. -/
structure Verdict.Consistent (verdict : Verdict) : Prop where
  detector : verdict.detector.isSome = holds verdict.anomalous
  reason : verdict.reason.isSome = holds verdict.anomalous
  severity : holds verdict.anomalous = true → verdict.severity.isSome
  known : ∀ name, verdict.detector = some name → name ∈ ["zscore", "volume_spike", "velocity"]

theorem flagAnomalies_consistent (priceZThreshold volRatioThreshold : F) (velocityThreshold : ℤ)
    (columns : FeatureColumns F) :
    (flagAnomalies sql priceZThreshold volRatioThreshold velocityThreshold columns).Consistent where
  detector := by
    unfold flagAnomalies
    dsimp only
    rw [isSome_caseWhen (by simp)]
    simp [Bool.or_assoc]
  reason := by
    have hpresent : ∀ {p : F → Bool} {column : Option F} {text : F → String},
        holds (test p column) = true → (column.map text).isSome := by
      intro p column text h
      obtain ⟨x, rfl, _⟩ := holds_test.mp h
      rfl
    unfold flagAnomalies
    dsimp only
    rw [isSome_caseWhen]
    · simp [Bool.or_assoc]
    · simp only [List.forall_mem_cons, List.not_mem_nil, false_implies, implies_true, and_true]
      exact ⟨hpresent, hpresent, fun _ => rfl⟩
  severity := by
    intro h
    unfold flagAnomalies at h ⊢
    dsimp only at h ⊢
    rw [isSome_caseWhen (by simp)]
    simp only [List.any_cons, List.any_nil, h, Bool.true_or, Bool.or_true]
  known := by
    intro name h
    obtain ⟨branch, hmem, _, hvalue⟩ := caseWhen_mem h
    simp only [List.mem_cons, List.not_mem_nil, or_false] at hmem
    rcases hmem with rfl | rfl | rfl <;> (cases hvalue; simp)

end Labels

section Agreement

/-- What both jobs write for a row they flag. -/
structure CommonAnomaly (F : Type) where
  timestamp : Option ℚ
  symbol : Option String
  price : Option F
  quantity : Option F
  detector : Option String
  severity : Option String

def Anomaly.common (a : Anomaly F) : CommonAnomaly F :=
  ⟨a.timestamp, a.symbol, a.price, a.quantity, a.detector, a.severity⟩

def NotebookAnomaly.common (a : NotebookAnomaly F) : CommonAnomaly F :=
  ⟨a.timestamp, a.symbol, a.price, a.quantity, a.detector, a.severity⟩

/-- With a severity of one kind for everything that is flagged, it does not matter
how it is said that something is. -/
theorem caseWhen_last {critical flagged flagged' : Truth} (h : holds flagged = holds flagged') :
    caseWhen [(critical, some "critical"), (flagged, some "high")] =
      caseWhen [(critical, some "critical"), (flagged', some "high")] := by
  simp only [caseWhen, h]

/-- One row, in whatever frames. -/
theorem notebookRow_common (priceZ volRatio : F)
    (split : List (HistoryRow F) × HistoryRow F × List (HistoryRow F)) :
    (notebookRow sql priceZ volRatio split).map NotebookAnomaly.common =
      (backtestRow sql 100 priceZ volRatio 25 split).map Anomaly.common := by
  obtain ⟨front, row, back⟩ := split
  have hdetector := (@flagAnomalies_consistent F _ sql priceZ volRatio 25
    (featureColumns sql 100 5 front row back)).detector
  unfold notebookRow backtestRow
  dsimp only
  cases hflagged : holds (flagAnomalies sql priceZ volRatio 25
      (featureColumns sql 100 5 front row back)).anomalous with
  | false =>
      rw [hflagged] at hdetector
      rw [if_neg Bool.false_ne_true, if_neg]
      · rfl
      · intro hsome
        exact Bool.false_ne_true (hdetector.symm.trans hsome)
  | true =>
      rw [hflagged] at hdetector
      rw [if_pos rfl, if_pos, Option.map_some, Option.map_some]
      · have hsaid : holds (some (flagAnomalies sql priceZ volRatio 25
              (featureColumns sql 100 5 front row back)).detector.isSome) =
            holds (flagAnomalies sql priceZ volRatio 25
              (featureColumns sql 100 5 front row back)).anomalous :=
          hdetector.trans hflagged.symm
        exact congrArg (fun severity => some (CommonAnomaly.mk row.timestamp row.symbol row.price
          row.quantity _ severity)) (caseWhen_last hsaid)
      · exact hdetector

/-- The two jobs agree. Whatever the history holds, nulls included, and in whatever
order Spark goes through it, the notebook writes the rows that the backtest writes
at its defaults, with the same detector and severity; and every row that is written
has a detector that is known, a severity and a reason. -/
theorem databricks_agrees (priceZ volRatio : F) (partitions : List (List (HistoryRow F))) :
    (databricksBatch sql priceZ volRatio partitions).map NotebookAnomaly.common =
        (batchBacktest sql 100 priceZ volRatio 25 partitions).map Anomaly.common ∧
      ∀ anomaly ∈ batchBacktest sql 100 priceZ volRatio 25 partitions,
        (∃ name ∈ ["zscore", "volume_spike", "velocity"], anomaly.detector = some name) ∧
          anomaly.severity.isSome ∧ anomaly.reason.isSome := by
  constructor
  · unfold databricksBatch batchBacktest
    rw [List.map_flatMap, List.map_flatMap]
    apply List.flatMap_congr
    intro part _
    rw [List.map_filterMap, List.map_filterMap]
    apply List.filterMap_congr
    intro split _
    exact notebookRow_common sql priceZ volRatio split
  · intro anomaly hanomaly
    obtain ⟨part, _, hmem⟩ := List.mem_flatMap.mp hanomaly
    obtain ⟨⟨front, row, back⟩, _, hrow⟩ := List.mem_filterMap.mp hmem
    obtain ⟨hflagged, hvalue⟩ := Option.ite_none_right_eq_some.mp hrow
    have hconsistent := @flagAnomalies_consistent F _ sql priceZ volRatio 25
      (featureColumns sql 100 5 front row back)
    obtain rfl := Option.some.inj hvalue
    have hdetector := hconsistent.detector.trans hflagged
    obtain ⟨name, hname⟩ := Option.isSome_iff_exists.mp hdetector
    exact ⟨⟨name, hconsistent.known name hname, hname⟩, hconsistent.severity hflagged,
      hconsistent.reason.trans hflagged⟩

end Agreement

end TradeWatch.Spark
