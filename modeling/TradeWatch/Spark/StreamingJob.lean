import TradeWatch.Lib.Statistics
import TradeWatch.Spark.DetectionSql

/-!
The structured streaming job. The trades of a window and symbol are reduced to a
few aggregates, and the bucket is flagged by these: the score that is tested is
the one of the highest price. A column of the message may be null, which the
aggregates skip and the count does not.
-/

namespace TradeWatch.Spark

open PyFloat SampleStatistics

variable {F : Type} [PyFloat F]

/-- A message read with the trade schema, as far as the job reads it. -/
structure StreamTrade (F : Type) where
  timestamp : ℚ
  symbol : String
  price : Option F
  quantity : Option F

/-- The window and the symbol of a bucket. -/
structure BucketKey where
  windowStart : ℚ
  windowEnd : ℚ
  symbol : String

/-- A row of `baselines`. -/
structure Baseline (F : Type) where
  key : BucketKey
  priceMean : Option F
  priceStd : Option F
  volMean : Option F
  priceMax : Option F
  tradeCount : ℕ

/-- A row of `flagged`. -/
structure FlaggedBucket (F : Type) where
  key : BucketKey
  detector : String
  priceZMax : F
  tradeCount : ℕ
  priceMean : Option F

def bucketPrices (rows : List (StreamTrade F)) : List F := rows.filterMap StreamTrade.price

/-- `F.max`. -/
def maxOf : List F → Option F
  | [] => none
  | x :: rest => some (rest.foldl pyMax x)

/-- The aggregates of a bucket. -/
def baseline (sql : Functions F) (key : BucketKey) (rows : List (StreamTrade F)) : Baseline F where
  key := key
  priceMean := sql.avg (bucketPrices rows)
  priceStd := sql.stddev (bucketPrices rows)
  volMean := sql.avg (rows.filterMap StreamTrade.quantity)
  priceMax := maxOf (bucketPrices rows)
  tradeCount := rows.length

/-- The column `price_z_max`. -/
def Baseline.priceZMax (row : Baseline F) : F :=
  whenPositive (fun _ => sub (row.priceMax.getD (ofRat 0)) (row.priceMean.getD (ofRat 0)))
    row.priceStd

/-- The filter and the columns after it. -/
def flagBucket (priceZ : F) (maxTrades : ℤ) (row : Baseline F) : Option (FlaggedBucket F) :=
  let extreme := le priceZ (PyFloat.abs row.priceZMax)
  if extreme || maxTrades ≤ row.tradeCount then
    some
      { key := row.key
        detector := if extreme then "zscore" else "velocity"
        priceZMax := round row.priceZMax 2
        tradeCount := row.tradeCount
        priceMean := row.priceMean.map (round · 4) }
  else none

section Real

/-- `F.avg` and `F.stddev` in exact arithmetic; one value has no deviation. -/
noncomputable def realFunctions : Functions ℝ where
  avg xs := if xs = [] then none else some (average xs)
  stddev xs := if xs.length < 2 then none else some (sampleStd xs)

/-- A print that lies `priceZ` sample deviations from the mean, or more. -/
def ExtremePrint (priceZ : ℝ) (prices : List ℝ) : Prop :=
  ∃ price ∈ prices, 0 < sampleStd prices ∧
    priceZ ≤ |price - average prices| / sampleStd prices

/-- The bucket is kept as one of the detector `zscore`. -/
def LabelledZscore (priceZ : ℝ) (maxTrades : ℤ) (key : BucketKey)
    (rows : List (StreamTrade ℝ)) : Prop :=
  ∃ flagged, flagBucket priceZ maxTrades (baseline realFunctions key rows) = some flagged ∧
    flagged.detector = "zscore"

/-- What a bucket is flagged for: a print far from the mean on either side, and
nothing else. -/
def FlagsBothDirections (priceZ : ℝ) (maxTrades : ℤ) (key : BucketKey)
    (rows : List (StreamTrade ℝ)) : Prop :=
  (ExtremePrint priceZ (bucketPrices rows) → LabelledZscore priceZ maxTrades key rows) ∧
    (LabelledZscore priceZ maxTrades key rows → ExtremePrint priceZ (bucketPrices rows))

/-- A price that far below the mean only comes with one that far above it. -/
def LowOnlyWithHigh (priceZ : ℝ) (prices : List ℝ) : Prop :=
  0 < sampleStd prices →
    (∃ price ∈ prices, priceZ * sampleStd prices ≤ average prices - price) →
    ∃ price ∈ prices, priceZ * sampleStd prices ≤ price - average prices

theorem foldl_pyMax_real (x : ℝ) (rest : List ℝ) :
    rest.foldl pyMax x ∈ x :: rest ∧ ∀ y ∈ x :: rest, y ≤ rest.foldl pyMax x := by
  induction rest generalizing x with
  | nil => simp
  | cons next rest ih =>
      obtain ⟨hmem, hle⟩ := ih (pyMax x next)
      obtain ⟨hmax, hrest⟩ := List.forall_mem_cons.mp hle
      rw [pyMax_real] at hmem hmax hrest
      rw [List.foldl_cons, pyMax_real]
      constructor
      · rcases List.mem_cons.mp hmem with heq | hin
        · rcases max_choice x next with hx | hnext
          · rw [heq, hx]
            exact List.mem_cons_self
          · rw [heq, hnext]
            exact List.mem_cons_of_mem _ List.mem_cons_self
        · exact List.mem_cons_of_mem _ (List.mem_cons_of_mem _ hin)
      · refine List.forall_mem_cons.mpr ⟨(le_max_left x next).trans hmax,
          List.forall_mem_cons.mpr ⟨(le_max_right x next).trans hmax, hrest⟩⟩

theorem maxOf_real {prices : List ℝ} (hne : prices ≠ []) :
    ∃ highest ∈ prices, maxOf prices = some highest ∧ ∀ price ∈ prices, price ≤ highest := by
  obtain ⟨first, rest, rfl⟩ := List.exists_cons_of_ne_nil hne
  obtain ⟨hmem, hle⟩ := foldl_pyMax_real first rest
  exact ⟨_, hmem, rfl, hle⟩

section Bucket

variable (key : BucketKey) (rows : List (StreamTrade ℝ))

theorem priceZMax_of_pos {highest : ℝ} (hmax : maxOf (bucketPrices rows) = some highest)
    (hpos : 0 < sampleStd (bucketPrices rows)) :
    (baseline realFunctions key rows).priceZMax =
      (highest - average (bucketPrices rows)) / sampleStd (bucketPrices rows) := by
  have hlength := two_le_length_of_sampleStd_pos hpos
  have hne := ne_nil_of_sampleStd_pos hpos
  simp only [Baseline.priceZMax, baseline, realFunctions, if_neg hne, if_neg (not_lt.mpr hlength),
    hmax, whenPositive, Option.getD_some, sub_real, div_real, ofRat_real, Rat.cast_zero, lt_real,
    hpos, if_true]

theorem whenPositive_eq_zero (numerator : ℝ → ℝ) {divisor : Option ℝ}
    (h : ∀ d, divisor = some d → ¬ 0 < d) : whenPositive numerator divisor = 0 := by
  cases divisor with
  | none => simp [whenPositive]
  | some d => simp [whenPositive, h d rfl]

theorem priceZMax_of_not_pos (hpos : ¬ 0 < sampleStd (bucketPrices rows)) :
    (baseline realFunctions key rows).priceZMax = 0 := by
  apply whenPositive_eq_zero
  intro d hd
  simp only [baseline, realFunctions, Option.ite_none_left_eq_some, Option.some.injEq] at hd
  rwa [← hd.2]

theorem labelledZscore_iff (priceZ : ℝ) (maxTrades : ℤ) :
    LabelledZscore priceZ maxTrades key rows ↔
      priceZ ≤ |(baseline realFunctions key rows).priceZMax| := by
  unfold LabelledZscore flagBucket
  by_cases h : priceZ ≤ |(baseline realFunctions key rows).priceZMax|
  · simp [h]
  · have hquiet : le priceZ (PyFloat.abs (baseline realFunctions key rows).priceZMax) = false := by
      rw [← Bool.not_eq_true, le_real, abs_real]
      exact h
    simp only [hquiet, Bool.false_or, Bool.false_eq_true, if_false, iff_false, h]
    rintro ⟨flagged, hflagged, hdetector⟩
    split at hflagged
    · rw [← Option.some.inj hflagged] at hdetector
      simp at hdetector
    · cases hflagged

/-- The label is the one of a print above the mean: no aggregate tells of the
lowest price. -/
theorem labelledZscore_iff_high {priceZ : ℝ} (hz : 0 < priceZ) (maxTrades : ℤ) :
    LabelledZscore priceZ maxTrades key rows ↔
      0 < sampleStd (bucketPrices rows) ∧ ∃ price ∈ bucketPrices rows,
        priceZ * sampleStd (bucketPrices rows) ≤ price - average (bucketPrices rows) := by
  rw [labelledZscore_iff]
  by_cases hpos : 0 < sampleStd (bucketPrices rows)
  · have hne := ne_nil_of_sampleStd_pos hpos
    obtain ⟨highest, hmem, hmax, hle⟩ := maxOf_real hne
    have habove : 0 ≤ highest - average (bucketPrices rows) :=
      sub_nonneg.mpr (average_le hne hle)
    rw [priceZMax_of_pos key rows hmax hpos, abs_of_nonneg (div_nonneg habove hpos.le),
      le_div_iff₀ hpos]
    constructor
    · intro h
      exact ⟨hpos, highest, hmem, h⟩
    · rintro ⟨_, price, hprice, h⟩
      exact h.trans (sub_le_sub_right (hle price hprice) _)
  · rw [priceZMax_of_not_pos key rows hpos, abs_zero]
    constructor
    · intro h
      exact absurd h (not_le.mpr hz)
    · intro h
      exact absurd h.1 hpos

/-- For every bucket and threshold: the job flags extreme prints in both directions
if and only if the bucket has none below the mean without one above it. -/
theorem flagsBothDirections_iff {priceZ : ℝ} (hz : 0 < priceZ) (maxTrades : ℤ) :
    FlagsBothDirections priceZ maxTrades key rows ↔
      LowOnlyWithHigh priceZ (bucketPrices rows) := by
  unfold FlagsBothDirections LowOnlyWithHigh
  rw [labelledZscore_iff_high key rows hz]
  constructor
  · rintro ⟨hkept, _⟩ hpos ⟨price, hprice, hlow⟩
    refine (hkept ⟨price, hprice, hpos, ?_⟩).2
    rw [le_div_iff₀ hpos]
    exact hlow.trans ((le_abs_self _).trans (abs_sub_comm _ _).le)
  · intro hcond
    constructor
    · rintro ⟨price, hprice, hpos, hextreme⟩
      rw [le_div_iff₀ hpos] at hextreme
      refine ⟨hpos, ?_⟩
      rcases le_abs'.mp hextreme with hlow | hhigh
      · exact hcond hpos ⟨price, hprice, by linarith⟩
      · exact ⟨price, hprice, hhigh⟩
    · rintro ⟨hpos, price, hprice, hhigh⟩
      refine ⟨price, hprice, hpos, ?_⟩
      rw [le_div_iff₀ hpos]
      exact hhigh.trans (le_abs_self _)

end Bucket

/-- Ten prints at 100 and a downward fat finger. -/
noncomputable def crashBucket : List (StreamTrade ℝ) :=
  (List.replicate 10 (ofRat 100) ++ [ofRat 1]).map (fun price =>
    { timestamp := 0, symbol := "ACME", price := some price, quantity := some (ofRat 1) })

theorem flagsBothDirections_iff_crash :
    FlagsBothDirections 3 200 ⟨0, 30, "ACME"⟩ crashBucket ↔
      LowOnlyWithHigh 3 (bucketPrices crashBucket) :=
  flagsBothDirections_iff ⟨0, 30, "ACME"⟩ crashBucket (by norm_num) 200

theorem bucketPrices_crashBucket :
    bucketPrices crashBucket = List.replicate 10 100 ++ [1] := by
  simp [bucketPrices, crashBucket]

theorem average_crashBucket : average (bucketPrices crashBucket) = 91 := by
  rw [bucketPrices_crashBucket, average]
  norm_num

theorem sampleStd_crashBucket : sampleStd (bucketPrices crashBucket) = √891 := by
  have hsquares : squares (bucketPrices crashBucket) = 8910 := by
    rw [squares, average_crashBucket, bucketPrices_crashBucket]
    norm_num
  rw [sampleStd, hsquares, bucketPrices_crashBucket]
  norm_num

/-- The print at 1 lies three deviations below the mean and the bucket is not
flagged. -/
theorem not_flagsBothDirections_crashBucket :
    ¬ ∀ (priceZ : ℝ) (maxTrades : ℤ) (key : BucketKey) (rows : List (StreamTrade ℝ)),
      0 < priceZ → rows ≠ [] → FlagsBothDirections priceZ maxTrades key rows := by
  intro h
  have hroot : (3 : ℝ) < √891 := Real.lt_sqrt_of_sq_lt (by norm_num)
  have hbound : √891 ≤ (30 : ℝ) := Real.sqrt_le_iff.mpr ⟨by norm_num, by norm_num⟩
  have hpos : (0 : ℝ) < √891 := by linarith
  have hextreme : ExtremePrint 3 (bucketPrices crashBucket) := by
    refine ⟨1, ?_, ?_⟩
    · simp [bucketPrices_crashBucket]
    · rw [sampleStd_crashBucket, average_crashBucket, le_div_iff₀ hpos]
      refine ⟨hpos, ?_⟩
      norm_num
      linarith
  have hlabel := (h 3 200 ⟨0, 30, "ACME"⟩ crashBucket (by norm_num) (by simp [crashBucket])).1
    hextreme
  rw [labelledZscore_iff_high _ _ (by norm_num), sampleStd_crashBucket, average_crashBucket,
    bucketPrices_crashBucket] at hlabel
  obtain ⟨_, price, hprice, hhigh⟩ := hlabel
  rcases List.mem_append.mp hprice with hmany | hone
  · rw [List.eq_of_mem_replicate hmany] at hhigh
    linarith
  · rw [List.mem_singleton.mp hone] at hhigh
    linarith

end Real

end TradeWatch.Spark
