import TradeWatch.Hadoop.Groups
import TradeWatch.Tape
import TradeWatch.Watch

/-!
The z-score rule offline and online. The reducer judges a price by the
statistics of its whole group, itself among it; the live detector judges it by
the trades before it, once there are enough of them. Both come down to the
prices of the tape alone, and the two layers label the same trades by every positive
threshold on exactly the tapes whose prices do not vary.
-/

namespace TradeWatch

open PyFloat SampleStatistics Transducer

/-- A score over the exact numbers is always computed. -/
theorem ZScoreDetector.zToScore_real (absZ threshold : ℝ) :
    ∃ score, zToScore absZ threshold = .ok score := by
  unfold zToScore
  rcases le_or_gt threshold 0 with hnone | hpos
  · rw [if_pos (by simpa using hnone)]
    exact ⟨_, rfl⟩
  · rw [if_neg (by simpa using hpos), trueDiv_real hpos.ne']
    exact ⟨_, rfl⟩

/-- When the live detector has a result: enough trades in the window, and an
outlier of the prices before the last. -/
theorem ZScoreDetector.inspect_isSome_real (cfg : ZScoreConfig ℝ) (minTrades : ℤ)
    (trade : Trade ℝ) (window : SymbolWindow ℝ) :
    (DetectionEngine.alertOf (inspect cfg minTrades trade window)).isSome ↔
      minTrades < window.trades.length ∧
        OutlierOf cfg.priceThreshold window.prices trade.price := by
  obtain ⟨z, hz⟩ : ∃ z, z = if sampleStd window.prices ≤ 1 / 10 ^ 12 then 0
      else (trade.price - average window.prices) / sampleStd window.prices := ⟨_, rfl⟩
  have hscored : zscore trade.price (average window.prices) (sampleStd window.prices) = .ok z := by
    rw [zscore_real, hz]
  have hreaches : cfg.priceThreshold ≤ |z| ↔
      OutlierOf cfg.priceThreshold window.prices trade.price := by
    rw [OutlierOf, ← le_abs_score_iff]
    simp only [hz, ← not_le, ite_not]
  obtain ⟨score, hscore⟩ := zToScore_real |z| cfg.priceThreshold
  rw [← hreaches]
  unfold inspect SymbolWindow.ready SymbolWindow.priceMeanStd
  rcases lt_or_ge minTrades window.trades.length with hready | hfew
  · rcases lt_or_ge |z| cfg.priceThreshold with hlow | hhigh
    · simp [hready, hlow, meanStd_real, hscored, bind, Except.bind, DetectionEngine.alertOf]
    · simpa [hready, not_lt.mpr hhigh, meanStd_real, hscored, hscore, bind, Except.bind,
        pure, Except.pure, DetectionEngine.alertOf] using hhigh
  · simp [not_lt.mpr hfew, DetectionEngine.alertOf]

/-- The reducer's record of a trade. -/
def Trade.row (trade : Trade ℝ) : ℝ × ℝ := (trade.price, trade.quantity)

/-- The tape being the group of its symbol, the reducer labels the trade
`zscore`. -/
def OfflineFlags (env : Reducer.Thresholds ℝ) (tape : List (Trade ℝ)) (trade : Trade ℝ) : Prop :=
  ¬ ((tape.map Trade.row).length : ℤ) < env.minTrades ∧
    ∃ stats z, Reducer.statistics (tape.map Trade.row) = .ok stats ∧
      Reducer.verdict env stats trade.row = some (.zscore, z)

/-- The live detector returns an alert when the trade is replayed after those
before it, whatever the cooldown makes of it. -/
def OnlineFlags {M : Type} (sklearn : SkLearn ℝ M) (cfg : DetectionConfig ℝ)
    (before : List (Trade ℝ)) (trade : Trade ℝ) : Prop :=
  ∃ alert, (ZScoreDetector.name, .ok (some alert)) ∈
    ((final DetectionEngine.watch (DetectionEngine.init sklearn cfg) before).watch trade).1.answers

/-- The two layers label the same trades of a tape. -/
def FlagsAgree {M : Type} (sklearn : SkLearn ℝ M) (cfg : DetectionConfig ℝ)
    (env : Reducer.Thresholds ℝ) (tape : List (Trade ℝ)) : Prop :=
  ∀ before trade after, tape = before ++ trade :: after →
    (OfflineFlags env tape trade ↔ OnlineFlags sklearn cfg before trade)

/-- One symbol's tape, in order and long enough, under equal thresholds and with
a live window that holds all of it. -/
structure Comparable (cfg : DetectionConfig ℝ) (env : Reducer.Thresholds ℝ) (symbol : String)
    (tape : List (Trade ℝ)) : Prop where
  single : ∀ t ∈ tape, t.symbol = symbol
  inOrder : InOrder tape
  enough : env.minTrades ≤ tape.length
  enabled : cfg.zscore.enabled = true
  threshold : cfg.zscore.priceThreshold = env.priceZ
  minTrades : cfg.window.minTrades = env.minTrades
  count : (tape.length : ℤ) ≤ cfg.window.maxTrades
  span : ∀ a ∈ tape, ∀ b ∈ tape, b.timestamp - a.timestamp ≤ cfg.window.horizonSeconds

/-- The live rules with another threshold. -/
def DetectionConfig.withPriceThreshold (cfg : DetectionConfig ℝ) (threshold : ℝ) :
    DetectionConfig ℝ :=
  { cfg with zscore := { cfg.zscore with priceThreshold := threshold } }

/-- The offline rules with another threshold. -/
def Reducer.Thresholds.withPriceZ (env : Reducer.Thresholds ℝ) (threshold : ℝ) :
    Reducer.Thresholds ℝ :=
  { env with priceZ := threshold }

theorem Comparable.withThreshold {cfg : DetectionConfig ℝ} {env : Reducer.Thresholds ℝ}
    {symbol : String} {tape : List (Trade ℝ)} (h : Comparable cfg env symbol tape)
    (threshold : ℝ) :
    Comparable (cfg.withPriceThreshold threshold) (env.withPriceZ threshold) symbol tape :=
  { h with threshold := rfl }

/-- The prices of a tape do not vary, as far as a deviation of `10⁻¹²` counts for nothing:
they have no greater one, and after the first `minTrades` each price is the mean of
those before it, or these have none. -/
structure Steady (minTrades : ℤ) (prices : List ℝ) : Prop where
  whole : sampleStd prices ≤ 1 / 10 ^ 12
  later : ∀ before price after, prices = before ++ price :: after → minTrades ≤ before.length →
    sampleStd before ≤ 1 / 10 ^ 12 ∨ price = average before

/-- A condition on a list of prices: none of the first `minTrades` is an outlier
of the whole list, and a later one is an outlier of the whole list exactly when
it is one of the prices before it. -/
structure SameOutliers (threshold : ℝ) (minTrades : ℤ) (prices : List ℝ) : Prop where
  first : ∀ before price after, prices = before ++ price :: after →
    (before.length : ℤ) < minTrades → ¬ OutlierOf threshold prices price
  later : ∀ before price after, prices = before ++ price :: after →
    minTrades ≤ before.length →
      (OutlierOf threshold prices price ↔ OutlierOf threshold before price)

section Ticks

/-- A trade at a price of its own, for concrete inputs. -/
noncomputable def tick (second : ℕ) (price : {x : ℝ // 0 < x}) : Trade ℝ :=
  { realTradeAt second with
    price := price
    price_pos := by simpa using price.2 }

/-- One trade a second at these prices. -/
noncomputable def ticks (prices : List {x : ℝ // 0 < x}) : List (Trade ℝ) :=
  prices.mapIdx tick

theorem ticks_prices (prices : List {x : ℝ // 0 < x}) :
    (ticks prices).map (·.price) = prices.map Subtype.val := by
  refine List.ext_getElem (by simp [ticks]) fun i hi hi' => ?_
  simp [ticks, tick]

theorem comparable_ticks {prices : List {x : ℝ // 0 < x}} (henough : 20 ≤ prices.length)
    (hfew : prices.length ≤ 200) : Comparable {} {} "ACME" (ticks prices) where
  single t ht := by
    obtain ⟨i, hi, rfl⟩ := List.mem_mapIdx.mp ht
    rfl
  inOrder := by
    refine List.pairwise_iff_getElem.mpr fun i j hi hj hij => ?_
    simp only [ticks, List.getElem_mapIdx, tick, realTradeAt]
    exact_mod_cast hij.le
  enough := by
    rw [ticks, List.length_mapIdx]
    change (20 : ℤ) ≤ prices.length
    exact_mod_cast henough
  enabled := rfl
  threshold := rfl
  minTrades := rfl
  count := by
    rw [ticks, List.length_mapIdx]
    change (prices.length : ℤ) ≤ 200
    exact_mod_cast hfew
  span a ha b hb := by
    obtain ⟨i, hi, rfl⟩ := List.mem_mapIdx.mp ha
    obtain ⟨j, hj, rfl⟩ := List.mem_mapIdx.mp hb
    have hlast : (j : ℚ) ≤ 300 := by exact_mod_cast (by omega : j ≤ 300)
    have hfirst : (0 : ℚ) ≤ i := Nat.cast_nonneg i
    simp only [tick, realTradeAt]
    linarith

end Ticks

section Layers

variable {M : Type} (sklearn : SkLearn ℝ M) {cfg : DetectionConfig ℝ}
  {env : Reducer.Thresholds ℝ} {symbol : String} {tape : List (Trade ℝ)}

theorem offlineFlags_iff (h : Comparable cfg env symbol tape) {trade : Trade ℝ}
    (hmem : trade ∈ tape) :
    OfflineFlags env tape trade ↔ OutlierOf env.priceZ (tape.map (·.price)) trade.price := by
  have hne : tape.map Trade.row ≠ [] := by
    intro hnil
    rw [List.map_eq_nil_iff.mp hnil] at hmem
    cases hmem
  have hprices : (tape.map Trade.row).map Prod.fst = tape.map (·.price) := by
    rw [List.map_map]
    rfl
  have henough : ¬ ((tape.map Trade.row).length : ℤ) < env.minTrades := by
    rw [List.length_map, not_lt]
    exact h.enough
  have houtlier : OutlierOf env.priceZ (tape.map (·.price)) trade.price ↔
      Reducer.PriceOutlier env (Reducer.statisticsOf (tape.map Trade.row)) trade.row.1 := by
    rw [Reducer.PriceOutlier, Reducer.statisticsOf, hprices]
    rfl
  rw [OfflineFlags, Reducer.statistics_real hne, houtlier]
  constructor
  · rintro ⟨_, stats, z, hstats, hverdict⟩
    obtain rfl := Except.ok.inj hstats
    rw [Reducer.verdict_real, Reducer.labelOf] at hverdict
    by_contra hnot
    rw [if_neg hnot] at hverdict
    split_ifs at hverdict
    · cases hverdict
    · cases hverdict
  · intro hoff
    refine ⟨henough, _, Reducer.scoreOf (Reducer.statisticsOf (tape.map Trade.row)) trade.row
      .zscore, rfl, ?_⟩
    rw [Reducer.verdict_real, Reducer.labelOf, if_pos hoff]
    rfl

theorem Comparable.maxTrades_nonneg (h : Comparable cfg env symbol tape) :
    0 ≤ cfg.window.maxTrades := le_trans (Int.natCast_nonneg _) h.count

theorem Comparable.horizon_nonneg (h : Comparable cfg env symbol tape) {trade : Trade ℝ}
    (hmem : trade ∈ tape) : 0 ≤ cfg.window.horizonSeconds := by
  have hself := h.span trade hmem trade hmem
  rwa [sub_self] at hself

theorem mem_of_mem_upTo {before after : List (Trade ℝ)} {trade : Trade ℝ}
    (hsplit : tape = before ++ trade :: after) : ∀ t ∈ before ++ [trade], t ∈ tape := by
  intro t ht
  rw [hsplit]
  rcases List.mem_append.mp ht with hb | hl
  · exact List.mem_append_left _ hb
  · rw [List.mem_singleton.mp hl]
    simp

/-- The live window holds the tape so far. -/
theorem Comparable.window (h : Comparable cfg env symbol tape) {before after : List (Trade ℝ)}
    {trade : Trade ℝ} (hsplit : tape = before ++ trade :: after) :
    ((final DetectionEngine.watch (DetectionEngine.init sklearn cfg) before).windowAfter
      trade).trades = before ++ [trade] := by
  have hmember := mem_of_mem_upTo hsplit
  have htrade : trade ∈ tape := hmember trade (by simp)
  have hsame : before.filter (fun t => t.symbol = trade.symbol) = before := by
    apply List.filter_eq_self.mpr
    intro t ht
    rw [h.single t (hmember t (List.mem_append_left _ ht)), h.single trade htrade]
    simp
  have horder : InOrder (before ++ [trade]) := by
    refine h.inOrder.sublist ?_
    rw [hsplit]
    exact List.Sublist.append (List.Sublist.refl before) (by simp)
  have hyoung : (before ++ [trade]).filter
      (notOlder (trade.timestamp - cfg.window.horizonSeconds)) = before ++ [trade] := by
    apply List.filter_eq_self.mpr
    intro t ht
    have hspan := h.span t (hmember t ht) trade htrade
    simp only [notOlder, decide_eq_true_eq]
    linarith
  have hfits : (before ++ [trade]).length ≤ cfg.window.maxTrades.toNat := by
    have hcount := h.count
    rw [hsplit] at hcount
    simp only [List.length_append, List.length_cons, List.length_nil] at hcount ⊢
    omega
  rw [DetectionEngine.windowAfter_eq_replay, hsame,
    SymbolWindow.replay_trades h.maxTrades_nonneg (h.horizon_nonneg htrade) rfl before trade
      horder]
  dsimp only
  rw [hyoung, Suffix.rtake_of_length_le hfits]

theorem onlineFlags_iff (h : Comparable cfg env symbol tape) {before after : List (Trade ℝ)}
    {trade : Trade ℝ} (hsplit : tape = before ++ trade :: after) :
    OnlineFlags sklearn cfg before trade ↔
      env.minTrades ≤ before.length ∧
        OutlierOf env.priceZ (before.map (·.price)) trade.price := by
  have hbuilt : ShippedDetector.zscore cfg.zscore cfg.window.minTrades ∈
      (DetectionEngine.init sklearn cfg).detectors := by
    simp [DetectionEngine.init, DetectionEngine.start, DetectionEngine.buildDetectors, h.enabled]
  have hfires := DetectionEngine.fires_iff_of_stateless sklearn cfg (fun _ _ => rfl) hbuilt
    h.maxTrades_nonneg before trade
  refine hfires.trans ((ZScoreDetector.inspect_isSome_real _ _ _ _).trans ?_)
  rw [SymbolWindow.prices, h.window sklearn hsplit, h.threshold, h.minTrades]
  simp only [if_true, List.map_append, List.map_cons, List.map_nil, List.dropLast_concat,
    List.length_append, List.length_cons, List.length_nil]
  refine and_congr_left fun _ => ?_
  omega

/-- The two layers label the same trades of a tape exactly when its prices have
the same outliers by either measure. -/
theorem flagsAgree_iff (h : Comparable cfg env symbol tape) :
    FlagsAgree sklearn cfg env tape ↔
      SameOutliers env.priceZ env.minTrades (tape.map (·.price)) := by
  constructor
  · intro hsame
    have hposition : ∀ before price after, tape.map (·.price) = before ++ price :: after →
        (OutlierOf env.priceZ (tape.map (·.price)) price ↔
          env.minTrades ≤ before.length ∧ OutlierOf env.priceZ before price) := by
      intro before price after hprices
      obtain ⟨first, later, htape, rfl, hlater⟩ := List.map_eq_append_iff.mp hprices
      obtain ⟨trade, rest, rfl, rfl, rfl⟩ := List.map_eq_cons_iff.mp hlater
      have hflags := hsame first trade rest htape
      have hmem : trade ∈ tape := by
        rw [htape]
        simp
      rwa [offlineFlags_iff h hmem, onlineFlags_iff sklearn h htape,
        ← List.length_map (f := fun t : Trade ℝ => t.price)] at hflags
    constructor
    · intro before price after hprices hfew hoff
      have honline := ((hposition before price after hprices).mp hoff).1
      omega
    · intro before price after hprices hready
      exact (hposition before price after hprices).trans (and_iff_right hready)
  · intro hsame before trade after hsplit
    have hmem : trade ∈ tape := by
      rw [hsplit]
      simp
    have hprices : tape.map (·.price) =
        before.map (·.price) ++ trade.price :: after.map (·.price) := by
      rw [hsplit, List.map_append, List.map_cons]
    rw [offlineFlags_iff h hmem, onlineFlags_iff sklearn h hsplit]
    rcases lt_or_ge (before.length : ℤ) env.minTrades with hfew | hready
    · have hnone := hsame.first _ _ _ hprices (by rwa [List.length_map])
      exact iff_of_false hnone (fun honline => absurd honline.1 (not_le.mpr hfew))
    · rw [and_iff_right hready]
      exact hsame.later _ _ _ hprices (by rwa [List.length_map])

/-- Prices have the same outliers by either measure, whatever the threshold, only where
they do not vary: of those that do, the first off the mean is an outlier of the whole
list by some threshold, and there is nothing but the mean before it. -/
theorem sameOutliers_iff_steady (minTrades : ℤ) (prices : List ℝ) :
    (∀ threshold, 0 < threshold → SameOutliers threshold minTrades prices) ↔
      Steady minTrades prices := by
  constructor
  · intro hsame
    have hwhole : sampleStd prices ≤ 1 / 10 ^ 12 := by
      by_contra hvary
      rw [not_le] at hvary
      obtain ⟨n, price, after, hsplit, hne⟩ :=
        exists_first_ne_average (lt_trans (by norm_num) hvary)
      obtain ⟨threshold, hpos, houtlier⟩ := exists_outlierOf hvary hne
      rcases lt_or_ge ((List.replicate n (average prices)).length : ℤ) minTrades with hfew | hready
      · exact (hsame threshold hpos).first _ price after hsplit hfew houtlier
      · have hprior := ((hsame threshold hpos).later _ price after hsplit hready).mp houtlier
        exact not_outlierOf_replicate hpos n _ price hprior
    refine ⟨hwhole, ?_⟩
    intro before price after hsplit hready
    by_contra hvary
    rw [not_or, not_le] at hvary
    obtain ⟨threshold, hpos, houtlier⟩ := exists_outlierOf hvary.1 hvary.2
    have hoff := ((hsame threshold hpos).later before price after hsplit hready).mpr houtlier
    exact not_outlierOf hpos (Or.inl hwhole) hoff
  · intro hsteady threshold hpos
    constructor
    · intro before price after _ _
      exact not_outlierOf hpos (Or.inl hsteady.whole)
    · intro before price after hsplit hready
      exact iff_of_false (not_outlierOf hpos (Or.inl hsteady.whole))
        (not_outlierOf hpos (hsteady.later before price after hsplit hready))

end Layers

end TradeWatch
