import TradeWatch.PriorMedian
import TradeWatch.Tape

/-!
Two candidates for the next trade that differ in one field. The further the
price is from the mean or from the price before it, or the greater the
quantity, the graver the alert. For prices that is so because the baseline is
computed without the candidate; the baseline of the quantities moves with it,
but never by a greater factor.
-/

namespace TradeWatch

open PyFloat SampleStatistics OrderStatistics

theorem lt_of_positive (x : {x : ℝ // 0 < x}) : lt (ofRat 0) x.val = true := by
  simpa using x.2

/-- The same trade at another price. -/
noncomputable def Trade.withPrice (trade : Trade ℝ) (price : {x : ℝ // 0 < x}) : Trade ℝ :=
  { trade with price := price, price_pos := lt_of_positive price }

/-- The same trade of another size. -/
noncomputable def Trade.withQuantity (trade : Trade ℝ) (quantity : {x : ℝ // 0 < x}) : Trade ℝ :=
  { trade with quantity := quantity, quantity_pos := lt_of_positive quantity }

/-- The second alert is at least as grave as the first. -/
structure Alert.AtMost (first second : Alert ℝ) : Prop where
  severity : first.severity.rank ≤ second.severity.rank
  score : first.score.value ≤ second.score.value

/-- Where the first answer is an alert, the second is one at least as grave. -/
def Escalates (first second : Answer ℝ) : Prop :=
  ∀ alert, first = .ok (some alert) → ∃ graver, second = .ok (some graver) ∧ alert.AtMost graver

/-- Alerts whose severity and score follow one measure are as grave as it is great. -/
theorem atMost_build {x y critical score score' : ℝ} (hxy : x ≤ y) (hscore : score ≤ score')
    (trade trade' : Trade ℝ) (detector detector' reason reason' : String)
    (details details' : List (String × Detail ℝ)) :
    (Alert.build trade detector (if critical ≤ x then .critical else .high) score reason
        details).AtMost
      (.build trade' detector' (if critical ≤ y then .critical else .high) score' reason'
        details') := by
  constructor
  · simp only [Alert.build]
    split_ifs with hlow hhigh
    · exact le_rfl
    · exact absurd (hlow.trans hxy) hhigh
    · decide
    · exact le_rfl
  · simp only [Alert.build, Score.clamp, pyMax_real, pyMin_real]
    exact max_le_max_left _ (min_le_min_left _ hscore)

namespace SymbolWindow

variable {F : Type} [PyFloat F]

/-- Two trades of one time take the same place in a window. -/
theorem add_alike (w : SymbolWindow F) {a b : Trade F} (hts : a.timestamp = b.timestamp) :
    ((w.add a).2.trades = [] ∧ (w.add b).2.trades = []) ∨
      ∃ earlier, (w.add a).2.trades = earlier ++ [a] ∧ (w.add b).2.trades = earlier ++ [b] := by
  rcases lt_or_ge w.maxTrades 0 with hneg | hnonneg
  · left
    simp [add, evict, popWhileOver_of_neg hneg]
  · rw [trades_add_of_nonneg hnonneg, trades_add_of_nonneg hnonneg, hts]
    obtain ⟨room, hroom⟩ := Int.eq_ofNat_of_zero_le hnonneg
    rw [hroom, Int.toNat_natCast]
    rcases room with _ | room
    · simp [List.rtake]
    · have hboth : notOlder (b.timestamp - w.horizonSeconds) a =
          notOlder (b.timestamp - w.horizonSeconds) b := by
        simp [notOlder, hts]
      rw [List.rtake_concat_succ, List.rtake_concat_succ, List.dropWhile_append,
        List.dropWhile_append]
      split_ifs with hnone
      · cases hold : notOlder (b.timestamp - w.horizonSeconds) b with
        | false =>
            left
            simp [hboth, hold]
        | true =>
            right
            exact ⟨[], by simp [hboth, hold], by simp [hold]⟩
      · exact Or.inr ⟨_, rfl, rfl⟩

theorem prices_snoc {w : SymbolWindow F} {earlier : List (Trade F)} {trade : Trade F}
    (h : w.trades = earlier ++ [trade]) : w.prices = earlier.map (·.price) := by
  simp [prices, h]

theorem previousPrice_snoc {w : SymbolWindow F} {earlier : List (Trade F)} {trade : Trade F}
    (h : w.trades = earlier ++ [trade]) : w.previousPrice = earlier.getLast?.map (·.price) := by
  rw [previousPrice, h, List.getLast?_eq_getElem?]
  rcases earlier with _ | ⟨first, rest⟩
  · simp
  · rw [if_neg (by simp)]
    have hplace : (first :: rest ++ [trade]).length - 2 = (first :: rest).length - 1 := by
      simp only [List.length_append, List.length_cons, List.length_nil]
      omega
    rw [hplace, List.getElem?_append_left (by simp)]

end SymbolWindow

namespace ZScoreDetector

/-- The distance that is compared with the threshold. -/
noncomputable def distance (window : SymbolWindow ℝ) (price : ℝ) : ℝ :=
  if sampleStd window.prices ≤ negligible then 0
  else (price - average window.prices) / sampleStd window.prices

/-- The score of a distance. -/
noncomputable def scoreOf (threshold absZ : ℝ) : ℝ :=
  if threshold ≤ 0 then 1
  else min 1 (((6 / 10 : ℚ) : ℝ) + ((4 / 10 : ℚ) : ℝ) * (absZ - threshold) / threshold)

theorem zToScore_eq (absZ threshold : ℝ) :
    zToScore absZ threshold = .ok (scoreOf threshold absZ) := by
  unfold zToScore scoreOf
  rcases le_or_gt threshold 0 with hnone | hpos
  · simp [hnone]
  · simp only [le_real, ofRat_real, Rat.cast_zero, if_neg (not_le.mpr hpos), sub_real, mul_real,
      trueDiv_real hpos.ne', bind, Except.bind, pure, Except.pure, add_real, Rat.cast_one,
      pyMin_real]

theorem scoreOf_mono (threshold : ℝ) {x y : ℝ} (hxy : x ≤ y) :
    scoreOf threshold x ≤ scoreOf threshold y := by
  unfold scoreOf
  split_ifs with hnone
  · exact le_rfl
  · rw [not_le] at hnone
    have hshare : (0 : ℝ) ≤ ((4 / 10 : ℚ) : ℝ) := by
      push_cast
      norm_num
    gcongr

/-- The answer of the detector, from the distance. -/
theorem inspect_real (cfg : ZScoreConfig ℝ) (minTrades : ℤ) (trade : Trade ℝ)
    (window : SymbolWindow ℝ) :
    ∃ reason details, inspect cfg minTrades trade window =
      .ok (if window.ready minTrades ∧ cfg.priceThreshold ≤ |distance window trade.price| then
        some (.build trade name
          (if cfg.priceThreshold * cfg.criticalMultiplier ≤ |distance window trade.price| then
            .critical else .high)
          (scoreOf cfg.priceThreshold |distance window trade.price|) reason details)
        else none) := by
  have hstats : window.priceMeanStd = .ok (average window.prices, sampleStd window.prices) :=
    meanStd_real _
  have hz : zscore trade.price (average window.prices) (sampleStd window.prices) =
      .ok (distance window trade.price) := by
    rw [zscore_real, distance, negligible_eq]
  unfold inspect
  cases window.ready minTrades with
  | false => exact ⟨"", [], by simp⟩
  | true =>
      simp only [hstats, hz, zToScore_eq, bind, Except.bind, pure, Except.pure, abs_real, lt_real,
        le_real, mul_real, Bool.not_true, Bool.false_eq_true, if_false, true_and]
      rcases lt_or_ge |distance window trade.price| cfg.priceThreshold with hlow | hhigh
      · rw [if_pos hlow]
        exact ⟨"", [], congrArg Except.ok (if_neg (not_le.mpr hlow)).symm⟩
      · rw [if_neg (not_lt.mpr hhigh)]
        exact ⟨_, _, congrArg Except.ok (if_pos hhigh).symm⟩

/-- A price further from the mean of the earlier ones. -/
theorem escalates (cfg : ZScoreConfig ℝ) (minTrades : ℤ) (w : SymbolWindow ℝ) (trade : Trade ℝ)
    (price : {x : ℝ // 0 < x}) {mean std : ℝ}
    (hmean : (w.add trade).2.priceMeanStd = .ok (mean, std))
    (hfurther : |trade.price - mean| ≤ |price - mean|) :
    Escalates (inspect cfg minTrades trade (w.add trade).2)
      (inspect cfg minTrades (trade.withPrice price) (w.add (trade.withPrice price)).2) := by
  have halike := w.add_alike (a := trade) (b := trade.withPrice price) rfl
  have hprices : (w.add (trade.withPrice price)).2.prices = (w.add trade).2.prices := by
    rcases halike with ⟨hnone, hnone'⟩ | ⟨earlier, hheld, hheld'⟩
    · simp [SymbolWindow.prices, hnone, hnone']
    · rw [SymbolWindow.prices_snoc hheld, SymbolWindow.prices_snoc hheld']
  have hready : (w.add (trade.withPrice price)).2.ready minTrades =
      (w.add trade).2.ready minTrades := by
    rcases halike with ⟨hnone, hnone'⟩ | ⟨earlier, hheld, hheld'⟩
    · simp [SymbolWindow.ready, hnone, hnone']
    · simp [SymbolWindow.ready, hheld, hheld']
  have hstats : mean = average (w.add trade).2.prices := by
    rw [SymbolWindow.priceMeanStd, meanStd_real] at hmean
    exact (congrArg Prod.fst (Except.ok.inj hmean)).symm
  have hdistance : |distance (w.add trade).2 trade.price| ≤
      |distance (w.add (trade.withPrice price)).2 (trade.withPrice price).price| := by
    rw [distance, distance, hprices]
    split_ifs with htiny
    · exact le_rfl
    · rw [abs_div, abs_div]
      rw [hstats] at hfurther
      exact div_le_div_of_nonneg_right hfurther (abs_nonneg _)
  obtain ⟨reason, details, hfirst⟩ := inspect_real cfg minTrades trade (w.add trade).2
  obtain ⟨reason', details', hsecond⟩ := inspect_real cfg minTrades (trade.withPrice price)
    (w.add (trade.withPrice price)).2
  rintro alert halert
  rw [hfirst, Except.ok.injEq, Option.ite_none_right_eq_some] at halert
  obtain ⟨⟨hwarm, hlimit⟩, halert⟩ := halert
  obtain rfl := Option.some.inj halert
  rw [if_pos ⟨hready.trans hwarm, hlimit.trans hdistance⟩] at hsecond
  exact ⟨_, hsecond, atMost_build hdistance (scoreOf_mono _ hdistance) _ _ _ _ _ _ _ _⟩

end ZScoreDetector

namespace PriceSpikeDetector

/-- The answer of the detector, from the change against the price before. -/
theorem inspect_real (cfg : PriceSpikeConfig ℝ) (trade : Trade ℝ) {window : SymbolWindow ℝ}
    {prev : ℝ} (hprev : window.previousPrice = some prev) (hpos : 0 < prev) :
    ∃ reason details, inspect cfg trade window =
      .ok (if cfg.pctThreshold ≤ |(trade.price - prev) / prev| then
        some (.build trade name
          (if cfg.criticalPct ≤ |(trade.price - prev) / prev| then .critical else .high)
          (min 1 (|(trade.price - prev) / prev| / max cfg.criticalPct ((1 / 10 ^ 9 : ℚ) : ℝ)))
          reason details)
        else none) := by
  have hratio := trueDiv_pyMax_real (q := 1 / 10 ^ 9) (by norm_num) |(trade.price - prev) / prev|
    cfg.criticalPct
  unfold inspect
  rw [hprev]
  simp only [le_real, ofRat_real, Rat.cast_zero, if_neg (not_le.mpr hpos), sub_real,
    trueDiv_real hpos.ne', bind, Except.bind, pure, Except.pure, abs_real, lt_real, hratio,
    Rat.cast_one, pyMin_real]
  rcases lt_or_ge |(trade.price - prev) / prev| cfg.pctThreshold with hlow | hhigh
  · rw [if_pos hlow]
    exact ⟨"", [], congrArg Except.ok (if_neg (not_le.mpr hlow)).symm⟩
  · rw [if_neg (not_lt.mpr hhigh)]
    exact ⟨_, _, congrArg Except.ok (if_pos hhigh).symm⟩

/-- A price further from the one before. -/
theorem escalates (cfg : PriceSpikeConfig ℝ) (w : SymbolWindow ℝ) (trade : Trade ℝ)
    (price : {x : ℝ // 0 < x}) {prev : ℝ} (hprev : (w.add trade).2.previousPrice = some prev)
    (hfurther : |trade.price - prev| ≤ |price - prev|) :
    Escalates (inspect cfg trade (w.add trade).2)
      (inspect cfg (trade.withPrice price) (w.add (trade.withPrice price)).2) := by
  rcases w.add_alike (a := trade) (b := trade.withPrice price) rfl with
    ⟨hnone, _⟩ | ⟨earlier, hheld, hheld'⟩
  · simp [SymbolWindow.previousPrice, hnone] at hprev
  · have hsame := SymbolWindow.previousPrice_snoc hheld'
    rw [← SymbolWindow.previousPrice_snoc hheld, hprev] at hsame
    have hpos : 0 < prev := by
      rw [SymbolWindow.previousPrice_snoc hheld] at hprev
      obtain ⟨before, _, rfl⟩ := Option.map_eq_some_iff.mp hprev
      exact before.price_pos_real
    have hchange : |(trade.price - prev) / prev| ≤
        |((trade.withPrice price).price - prev) / prev| := by
      rw [abs_div, abs_div]
      exact div_le_div_of_nonneg_right hfurther (abs_nonneg _)
    have hfloor : (0 : ℝ) < max cfg.criticalPct ((1 / 10 ^ 9 : ℚ) : ℝ) :=
      lt_max_of_lt_right (by norm_num)
    have hscore := min_le_min_left 1 (div_le_div_of_nonneg_right hchange hfloor.le)
    obtain ⟨reason, details, hfirst⟩ := inspect_real cfg trade hprev hpos
    obtain ⟨reason', details', hsecond⟩ := inspect_real cfg (trade.withPrice price) hsame hpos
    rintro alert halert
    rw [hfirst, Except.ok.injEq, Option.ite_none_right_eq_some] at halert
    obtain ⟨hlimit, halert⟩ := halert
    obtain rfl := Option.some.inj halert
    rw [if_pos (hlimit.trans hchange)] at hsecond
    exact ⟨_, hsecond, atMost_build hchange hscore _ _ _ _ _ _ _ _⟩

end PriceSpikeDetector

namespace VolumeSpikeDetector

/-- A greater quantity: the baseline may rise with it, but the ratio does not fall. -/
theorem escalates (cfg : VolumeSpikeConfig ℝ) (minTrades : ℤ) (w : SymbolWindow ℝ)
    (trade : Trade ℝ) (quantity : {x : ℝ // 0 < x}) (hgreater : trade.quantity ≤ quantity) :
    Escalates (inspect cfg minTrades trade (w.add trade).2)
      (inspect cfg minTrades (trade.withQuantity quantity)
        (w.add (trade.withQuantity quantity)).2) := by
  let larger := trade.withQuantity quantity
  rcases w.add_alike (a := trade) (b := larger) rfl with ⟨hnone, _⟩ | ⟨earlier, hheld, hheld'⟩
  · have hmedian : (w.add trade).2.volumeMedian = 0 := by
      simp [SymbolWindow.volumeMedian, hnone, sorted, median]
    rintro alert halert
    rw [inspect_real, hmedian] at halert
    simp at halert
  · let prior := ascending (earlier.map (·.quantity))
    have hsorted : prior.Pairwise (· ≤ ·) := ascending_sorted _
    have hpos : ∀ y ∈ prior, 0 < y := by
      intro y hy
      obtain ⟨before, _, rfl⟩ := List.mem_map.mp ((ascending_perm _).mem_iff.mp hy)
      exact before.quantity_pos_real
    have hmedian : ∀ {window : SymbolWindow ℝ} {newest : Trade ℝ},
        window.trades = earlier ++ [newest] →
          window.volumeMedian = middle (displace newest.quantity prior) := by
      intro window newest hwindow
      have hlast : window.trades.getLast? = some newest := by simp [hwindow]
      rw [SymbolWindow.volumeMedian_of_getLast? hlast]
      simp [SymbolWindow.priorQuantities, hwindow, prior]
    have hready : (w.add larger).2.ready minTrades = (w.add trade).2.ready minTrades := by
      simp [SymbolWindow.ready, hheld, hheld']
    obtain ⟨hrises, hslower⟩ :=
      middle_displace_mono hsorted hpos trade.quantity_pos_real hgreater
    rintro alert halert
    rw [inspect_real, Except.ok.injEq, Option.ite_none_right_eq_some, hmedian hheld] at halert
    obtain ⟨⟨hwarm, hbase, hlimit⟩, halert⟩ := halert
    obtain rfl := Option.some.inj halert
    have hbase' : 0 < middle (displace larger.quantity prior) := hbase.trans_le hrises
    have hratio : trade.quantity / middle (displace trade.quantity prior) ≤
        larger.quantity / middle (displace larger.quantity prior) := by
      rw [div_le_div_iff₀ hbase hbase', mul_comm trade.quantity, mul_comm larger.quantity]
      exact hslower
    have hlimit' : cfg.medianMultiplier * middle (displace larger.quantity prior) ≤
        larger.quantity := by
      have hreach := ((le_div_iff₀ hbase).mpr hlimit).trans hratio
      exact (le_div_iff₀ hbase').mp hreach
    refine ⟨spikeAlert cfg larger (middle (displace larger.quantity prior)), ?_, ?_⟩
    · rw [inspect_real, hmedian hheld', if_pos ⟨hready.trans hwarm, hbase', hlimit'⟩]
    · have hfloor : (0 : ℝ) < max cfg.criticalMultiplier (ofRat (1 / 10 ^ 9)) :=
        lt_max_of_lt_right (by simp)
      apply atMost_build hratio
      rw [pyMin_real, pyMin_real]
      exact min_le_min_left _ (div_le_div_of_nonneg_right hratio hfloor.le)

end VolumeSpikeDetector

/-- A larger deviation never looks milder, for any configuration, history and trade. -/
theorem larger_deviation_escalates (cfg : DetectionConfig ℝ) (w : SymbolWindow ℝ)
    (trade : Trade ℝ) (other : {x : ℝ // 0 < x}) :
    (∀ mean std, (w.add trade).2.priceMeanStd = .ok (mean, std) →
        |trade.price - mean| ≤ |other - mean| →
          Escalates (ZScoreDetector.inspect cfg.zscore cfg.window.minTrades trade (w.add trade).2)
            (ZScoreDetector.inspect cfg.zscore cfg.window.minTrades (trade.withPrice other)
              (w.add (trade.withPrice other)).2)) ∧
      (∀ prev, (w.add trade).2.previousPrice = some prev →
        |trade.price - prev| ≤ |other - prev| →
          Escalates (PriceSpikeDetector.inspect cfg.priceSpike trade (w.add trade).2)
            (PriceSpikeDetector.inspect cfg.priceSpike (trade.withPrice other)
              (w.add (trade.withPrice other)).2)) ∧
      (trade.quantity ≤ other →
        Escalates
          (VolumeSpikeDetector.inspect cfg.volumeSpike cfg.window.minTrades trade (w.add trade).2)
          (VolumeSpikeDetector.inspect cfg.volumeSpike cfg.window.minTrades
            (trade.withQuantity other) (w.add (trade.withQuantity other)).2)) := by
  refine ⟨?_, ?_, ?_⟩
  · intro mean std hmean hfurther
    exact ZScoreDetector.escalates _ _ w trade other hmean hfurther
  · intro prev hprev hfurther
    exact PriceSpikeDetector.escalates _ w trade other hprev hfurther
  · intro hgreater
    exact VolumeSpikeDetector.escalates _ _ w trade other hgreater

end TradeWatch
