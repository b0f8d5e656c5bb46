import TradeWatch.Ml.Features
import TradeWatch.Tape
import TradeWatch.Velocity

/-!
Feature rows against the live window, in exact arithmetic. The builder reads
its window before the trade is added, the live detectors read theirs after, so
the two disagree about what the addition evicts; and NumPy's `std` divides by
`n` where the live standard deviation divides by `n - 1`. The theorem below
says for which trades the row is nevertheless what the live detectors compute.
-/

namespace TradeWatch

open PyFloat SampleStatistics Suffix Transducer

section Statistics

/-- What NumPy documents about the functions that enter `price_z`: the
arithmetic mean and, by default, the population standard deviation. -/
structure NumPy.Documented (np : NumPy ℝ) : Prop where
  mean_eq : ∀ xs : List ℝ, xs ≠ [] → np.mean xs = average xs
  std_eq : ∀ xs : List ℝ, xs ≠ [] → np.std xs = populationStd xs

/-- Two guarded quotients of one distance, by a deviation and a greater one. -/
theorem guarded_quotients_agree {d small large : ℝ} (low high : ℝ) (hd : 0 ≤ d) (hlow : 0 ≤ low)
    (hbounds : low ≤ high) (hle : small ≤ large) (hlt : 0 < small → small < large) :
    (if high < small then d / small else 0) = (if large ≤ low then 0 else d / large) ↔
      d = 0 ∨ large ≤ low := by
  rcases le_or_gt large low with hlarge | hlarge
  · have hsmall : ¬ high < small := by linarith
    simp [hlarge, hsmall]
  · have hpos : 0 < large := hlow.trans_lt hlarge
    rw [if_neg (not_le.mpr hlarge)]
    constructor
    · intro heq
      left
      split_ifs at heq with hsmall
      · have hsmallpos : 0 < small := by linarith
        rcases hd.lt_or_eq with hdpos | hdzero
        · have hgap := div_lt_div_of_pos_left hdpos hsmallpos (hlt hsmallpos)
          linarith
        · exact hdzero.symm
      · rcases div_eq_zero_iff.mp heq.symm with hzero | hzero
        · exact hzero
        · exact absurd hzero hpos.ne'
    · rintro (rfl | hnot)
      · simp
      · exact absurd hnot (not_le.mpr hlarge)

end Statistics

section History

variable {F : Type} [PyFloat F]

/-- Nothing at the front of a tape in order is too old when nothing is. -/
theorem dropWhile_old_eq_self_iff {first : Trade F} {rest : List (Trade F)}
    (horder : InOrder (first :: rest)) (trade : Trade F) (cutoff : ℚ) :
    (first :: rest ++ [trade]).dropWhile (fun t => t.timestamp < cutoff) =
        first :: rest ++ [trade] ↔
      ∀ x ∈ first :: rest, cutoff ≤ x.timestamp := by
  have hhead : (∀ x ∈ first :: rest, cutoff ≤ x.timestamp) ↔ cutoff ≤ first.timestamp := by
    constructor
    · intro h
      exact h first List.mem_cons_self
    · intro h x hx
      rcases List.mem_cons.mp hx with rfl | hrest
      · exact h
      · exact h.trans ((List.pairwise_cons.mp horder).1 x hrest)
  rw [hhead, List.dropWhile_eq_self_iff]
  simp

/-- What an addition leaves of the trades before it: all of them, exactly when
there is room and none of them is too old. -/
theorem dropLast_add_eq_iff {w : SymbolWindow F} (hmax : 0 ≤ w.maxTrades) (trade : Trade F)
    (horder : InOrder w.trades) :
    w.trades.Perm (w.add trade).2.trades.dropLast ↔
      (w.trades = [] ∨ w.trades.length < w.maxTrades) ∧
        ∀ x ∈ w.trades, trade.timestamp - w.horizonSeconds ≤ x.timestamp := by
  have hsuffix := w.add_suffix trade
  rcases hempty : w.trades with _ | ⟨first, rest⟩
  · have hshort := hsuffix.length_le
    rw [hempty, List.nil_append, List.length_singleton] at hshort
    have hnil : (w.add trade).2.trades.dropLast = [] := by
      apply List.length_eq_zero_iff.mp
      rw [List.length_dropLast]
      omega
    rw [hnil]
    simp
  · have hwhole : (first :: rest).Perm (w.add trade).2.trades.dropLast ↔
        (w.add trade).2.trades = first :: rest ++ [trade] := by
      rw [hempty] at hsuffix
      constructor
      · intro hperm
        have hlength := hperm.length_eq
        rw [List.length_dropLast, List.length_cons] at hlength
        apply hsuffix.eq_of_length_le
        rw [List.length_append, List.length_singleton, List.length_cons]
        omega
      · intro hkept
        rw [hkept, List.dropLast_concat]
    have hfits : (first :: rest ++ [trade]).length ≤ w.maxTrades.toNat ↔
        ((first :: rest).length : ℤ) < w.maxTrades := by
      rw [List.length_append, List.length_singleton]
      omega
    rw [hempty] at horder
    rw [hwhole, SymbolWindow.add_of_nonneg hmax, hempty]
    dsimp only
    rw [dropWhile_rtake_eq_self_iff, hfits, dropWhile_old_eq_self_iff horder]
    simp
end History

section Agreement

variable {M : Type}

/-- The feature builder after some trades, sized like the engine's windows. -/
def builderAfter {F : Type} [PyFloat F] (np : NumPy F) (cfg : DetectionConfig F)
    (before : List (Trade F)) : FeatureBuilder F :=
  final (FeatureBuilder.transformOne np)
    (.init cfg.window.maxTrades cfg.window.horizonSeconds) before

/-- The trades that the builder computes the row of `trade` from. -/
def priorTrades {F : Type} [PyFloat F] (np : NumPy F) (cfg : DetectionConfig F)
    (before : List (Trade F)) (trade : Trade F) : List (Trade F) :=
  ((builderAfter np cfg before).window trade.symbol).trades

/-- The builder and the engine see one history: the prior trades of the row are
the live window without the trade, and `price_z` is the distance that the live
detectors compute on that window. -/
def SeesOnlineHistory (np : NumPy ℝ) (sklearn : SkLearn ℝ M) (cfg : DetectionConfig ℝ)
    (before : List (Trade ℝ)) (trade : Trade ℝ) : Prop :=
  let live := (final DetectionEngine.watch (DetectionEngine.init sklearn cfg) before).windowAfter
    trade
  (priorTrades np cfg before trade).Perm live.trades.dropLast ∧
    ∃ row mean std z,
      (FeatureBuilder.transformOne np (builderAfter np cfg before) trade).1 = .ok row ∧
        live.priceMeanStd = .ok (mean, std) ∧
        ZScoreDetector.zscore trade.price mean std = .ok z ∧ row.priceZ = |z|

/-- The offline distance, exactly. -/
theorem priceZ_real {np : NumPy ℝ} (hnp : np.Documented) {prior : List (Trade ℝ)}
    {trade : Trade ℝ} {row : FeatureRow ℝ}
    (h : FeatureBuilder.featureRow np prior trade = .ok row) :
    row.priceZ =
      if 1 < prior.length ∧ 1 / 10 ^ 9 < populationStd (prior.map (·.price)) then
        |trade.price - average (prior.map (·.price))| / populationStd (prior.map (·.price))
      else 0 := by
  rw [FeatureBuilder.featureRow_priceZ h]
  rcases Nat.lt_or_ge 1 prior.length with hmany | hfew
  · have hne : prior.map (·.price) ≠ [] := by
      intro hnil
      rw [List.map_eq_nil_iff.mp hnil] at hmany
      simp at hmany
    simp only [List.length_map, hmany, if_true, true_and, hnp.std_eq _ hne, hnp.mean_eq _ hne,
      List.isEmpty_iff, hne, if_false]
    simp
  · simp [not_lt.mpr hfew]

/-- On one history, when the two distances are equal. -/
theorem priceZ_eq_iff {np : NumPy ℝ} (hnp : np.Documented) {prior : List (Trade ℝ)}
    {trade : Trade ℝ} {row : FeatureRow ℝ}
    (h : FeatureBuilder.featureRow np prior trade = .ok row) :
    let prices := prior.map (·.price)
    row.priceZ = |if sampleStd prices ≤ 1 / 10 ^ 12 then 0
        else (trade.price - average prices) / sampleStd prices| ↔
      trade.price = average prices ∨ sampleStd prices ≤ 1 / 10 ^ 12 := by
  intro prices
  have hlength : prices.length = prior.length := List.length_map _
  have hlive : |if sampleStd prices ≤ 1 / 10 ^ 12 then 0
        else (trade.price - average prices) / sampleStd prices| =
      if sampleStd prices ≤ 1 / 10 ^ 12 then 0
        else |trade.price - average prices| / sampleStd prices := by
    split_ifs
    · exact abs_zero
    · have hnonneg : 0 ≤ sampleStd prices := Real.sqrt_nonneg _
      rw [abs_div, abs_of_nonneg hnonneg]
  rw [priceZ_real hnp h, hlive]
  rcases Nat.lt_or_ge 1 prior.length with hmany | hfew
  · have hpopulation : 0 ≤ populationStd prices := Real.sqrt_nonneg _
    have hlt : 0 < populationStd prices → populationStd prices < sampleStd prices :=
      populationStd_lt_sampleStd (by rwa [hlength])
    have hle : populationStd prices ≤ sampleStd prices := by
      rcases hpopulation.lt_or_eq with hpos | hzero
      · exact (hlt hpos).le
      · rw [← hzero]
        exact Real.sqrt_nonneg _
    have hagree := guarded_quotients_agree (1 / 10 ^ 12) (1 / 10 ^ 9)
      (abs_nonneg (trade.price - average prices)) (by positivity) (by norm_num) hle hlt
    rw [abs_eq_zero, sub_eq_zero] at hagree
    simpa only [hmany, true_and] using hagree
  · have hnone : sampleStd prices = 0 := by
      rcases hprior : prior with _ | ⟨x, _ | ⟨y, rest⟩⟩
      · simp [prices, hprior, sampleStd, squares]
      · simp [prices, hprior, sampleStd, squares]
      · rw [hprior] at hfew
        simp at hfew
    have hsmall : sampleStd prices ≤ 1 / 10 ^ 12 := by
      rw [hnone]
      positivity
    rw [if_neg (by rintro ⟨hmany, _⟩; omega), if_pos hsmall]
    exact ⟨fun _ => Or.inr hsmall, fun _ => rfl⟩

/-- Builder and engine hold the same window of a symbol. -/
theorem builder_window_eq (np : NumPy ℝ) (sklearn : SkLearn ℝ M) (cfg : DetectionConfig ℝ)
    (before : List (Trade ℝ)) (symbol : String) :
    (builderAfter np cfg before).window symbol =
      (final DetectionEngine.watch (DetectionEngine.init sklearn cfg) before).windows.window
        symbol := by
  rw [builderAfter, FeatureBuilder.final_window, DetectionEngine.final_window]
  rfl

theorem builder_window_bounds (np : NumPy ℝ) (cfg : DetectionConfig ℝ)
    (before : List (Trade ℝ)) (symbol : String) :
    ((builderAfter np cfg before).window symbol).maxTrades = cfg.window.maxTrades ∧
      ((builderAfter np cfg before).window symbol).horizonSeconds =
        cfg.window.horizonSeconds := by
  rw [builderAfter, FeatureBuilder.final_window, SymbolWindow.replay_maxTrades,
    SymbolWindow.replay_horizonSeconds]
  exact ⟨rfl, rfl⟩

theorem builder_window_inOrder (np : NumPy ℝ) (cfg : DetectionConfig ℝ)
    {before : List (Trade ℝ)} (horder : SymbolOrdered before) (symbol : String) :
    InOrder ((builderAfter np cfg before).window symbol).trades := by
  rw [builderAfter, FeatureBuilder.final_window]
  exact (horder.tape symbol).sublist (SymbolWindow.replay_sublist _ _)

/-- On one history the live statistics are those of the prior prices. -/
theorem priceMeanStd_of_perm {w : SymbolWindow ℝ} {prior : List (Trade ℝ)}
    (h : prior.Perm w.trades.dropLast) :
    w.priceMeanStd = .ok (average (prior.map (·.price)), sampleStd (prior.map (·.price))) := by
  have hprices : (prior.map (·.price)).Perm (w.prices true) := by
    simp only [SymbolWindow.prices, if_true, ← List.map_dropLast]
    exact h.map _
  rw [SymbolWindow.priceMeanStd, meanStd_real, average_perm hprices, sampleStd_perm hprices]

/-- NumPy's functions in exact arithmetic. -/
noncomputable def NumPy.exact : NumPy ℝ where
  mean := average
  std := populationStd
  median xs := TradeWatch.median (sorted xs)
  log1p x := Real.log (1 + x)

theorem NumPy.exact_documented : NumPy.exact.Documented :=
  ⟨fun _ _ => rfl, fun _ _ => rfl⟩

/-- One trade is all the history there is after it. -/
theorem priorTrades_single (timestamp : ℚ) :
    priorTrades NumPy.exact {} [realTradeAt 0] (realTradeAt timestamp) = [realTradeAt 0] := by
  have hone : ((⟨"ACME", 200, 300, []⟩ : SymbolWindow ℝ).add (realTradeAt 0)).2.trades =
      [realTradeAt 0] := by
    rw [SymbolWindow.add_of_nonneg (by norm_num)]
    norm_num [realTradeAt, List.rtake]
  rw [priorTrades, builderAfter, FeatureBuilder.final_window]
  simpa [realTradeAt, FeatureBuilder.window, FeatureBuilder.init] using hone

end Agreement

end TradeWatch
