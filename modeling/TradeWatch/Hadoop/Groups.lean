import TradeWatch.Hadoop.Reducer
import TradeWatch.Lib.GroupBy
import TradeWatch.Lib.Statistics

/-!
The reducer in exact arithmetic. What it writes for a group of rows is a
function of the group that no exception interrupts, and its loop over the lines
is a walk over the runs of rows of one symbol.
-/

namespace TradeWatch.Reducer

open PyFloat SampleStatistics GroupBy

/-- The score that is printed beside a label. -/
def scoreOf {F : Type} [PyFloat F] (stats : Statistics F) (row : F × F) : Label → F
  | .zscore => zOf stats row.1
  | .volumeSpike => ratioOf stats row.2

/-- The statistics of a group, exactly. -/
noncomputable def statisticsOf (rows : List (ℝ × ℝ)) : Statistics ℝ where
  mean := average (rows.map Prod.fst)
  std := sampleStd (rows.map Prod.fst)
  qmean := average (rows.map Prod.snd)

/-- The distance of the price from the mean reaches the threshold. -/
def PriceOutlier (env : Thresholds ℝ) (stats : Statistics ℝ) (price : ℝ) : Prop :=
  Outlier env.priceZ stats.mean stats.std price

/-- The quantity reaches the threshold. A mean quantity that is not positive
counts as no ratio. -/
def VolumeBlock (env : Thresholds ℝ) (stats : Statistics ℝ) (qty : ℝ) : Prop :=
  if 0 < stats.qmean then env.volRatio * stats.qmean ≤ qty else env.volRatio ≤ 0

open Classical in
/-- The label of a row: a price outlier before a volume block. -/
noncomputable def labelOf (env : Thresholds ℝ) (stats : Statistics ℝ) (row : ℝ × ℝ) :
    Option Label :=
  if PriceOutlier env stats row.1 then some .zscore
  else if VolumeBlock env stats row.2 then some .volumeSpike
  else none

/-- The lines of a group under a rule for labels: none for a group that is too
small. -/
noncomputable def judged (label : Statistics ℝ → ℝ × ℝ → Option Label) (minTrades : ℤ)
    (symbol : String) (rows : List (ℝ × ℝ)) : List (List Char) :=
  if (rows.length : ℤ) < minTrades then []
  else
    rows.filterMap (fun row => (label (statisticsOf rows) row).map
      (fun l => lineOf symbol row (l, scoreOf (statisticsOf rows) row l)))

theorem statisticsOf_perm {rows rows' : List (ℝ × ℝ)} (h : rows.Perm rows') :
    statisticsOf rows = statisticsOf rows' := by
  unfold statisticsOf
  rw [average_perm (h.map Prod.fst), sampleStd_perm (h.map Prod.fst),
    average_perm (h.map Prod.snd)]

theorem judged_perm (label : Statistics ℝ → ℝ × ℝ → Option Label) (minTrades : ℤ)
    (symbol : String) {rows rows' : List (ℝ × ℝ)} (h : rows.Perm rows') :
    (judged label minTrades symbol rows).Perm (judged label minTrades symbol rows') := by
  unfold judged
  rw [h.length_eq, statisticsOf_perm h]
  split
  · exact List.Perm.refl []
  · exact h.filterMap _

theorem sampleStd_singleton (x : ℝ) : sampleStd [x] = 0 := by
  simp [sampleStd]

theorem mean_real {xs : List ℝ} (hne : xs ≠ []) :
    trueDiv (sum xs) (ofRat (xs.length : ℚ)) = .ok (average xs) := by
  have hn : (xs.length : ℝ) ≠ 0 := by
    rw [Nat.cast_ne_zero]
    exact fun hzero => hne (List.length_eq_zero_iff.mp hzero)
  rw [trueDiv_real (by simpa using hn)]
  simp [average]

/-- The variance of more than one value and its root. -/
theorem variance_real {xs : List ℝ} (hmany : 1 < xs.length) :
    xs.mapM (fun p => pow2 (sub p (average xs))) =
        .ok (xs.map (fun p => (p - average xs) ^ 2)) ∧
      trueDiv (sum (xs.map (fun p => (p - average xs) ^ 2)))
        (ofRat ((xs.length - 1 : ℕ) : ℚ)) = .ok (squares xs / (xs.length - 1)) ∧
      mathSqrt (squares xs / ((xs.length : ℝ) - 1)) = .ok (sampleStd xs) := by
  have hcast : (1 : ℝ) < xs.length := by exact_mod_cast hmany
  have hnonneg : 0 ≤ squares xs / ((xs.length : ℝ) - 1) :=
    div_nonneg (squares_nonneg xs) (by linarith)
  refine ⟨mapM_ok _ _, ?_, ?_⟩
  · rw [trueDiv_real (by simpa [Nat.cast_sub hmany.le] using (sub_pos.mpr hcast).ne')]
    simp [squares, Nat.cast_sub hmany.le]
  · rw [mathSqrt, if_neg (by simpa using hnonneg), sampleStd]
    rfl

/-- No row of a group that is not empty can make the statistics raise. -/
theorem statistics_real {rows : List (ℝ × ℝ)} (hne : rows ≠ []) :
    statistics rows = .ok (statisticsOf rows) := by
  have hprices : rows.map Prod.fst ≠ [] := by simpa using hne
  have hquantities : rows.map Prod.snd ≠ [] := by simpa using hne
  have hqmean := mean_real hquantities
  rw [List.length_map, ← List.length_map (f := Prod.fst)] at hqmean
  unfold statistics
  dsimp only
  rw [mean_real hprices]
  rcases Nat.lt_or_ge 1 (rows.map Prod.fst).length with hmany | hone
  · obtain ⟨hdeviations, hvar, hroot⟩ := variance_real hmany
    simp only [if_pos hmany, hdeviations, hvar, hroot, hqmean, bind, Except.bind, pure, Except.pure]
    rfl
  · have hstd : sampleStd (rows.map Prod.fst) = 0 := by
      obtain ⟨x, hx⟩ : ∃ x, rows.map Prod.fst = [x] := by
        have hpos : 0 < (rows.map Prod.fst).length := List.length_pos_iff.mpr hprices
        exact List.length_eq_one_iff.mp (by omega)
      rw [hx, sampleStd_singleton]
    have hroot : mathSqrt (ofRat 0 : ℝ) = .ok 0 := by
      simp [mathSqrt, sqrt]
    simp only [if_neg (not_lt.mpr hone), hroot, hqmean, bind, Except.bind, pure, Except.pure,
      statisticsOf, hstd]

open Classical in
/-- The verdict of the source, in terms of the two thresholds. -/
theorem verdict_real (env : Thresholds ℝ) (stats : Statistics ℝ) (row : ℝ × ℝ) :
    verdict env stats row = (labelOf env stats row).map (fun l => (l, scoreOf stats row l)) := by
  have htiny : ((1 / 1000000000000 : ℚ) : ℝ) = 1 / 10 ^ 12 := by norm_num
  have hprice : le env.priceZ (PyFloat.abs (zOf stats row.1)) = true ↔
      PriceOutlier env stats row.1 := by
    unfold zOf PriceOutlier
    rw [← le_abs_score_iff]
    simp only [lt_real, ofRat_real, htiny, le_real, abs_real, div_real, sub_real, Rat.cast_zero]
  have hqty : le env.volRatio (ratioOf stats row.2) = true ↔ VolumeBlock env stats row.2 := by
    unfold ratioOf VolumeBlock
    simp only [lt_real, ofRat_real, le_real, Rat.cast_zero]
    rcases lt_or_ge 0 stats.qmean with hpos | hnone
    · rw [if_pos hpos, if_pos hpos, div_real, le_div_iff₀ hpos]
    · rw [if_neg (not_lt.mpr hnone), if_neg (not_lt.mpr hnone)]
  unfold verdict labelOf
  simp only [hprice, hqty]
  by_cases houtlier : PriceOutlier env stats row.1
  · simp [houtlier, scoreOf]
  · by_cases hblock : VolumeBlock env stats row.2 <;> simp [houtlier, hblock, scoreOf]

theorem flush_real (env : Thresholds ℝ) (symbol : String) {rows : List (ℝ × ℝ)}
    (hne : rows ≠ []) :
    flush env (some symbol) rows = .ok (judged (labelOf env) env.minTrades symbol rows) := by
  unfold flush judged
  dsimp only
  split
  · rfl
  · rw [statistics_real hne]
    simp only [bind, Except.bind, pure, Except.pure, verdict_real, Option.map_map,
      Function.comp_def]

/-- No price of a group is scored further out than its own share in the deviation
allows. -/
theorem abs_zOf_le {rows : List (ℝ × ℝ)} (hmany : 2 ≤ rows.length) {row : ℝ × ℝ}
    (hrow : row ∈ rows) :
    |zOf (statisticsOf rows) row.1| ≤ ((rows.length : ℝ) - 1) / √rows.length := by
  have hn : (2 : ℝ) ≤ rows.length := by exact_mod_cast hmany
  have hnonneg : 0 ≤ ((rows.length : ℝ) - 1) / √rows.length :=
    div_nonneg (by linarith) (Real.sqrt_nonneg _)
  have hprice := abs_sub_average_le (List.mem_map_of_mem (f := Prod.fst) hrow)
    (by rwa [List.length_map])
  rw [List.length_map] at hprice
  unfold zOf
  split_ifs with hvaries
  · have hstd : 0 < (statisticsOf rows).std := by
      rw [lt_real, ofRat_real] at hvaries
      exact lt_trans (by norm_num) hvaries
    rw [div_real, sub_real, abs_div, abs_of_pos hstd, div_le_iff₀ hstd]
    exact hprice
  · simpa using hnonneg

/-- The scores of a group of `n` rows stay within `(n - 1) / √n`, so under a greater
threshold every line of the group is on a volume. -/
theorem no_zscore_line_of_small_group (env : Thresholds ℝ) (symbol : String)
    (rows : List (ℝ × ℝ)) (hmany : 2 ≤ rows.length) :
    ∃ stats, statistics rows = .ok stats ∧
      (∀ row ∈ rows, |zOf stats row.1| ≤ ((rows.length : ℝ) - 1) / √rows.length) ∧
      (((rows.length : ℝ) - 1) / √rows.length < env.priceZ →
        ∃ lines, flush env (some symbol) rows = .ok lines ∧
          (∀ row ∈ rows, ∀ z, verdict env stats row ≠ some (.zscore, z)) ∧
          ∀ line ∈ lines, ∃ row ∈ rows,
            ∃ ratio, line = lineOf symbol row (.volumeSpike, ratio)) := by
  have hne : rows ≠ [] := by
    rintro rfl
    simp at hmany
  have hbound : ∀ row ∈ rows,
      |zOf (statisticsOf rows) row.1| ≤ ((rows.length : ℝ) - 1) / √rows.length :=
    fun row hrow => abs_zOf_le hmany hrow
  refine ⟨statisticsOf rows, statistics_real hne, hbound, ?_⟩
  intro hblind
  have hquiet : ∀ row ∈ rows, verdict env (statisticsOf rows) row = none ∨
      ∃ ratio, verdict env (statisticsOf rows) row = some (.volumeSpike, ratio) := by
    intro row hrow
    have hlow : le env.priceZ (PyFloat.abs (zOf (statisticsOf rows) row.1)) = false := by
      rw [← Bool.not_eq_true, le_real, abs_real, not_le]
      exact (hbound row hrow).trans_lt hblind
    unfold verdict
    simp only [hlow, Bool.false_eq_true, if_false]
    split_ifs
    · exact Or.inr ⟨_, rfl⟩
    · exact Or.inl rfl
  have hflush : flush env (some symbol) rows = .ok (if (rows.length : ℤ) < env.minTrades then []
      else rows.filterMap
        (fun row => (verdict env (statisticsOf rows) row).map (lineOf symbol row))) := by
    unfold flush
    dsimp only
    split
    · rfl
    · rw [statistics_real hne]
      rfl
  refine ⟨_, hflush, ?_, ?_⟩
  · intro row hrow z hz
    rcases hquiet row hrow with hnone | ⟨ratio, hratio⟩
    · rw [hnone] at hz
      cases hz
    · rw [hratio] at hz
      cases hz
  · intro line hline
    split_ifs at hline
    · cases hline
    · obtain ⟨row, hrow, hwritten⟩ := List.mem_filterMap.mp hline
      rcases hquiet row hrow with hnone | ⟨ratio, hratio⟩
      · simp [hnone] at hwritten
      · rw [hratio] at hwritten
        exact ⟨row, hrow, ratio, (Option.some.inj hwritten).symm⟩

/-- Rules under which two trades are enough. -/
noncomputable def blockRules : Thresholds ℝ := { volRatio := ofRat (3 / 2), minTrades := 2 }

/-- Two rows of which the second is a block: a line is written, and it is on the volume. -/
theorem no_zscore_line_of_small_group_two_rows :
    ∃ lines, flush blockRules (some "ACME")
        [((1 : ℝ), (1 : ℝ)), (1000, 9)] = .ok lines ∧ lines ≠ [] ∧
      ∀ line ∈ lines, ∃ row ∈ [((1 : ℝ), (1 : ℝ)), (1000, 9)],
        ∃ ratio, line = lineOf "ACME" row (.volumeSpike, ratio) := by
  obtain ⟨_, _, _, hblind⟩ :=
    no_zscore_line_of_small_group blockRules "ACME" [((1 : ℝ), (1 : ℝ)), (1000, 9)] (by simp)
  have hroot : (1 : ℝ) ≤ √2 := Real.one_le_sqrt.mpr (by norm_num)
  have hsmall : (([((1 : ℝ), (1 : ℝ)), (1000, 9)].length : ℝ) - 1) /
      √([((1 : ℝ), (1 : ℝ)), (1000, 9)].length : ℝ) < (Thresholds.priceZ {} : ℝ) := by
    rw [div_lt_iff₀ (by simp)]
    norm_num
    linarith
  obtain ⟨lines, hlines, _, hvolume⟩ := hblind hsmall
  refine ⟨lines, hlines, ?_, hvolume⟩
  have hblock : VolumeBlock blockRules
      (statisticsOf [((1 : ℝ), (1 : ℝ)), (1000, 9)]) 9 := by
    norm_num [VolumeBlock, statisticsOf, average, blockRules]
  rw [flush_real _ _ (by simp), Except.ok.injEq, judged, if_neg (by decide)] at hlines
  rintro rfl
  have hnone := List.filterMap_eq_nil_iff.mp hlines (1000, 9) (by simp)
  rw [Option.map_eq_none_iff, labelOf, if_pos hblock] at hnone
  split at hnone <;> cases hnone

variable (py : PyText ℝ) (env : Thresholds ℝ)

/-- The lines of some groups, one group after the other. -/
noncomputable def linesOf (groups : List (String × List (ℝ × ℝ))) : List (List Char) :=
  groups.flatMap (fun group => judged (labelOf env) env.minTrades group.1 group.2)

/-- The loop with a group in hand: it writes the runs of the rest, the first of
which the group in hand may be part of. -/
theorem loop_real (symbol : String) {rows : List (ℝ × ℝ)} (hne : rows ≠ [])
    (lines : List (List Char)) :
    loop py env (some symbol) rows lines =
      (linesOf env (extend symbol rows (runs (lines.filterMap (parseLine py)))), none) := by
  induction lines generalizing symbol rows with
  | nil =>
      simp [loop, flush_real env symbol hne, runs, extend, linesOf]
  | cons line rest ih =>
      rcases hparse : parseLine py line with _ | ⟨next, price, qty⟩
      · rw [List.filterMap_cons_none hparse]
        simp only [loop, hparse, ih symbol hne]
      · rw [List.filterMap_cons_some hparse, runs]
        by_cases hsame : next = symbol
        · subst hsame
          have hrow : rows ++ [(price, qty)] ≠ [] := by simp
          simp only [loop, hparse, ne_eq, not_true_eq_false, if_false, ih next hrow, extend_snoc]
        · have hother : some next ≠ some symbol := fun heq => hsame (Option.some.inj heq)
          have hrow : [(price, qty)] ≠ [] := by simp
          simp only [loop, hparse, if_pos hother, flush_real env symbol hne, ih next hrow,
            extend_of_ne hsame]
          rfl

/-- The whole task writes the runs of its rows and ends without an exception. -/
theorem main_real (lines : List (List Char)) :
    main py env lines = (linesOf env (runs (lines.filterMap (parseLine py))), none) := by
  unfold main
  induction lines with
  | nil => rfl
  | cons line rest ih =>
      rcases hparse : parseLine py line with _ | ⟨symbol, price, qty⟩
      · rw [List.filterMap_cons_none hparse]
        simp only [loop, hparse, ih]
      · have hrow : [(price, qty)] ≠ [] := by simp
        rw [List.filterMap_cons_some hparse, runs]
        simp only [loop, hparse, ne_eq, reduceCtorEq, not_false_eq_true, if_true, flush,
          loop_real py env symbol hrow, List.nil_append]

end TradeWatch.Reducer
