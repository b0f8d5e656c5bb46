import TradeWatch.Detectors.Rules
import TradeWatch.Lib.Double
import TradeWatch.Lib.OrderStatistics

/-!
The size baseline of the volume detector. The window drops the greatest
quantity, not the newest, before it takes the median. Here is when that is the
median of the other trades all the same, and why the detector cannot tell: a
quantity of twice either median is large enough to make the two agree.
-/

namespace TradeWatch

open PyFloat OrderStatistics

theorem sorted_real (xs : List ℝ) : sorted xs = ascending xs := by
  apply eq_of_perm_of_sorted
  · exact (sorted_perm xs).trans (ascending_perm xs).symm
  · exact sorted_real_pairwise xs
  · exact ascending_sorted xs

/-- What the code takes of a sorted list is its middle. -/
theorem median_real (values : List ℝ) : median values = middle values := by
  rcases Nat.eq_zero_or_pos values.length with hnone | hsome
  · rw [List.length_eq_zero_iff] at hnone
    subst hnone
    simp [median, middle]
  · have hlo : values[(values.length - 1) / 2]? = some values[(values.length - 1) / 2] :=
      List.getElem?_eq_getElem (by omega)
    have hhi : values[values.length / 2]? = some values[values.length / 2] :=
      List.getElem?_eq_getElem (by omega)
    rw [middle_eq hlo hhi, median, dif_neg (by omega)]
    split_ifs with hodd
    · have hsame : (values.length - 1) / 2 = values.length / 2 := by omega
      simp only [hsame, List.get_eq_getElem, add_self_div_two]
    · have hbelow : (values.length - 1) / 2 = values.length / 2 - 1 := by omega
      simp [hbelow]

namespace SymbolWindow

/-- The quantities of all trades but the newest. -/
def priorQuantities {F : Type} [PyFloat F] (w : SymbolWindow F) : List F :=
  (w.trades.map (·.quantity)).dropLast

/-- The newest quantity does not move the middle of the others when it takes
the place of the greatest of them. -/
def NewestLeavesMiddle (w : SymbolWindow ℝ) : Prop :=
  ∀ newest ∈ w.trades.getLast?, LeavesMiddle newest.quantity (ascending w.priorQuantities)

theorem priorQuantities_of_getLast? {F : Type} [PyFloat F] {w : SymbolWindow F} {newest : Trade F}
    (h : w.trades.getLast? = some newest) :
    w.trades.map (·.quantity) = w.priorQuantities ++ [newest.quantity] := by
  obtain ⟨earlier, hearlier⟩ := List.getLast?_eq_some_iff.mp h
  rw [priorQuantities, hearlier, List.map_append, List.map_singleton, List.dropLast_concat]

theorem priorQuantities_pos (w : SymbolWindow ℝ) : ∀ y ∈ ascending w.priorQuantities, 0 < y := by
  intro y hy
  have hmem := List.mem_of_mem_dropLast ((ascending_perm _).mem_iff.mp hy)
  obtain ⟨trade, _, rfl⟩ := List.mem_map.mp hmem
  exact trade.quantity_pos_real

/-- The newest quantity stays in the list, and the greatest leaves it. -/
theorem volumeMedian_of_getLast? {w : SymbolWindow ℝ} {newest : Trade ℝ}
    (h : w.trades.getLast? = some newest) :
    w.volumeMedian = middle (displace newest.quantity (ascending w.priorQuantities)) := by
  rw [volumeMedian, priorQuantities_of_getLast? h, sorted_real, ascending_snoc]
  exact median_real _

/-- Dropping the greatest quantity gives the median of the other trades exactly
when the newest quantity leaves their middle alone. -/
theorem volumeMedian_eq_prior_iff (w : SymbolWindow ℝ) :
    w.volumeMedian = sampleMedian w.priorQuantities ↔ w.NewestLeavesMiddle := by
  unfold NewestLeavesMiddle
  rcases hlast : w.trades.getLast? with _ | newest
  · have hempty := List.getLast?_eq_none_iff.mp hlast
    refine iff_of_true ?_ (by simp)
    rw [volumeMedian, sorted_real, sampleMedian, priorQuantities, hempty]
    exact median_real _
  · rw [volumeMedian_of_getLast? hlast, sampleMedian,
      middle_displace_eq_iff _ (ascending_sorted _)]
    simp

/-- A trade of two units. -/
noncomputable def doubleLot : Trade ℝ :=
  { realTradeAt 0 with quantity := (2 : ℚ), quantity_pos := by simp }

/-- Two units and then one: the baseline is the one unit of the newest trade,
not the two units before it. -/
theorem volumeMedian_includes_newest :
    ¬ ∀ w : SymbolWindow ℝ, w.volumeMedian = sampleMedian w.priorQuantities := by
  intro h
  have hwindow := h ⟨"ACME", 200, 300, [doubleLot, realTradeAt 1]⟩
  have hlast : ([doubleLot, realTradeAt 1] : List (Trade ℝ)).getLast? = some (realTradeAt 1) := rfl
  have hsmall : (1 : ℝ) ≤ 2 := by norm_num
  rw [volumeMedian_of_getLast? hlast] at hwindow
  simp [priorQuantities, doubleLot, realTradeAt, sampleMedian, ascending, displace, middle,
    hsmall] at hwindow

end SymbolWindow

namespace VolumeSpikeDetector

/-- The alert on a trade whose quantity is judged against `median`. -/
noncomputable def spikeAlert (cfg : VolumeSpikeConfig ℝ) (trade : Trade ℝ) (median : ℝ) :
    Alert ℝ :=
  let ratio := trade.quantity / median
  let severity := if cfg.criticalMultiplier ≤ ratio then Severity.critical else .high
  let reason := s!"quantity {format trade.quantity (.fixed 2)} is " ++
    s!"{format ratio (.fixed 1)}x median size {format median (.fixed 2)}"
  Alert.build trade name severity
    (pyMin (ofRat 1) (ratio / max cfg.criticalMultiplier (ofRat (1 / 10 ^ 9)))) reason
    [("ratio", .float (round ratio 2)), ("median_quantity", .float (round median 4)),
      ("notional", .float (round trade.notional 2))]

/-- The rule that the detector stands for: a warmed-up window, and a quantity of
at least `medianMultiplier` times the median of the other trades. -/
noncomputable def priorMedianRule (cfg : VolumeSpikeConfig ℝ) (minTrades : ℤ) (trade : Trade ℝ)
    (w : SymbolWindow ℝ) : Option (Alert ℝ) :=
  let median := sampleMedian w.priorQuantities
  if w.ready minTrades ∧ 0 < median ∧ cfg.medianMultiplier * median ≤ trade.quantity then
    some (spikeAlert cfg trade median)
  else none

/-- What the detector does, with the window's own median. -/
theorem inspect_real (cfg : VolumeSpikeConfig ℝ) (minTrades : ℤ) (trade : Trade ℝ)
    (w : SymbolWindow ℝ) :
    inspect cfg minTrades trade w =
      .ok (if w.ready minTrades ∧ 0 < w.volumeMedian ∧
          cfg.medianMultiplier * w.volumeMedian ≤ trade.quantity then
        some (spikeAlert cfg trade w.volumeMedian)
      else none) := by
  have hshare := trueDiv_pyMax_real (q := 1 / 10 ^ 9) (by norm_num)
    (trade.quantity / w.volumeMedian) cfg.criticalMultiplier
  unfold inspect
  cases hready : w.ready minTrades with
  | false => simp
  | true =>
      rcases le_or_gt w.volumeMedian 0 with hnone | hpos
      · simp [hnone, not_lt.mpr hnone]
      · have hlimit : cfg.medianMultiplier * w.volumeMedian ≤ trade.quantity ↔
            cfg.medianMultiplier ≤ trade.quantity / w.volumeMedian := (le_div_iff₀ hpos).symm
        simp only [hlimit, hpos, not_le.mpr hpos, le_real, lt_real, ofRat_real, Rat.cast_zero,
          trueDiv_real hpos.ne', hshare, bind, Except.bind, pure, Except.pure, true_and,
          Bool.not_true, Bool.false_eq_true, if_false]
        rcases lt_or_ge (trade.quantity / w.volumeMedian) cfg.medianMultiplier with hlow | hhigh
        · rw [if_pos hlow, if_neg (not_le.mpr hlow)]
        · rw [if_neg (not_lt.mpr hhigh), if_pos hhigh]
          rfl

/-- With a multiplier of two or more the detector follows the rule: where either
median lets the trade through, the quantity is twice that median or more, and
then the two medians are one. -/
theorem inspect_eq_priorMedianRule (cfg : VolumeSpikeConfig ℝ) (hk : 2 ≤ cfg.medianMultiplier)
    (minTrades : ℤ) (trade : Trade ℝ) (w : SymbolWindow ℝ)
    (hlast : w.trades.getLast? = some trade) :
    inspect cfg minTrades trade w = .ok (priorMedianRule cfg minTrades trade w) := by
  let prior := ascending w.priorQuantities
  have hsorted : prior.Pairwise (· ≤ ·) := ascending_sorted _
  have hpos : ∀ y ∈ prior, 0 < y := w.priorQuantities_pos
  have hcode : w.volumeMedian = middle (displace trade.quantity prior) :=
    SymbolWindow.volumeMedian_of_getLast? hlast
  have hrule : sampleMedian w.priorQuantities = middle prior := rfl
  have htwice : ∀ median : ℝ, 0 < median → cfg.medianMultiplier * median ≤ trade.quantity →
      2 * median ≤ trade.quantity := by
    intro median hmedian hle
    exact (mul_le_mul_of_nonneg_right hk hmedian.le).trans hle
  have hagree : LeavesMiddle trade.quantity prior →
      w.volumeMedian = sampleMedian w.priorQuantities := by
    intro hleaves
    rw [hcode, hrule, middle_displace_eq_iff _ hsorted]
    exact hleaves
  rw [inspect_real, priorMedianRule]
  by_cases hsame : w.volumeMedian = sampleMedian w.priorQuantities
  · rw [hsame]
  · -- where the medians differ, neither of them lets the trade through
    have hnotCode : ¬ (0 < w.volumeMedian ∧
        cfg.medianMultiplier * w.volumeMedian ≤ trade.quantity) := by
      rintro ⟨hmedian, hle⟩
      have hreach := htwice _ hmedian hle
      rw [hcode] at hreach
      exact hsame (hagree (leavesMiddle_of_two_mul_displace_le hsorted hpos trade.quantity_pos_real
        hreach))
    have hnotRule : ¬ (0 < sampleMedian w.priorQuantities ∧
        cfg.medianMultiplier * sampleMedian w.priorQuantities ≤ trade.quantity) := by
      rintro ⟨hmedian, hle⟩
      exact hsame (hagree (leavesMiddle_of_two_mul_le hsorted hpos (htwice _ hmedian hle)))
    simp only [hnotCode, hnotRule, and_false, if_false]

/-- A trade of some units, in doubles. -/
def roundedLot (quantity : ℚ) (hpos : 0 < quantity) : Trade Double where
  tradeId := "t"
  timestamp := 0
  symbol := "ACME"
  price := ofRat 100
  quantity := ofRat quantity
  side := .buy
  accountId := none
  counterpartyId := none
  venue := none
  currency := "USD"
  price_pos := by decide +kernel
  quantity_pos := by
    have hrounded := nearest_pos hpos
    rw [← nearest_zero] at hrounded
    exact decide_eq_true hrounded

/-- A trade next to nothing, one of three units, and one of two and a half. -/
def roundedLots : SymbolWindow Double :=
  ⟨"ACME", 200, 300, [roundedLot (1 / 10 ^ 20) (by norm_num), roundedLot 3 (by norm_num),
    roundedLot (5 / 2) (by norm_num)]⟩

/-- In doubles a quantity can be twice the window's median and less than twice the median
of the other trades: the sum of 2.5 and almost nothing is 2.5, so the window's median is
1.25, and the other trades' is 1.5. -/
theorem not_priorMedianRule_rounded :
    ¬ ∀ (cfg : VolumeSpikeConfig Double) (minTrades : ℤ) (trade : Trade Double)
        (w : SymbolWindow Double), le (ofRat 2) cfg.medianMultiplier →
        w.trades.getLast? = some trade →
      let others := median (sorted w.priorQuantities)
      ((inspect cfg minTrades trade w).toOption.join.isSome ↔
        w.ready minTrades ∧ lt (ofRat 0) others ∧
          le (mul cfg.medianMultiplier others) trade.quantity) := by
  intro h
  have hrule := h { medianMultiplier := ofRat 2 } 2 (roundedLot (5 / 2) (by norm_num)) roundedLots
    (by decide +kernel) rfl
  have halert : (inspect { medianMultiplier := ofRat 2 } 2 (roundedLot (5 / 2) (by norm_num))
      roundedLots).toOption.join.isSome := by
    decide +kernel
  have hsmall : ¬ le (mul (ofRat 2) (median (sorted roundedLots.priorQuantities)))
      (ofRat (5 / 2) : Double) := by
    decide +kernel
  exact hsmall (hrule.mp halert).2.2

/-- A trade of ten units. -/
noncomputable def blockTrade : Trade ℝ :=
  { realTradeAt 1 with quantity := (10 : ℚ), quantity_pos := by simp }

theorem inspect_eq_priorMedianRule_block :
    ∃ alert, inspect {} 0 blockTrade ⟨"ACME", 200, 300, [realTradeAt 0, blockTrade]⟩ =
      .ok (some alert) := by
  have hk : (2 : ℝ) ≤ ({} : VolumeSpikeConfig ℝ).medianMultiplier := by
    simp only [ofRat_real]
    norm_num
  have hmedian : sampleMedian [(1 : ℝ)] = 1 := by
    simp [sampleMedian, ascending, middle]
  have hprior : (⟨"ACME", 200, 300, [realTradeAt 0, blockTrade]⟩ :
      SymbolWindow ℝ).priorQuantities = [1] := rfl
  have hrule := inspect_eq_priorMedianRule {} hk 0 blockTrade
    ⟨"ACME", 200, 300, [realTradeAt 0, blockTrade]⟩ rfl
  rw [priorMedianRule, hprior, hmedian, if_pos] at hrule
  · exact ⟨_, hrule⟩
  · refine ⟨rfl, one_pos, ?_⟩
    simp only [blockTrade, ofRat_real]
    norm_num

end VolumeSpikeDetector

end TradeWatch
