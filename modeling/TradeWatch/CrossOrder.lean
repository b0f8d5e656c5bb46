import TradeWatch.Crosses

/-!
Two legs of one account in either order of arrival. The sizes are compared in
units of the larger one, whichever leg came first, but the prices in units of
the newer one. The order of arrival decides exactly when the two prices are too
far apart for the lower of them and close enough for the higher.
-/

namespace TradeWatch

open PyFloat Transducer

section Pair

variable {F : Type} [PyFloat F]

/-- The same trade at another time. -/
def Trade.withTime (trade : Trade F) (timestamp : ℚ) : Trade F :=
  { trade with timestamp := timestamp }

/-- A fresh window still holds the first of two trades if it has room for both
and reaches back to the first. -/
theorem SymbolWindow.first_mem_replay_pair {w : SymbolWindow F} (hempty : w.trades = [])
    {first second : Trade F} (hne : first ≠ second) (horder : first.timestamp ≤ second.timestamp) :
    first ∈ (w.replay [first, second]).trades ↔
      2 ≤ w.maxTrades ∧ second.timestamp - first.timestamp ≤ w.horizonSeconds := by
  rcases lt_or_ge w.maxTrades 0 with hneg | hnonneg
  · have hgone : (w.replay [first, second]).trades = [] := by
      rw [replay_cons, replay_cons, replay_nil, add_of_neg (by simpa using hneg) rfl]
    rw [hgone]
    simp only [List.not_mem_nil, false_iff]
    omega
  · rcases lt_or_ge w.horizonSeconds 0 with hshort | hhorizon
    · -- the cutoff lies after the newest trade, so nothing stays
      have hgone : (w.replay [first, second]).trades = [] := by
        have hheld := (w.add_suffix first).subset
        rw [replay_cons, replay_cons, replay_nil, trades_add_of_nonneg (by simpa using hnonneg),
          List.dropWhile_eq_nil_iff]
        intro x hx
        have hgiven : x = first ∨ x = second := by
          have hmem := (Suffix.rtake_suffix _ _).subset hx
          rw [List.mem_append, List.mem_singleton] at hmem
          exact hmem.imp_left fun h => by simpa [hempty] using hheld h
        have hold : x.timestamp < second.timestamp - w.horizonSeconds := by
          rcases hgiven with rfl | rfl <;> linarith
        simp only [notOlder, add_horizonSeconds, Bool.not_eq_true', decide_eq_false_iff_not, not_le]
        exact hold
      rw [hgone]
      simp only [List.not_mem_nil, false_iff]
      rintro ⟨_, hyoung⟩
      linarith
    · have hpair : InOrder ([first] ++ [second]) := by simpa [InOrder] using horder
      have htrades := replay_trades hnonneg hhorizon hempty [first] second hpair
      have hsecond : notOlder (second.timestamp - w.horizonSeconds) second = true := by
        simpa [notOlder] using hhorizon
      rw [List.singleton_append] at htrades
      rw [htrades]
      by_cases hyoung : second.timestamp - first.timestamp ≤ w.horizonSeconds
      · have hfirst : notOlder (second.timestamp - w.horizonSeconds) first = true := by
          simp only [notOlder, decide_eq_true_eq]
          linarith
        obtain ⟨room, hroom⟩ := Int.eq_ofNat_of_zero_le hnonneg
        simp only [hfirst, hsecond, List.filter_cons_of_pos, List.filter_nil, hyoung, and_true,
          hroom, Int.toNat_natCast]
        rcases room with _ | _ | room
        · simp [List.rtake]
        · simpa [List.rtake] using hne
        · simp [List.rtake]
          omega
      · have hfirst : notOlder (second.timestamp - w.horizonSeconds) first = false := by
          simp only [notOlder, decide_eq_false_iff_not]
          linarith
        apply iff_of_false _ (fun h => hyoung h.2)
        intro hmem
        have hkept := (Suffix.rtake_suffix _ _).mem hmem
        rw [List.mem_filter, hfirst] at hkept
        exact absurd hkept.2 (by decide)

end Pair

namespace WashTradeDetector

/-- Run on a tape of two, an engine shows the wash-trade detector the second
trade, and the detector raises an alert. -/
def FlagsSecond {M : Type} (sklearn : SkLearn ℝ M) (cfg : DetectionConfig ℝ)
    (first second : Trade ℝ) : Prop :=
  ∃ alert, inspect cfg.washTrade second
    ((final DetectionEngine.watch (.init sklearn cfg) [first]).windowAfter second) =
      .ok (some alert)

/-- The two trades are flagged alike whichever comes first, at the same two
times. -/
def OrderIndependent {M : Type} (sklearn : SkLearn ℝ M) (cfg : DetectionConfig ℝ)
    (a b : Trade ℝ) : Prop :=
  FlagsSecond sklearn cfg a b ↔
    FlagsSecond sklearn cfg (b.withTime a.timestamp) (a.withTime b.timestamp)

/-- The sizes match, in units of the larger one. -/
def SizesMatch (cfg : WashTradeConfig ℝ) (a b : Trade ℝ) : Prop :=
  |a.quantity - b.quantity| ≤
    cfg.quantityTolerance * max (max a.quantity b.quantity) sizeFloor

/-- The prices are too far apart for the lower of them and close enough for the
higher. -/
def PriceBetweenTolerances (cfg : WashTradeConfig ℝ) (a b : Trade ℝ) : Prop :=
  cfg.priceTolerance * min a.price b.price < |a.price - b.price| ∧
    |a.price - b.price| ≤ cfg.priceTolerance * max a.price b.price

/-- Both trades fit into the window of their symbol. -/
def WindowHolds (cfg : WindowConfig) (a b : Trade ℝ) : Prop :=
  2 ≤ cfg.maxTrades ∧ b.timestamp - a.timestamp ≤ cfg.horizonSeconds

section Legs

variable {M : Type} (sklearn : SkLearn ℝ M) (cfg : DetectionConfig ℝ)

/-- When the second of two legs is flagged. -/
theorem flagsSecond_iff (first second : Trade ℝ) (hsymbol : first.symbol = second.symbol)
    (haccount : first.accountId = second.accountId) (hside : first.side ≠ second.side)
    (hids : first.tradeId ≠ second.tradeId) (hself : selfTrade second = false)
    (horder : first.timestamp ≤ second.timestamp)
    (hgap : second.timestamp - first.timestamp ≤ cfg.washTrade.windowSeconds) :
    FlagsSecond sklearn cfg first second ↔
      truthy second.accountId ∧ WindowHolds cfg.window first second ∧
        |first.price - second.price| ≤ cfg.washTrade.priceTolerance * second.price ∧
        SizesMatch cfg.washTrade first second := by
  have hne : first ≠ second := fun h => hids (congrArg Trade.tradeId h)
  let opposite := if second.side = .buy then Side.sell else .buy
  let fresh : SymbolWindow ℝ :=
    ⟨second.symbol, cfg.window.maxTrades, cfg.window.horizonSeconds, []⟩
  have hwindow : (final DetectionEngine.watch (.init sklearn cfg) [first]).windowAfter second =
      fresh.replay [first, second] := by
    rw [DetectionEngine.windowAfter_eq_replay]
    simp [hsymbol, fresh]
  have hheld : first ∈ (fresh.replay [first, second]).trades ↔
      WindowHolds cfg.window first second :=
    SymbolWindow.first_mem_replay_pair rfl hne horder
  have hrecent : second.timestamp - cfg.washTrade.windowSeconds ≤ first.timestamp := by linarith
  have hleg : isLeg cfg.washTrade second opposite first = true ↔
      |first.price - second.price| ≤ cfg.washTrade.priceTolerance * second.price ∧
        SizesMatch cfg.washTrade first second := by
    rw [isLeg_real _ _ _ hrecent]
    exact ⟨fun h => ⟨h.2.price, h.2.quantity⟩,
      fun h => ⟨hids, hrecent, haccount, hside, h.1, h.2⟩⟩
  have hself' : isLeg cfg.washTrade second opposite second = false := by simp [isLeg]
  have hfound : (newestLeg cfg.washTrade second (fresh.replay [first, second])).isSome ↔
      first ∈ (fresh.replay [first, second]).trades ∧
        isLeg cfg.washTrade second opposite first = true := by
    rw [newestLeg, List.find?_isSome, SymbolWindow.reaching_eq_filter]
    constructor
    · rintro ⟨other, hother, hmatch⟩
      rw [List.mem_reverse, List.mem_filter] at hother
      have hgiven := (fresh.replay_sublist [first, second]).subset hother.1
      simp only [fresh, List.nil_append, List.mem_cons, List.not_mem_nil, or_false] at hgiven
      rcases hgiven with rfl | rfl
      · exact ⟨hother.1, hmatch⟩
      · rw [hself'] at hmatch
        cases hmatch
    · rintro ⟨hmem, hmatch⟩
      refine ⟨first, ?_, hmatch⟩
      rw [List.mem_reverse, List.mem_filter]
      exact ⟨hmem, by simpa [notOlder] using hrecent⟩
  unfold FlagsSecond
  rw [hwindow, inspect_real, hself]
  cases haccountSet : truthy second.accountId with
  | false => simp
  | true =>
      simp only [Bool.false_eq_true, if_false, if_true, Except.ok.injEq, true_and]
      rw [← Option.isSome_iff_exists, Option.isSome_map, hfound, hheld, hleg]

/-- The tolerances at the lower and at the higher price tell two prices apart
exactly when the one at `a` and the one at `b` do. -/
theorem priceBetweenTolerances_iff (cfg : WashTradeConfig ℝ) (a b : Trade ℝ) :
    PriceBetweenTolerances cfg a b ↔
      ¬ (|a.price - b.price| ≤ cfg.priceTolerance * a.price ↔
        |a.price - b.price| ≤ cfg.priceTolerance * b.price) := by
  have ha := a.price_pos_real
  have hb := b.price_pos_real
  have hgap := abs_nonneg (a.price - b.price)
  have hsign : ∀ x : ℝ, 0 < x → |a.price - b.price| ≤ cfg.priceTolerance * x →
      0 ≤ cfg.priceTolerance := by
    intro x hx hle
    exact nonneg_of_mul_nonneg_left (hgap.trans hle) hx
  unfold PriceBetweenTolerances
  rcases le_total a.price b.price with hle | hle
  · rw [min_eq_left hle, max_eq_right hle]
    constructor
    · rintro ⟨hfar, hclose⟩ hiff
      exact absurd (hiff.mpr hclose) (not_le.mpr hfar)
    · intro hdiffer
      by_cases hclose : |a.price - b.price| ≤ cfg.priceTolerance * b.price
      · exact ⟨not_le.mp fun hfar => hdiffer (iff_of_true hfar hclose), hclose⟩
      · refine absurd (iff_of_false (fun hfar => hclose ?_) hclose) hdiffer
        exact hfar.trans (mul_le_mul_of_nonneg_left hle (hsign _ ha hfar))
  · rw [min_eq_right hle, max_eq_left hle]
    constructor
    · rintro ⟨hfar, hclose⟩ hiff
      exact absurd (hiff.mp hclose) (not_le.mpr hfar)
    · intro hdiffer
      by_cases hclose : |a.price - b.price| ≤ cfg.priceTolerance * a.price
      · exact ⟨not_le.mp fun hfar => hdiffer (iff_of_true hclose hfar), hclose⟩
      · refine absurd (iff_of_false hclose (fun hfar => hclose ?_)) hdiffer
        exact hfar.trans (mul_le_mul_of_nonneg_left hle (hsign _ hb hfar))

/-- The order of arrival makes no difference exactly when the account is empty,
the window is too small for a cross, the sizes do not match, or the distance of the
prices is not between the tolerances at the two of them. -/
theorem orderIndependent_iff {a b : Trade ℝ} (hsymbol : a.symbol = b.symbol)
    (haccount : a.accountId = b.accountId) (hside : a.side ≠ b.side)
    (hids : a.tradeId ≠ b.tradeId) (hselfA : selfTrade a = false) (hselfB : selfTrade b = false)
    (horder : a.timestamp ≤ b.timestamp)
    (hgap : b.timestamp - a.timestamp ≤ cfg.washTrade.windowSeconds) :
    OrderIndependent sklearn cfg a b ↔
      truthy a.accountId = false ∨ ¬ WindowHolds cfg.window a b ∨ ¬ SizesMatch cfg.washTrade a b ∨
        ¬ PriceBetweenTolerances cfg.washTrade a b := by
  have hforward := flagsSecond_iff sklearn cfg a b hsymbol haccount hside hids hselfB horder hgap
  have hback := flagsSecond_iff sklearn cfg (b.withTime a.timestamp) (a.withTime b.timestamp)
    hsymbol.symm haccount.symm hside.symm hids.symm hselfA horder hgap
  have hsizes : SizesMatch cfg.washTrade (b.withTime a.timestamp) (a.withTime b.timestamp) ↔
      SizesMatch cfg.washTrade a b := by
    unfold SizesMatch
    rw [abs_sub_comm, max_comm (b.withTime a.timestamp).quantity]
    rfl
  have hwindow : WindowHolds cfg.window (b.withTime a.timestamp) (a.withTime b.timestamp) ↔
      WindowHolds cfg.window a b := Iff.rfl
  have hprice : |(b.withTime a.timestamp).price - (a.withTime b.timestamp).price| =
      |a.price - b.price| := abs_sub_comm _ _
  rw [OrderIndependent, hforward, hback, hsizes, hwindow, hprice, priceBetweenTolerances_iff,
    haccount, show (a.withTime b.timestamp).accountId = b.accountId from haccount,
    show (a.withTime b.timestamp).price = a.price from rfl]
  cases truthy b.accountId with
  | false => simp
  | true =>
      by_cases hheld : WindowHolds cfg.window a b <;>
        by_cases hmatch : SizesMatch cfg.washTrade a b <;> simp [hheld, hmatch, iff_comm]

end Legs

theorem orderIndependent_iff_equal_prices :
    OrderIndependent (M := Unit) .missing {} (leg "a" 0 .buy) (leg "b" 1 .sell) := by
  have hself : ∀ id ts side, selfTrade (leg id ts side) = false := by
    intro id ts side
    simp [selfTrade, leg, realTradeAt, truthy]
  apply (orderIndependent_iff .missing {} (a := leg "a" 0 .buy) (b := leg "b" 1 .sell) rfl rfl
    (by simp [leg]) (by simp [leg]) (hself _ _ _) (hself _ _ _) (by simp [leg, realTradeAt])
    (by simp only [leg, realTradeAt]; norm_num)).mpr
  refine Or.inr (Or.inr (Or.inr ?_))
  rintro ⟨hfar, _⟩
  simp [leg, realTradeAt] at hfar
  norm_num at hfar

/-- A leg at 100.10005, which is a thousandth of itself above 100, but more than a
thousandth of 100. -/
noncomputable def dearLeg (tradeId : String) (timestamp : ℚ) (side : Side) : Trade ℝ :=
  { leg tradeId timestamp side with
    price := (2002001 / 20000 : ℚ)
    price_pos := by
      simp only [lt_real, ofRat_real, Rat.cast_lt]
      norm_num }

/-- The rise from 100 is flagged when the dearer leg comes second, and is not when
it comes first. -/
theorem not_orderIndependent_dearLeg :
    ¬ OrderIndependent (M := Unit) .missing {} (leg "a" 0 .buy) (dearLeg "b" 1 .sell) := by
  have hapart : |(100 : ℝ) - 2002001 / 20000| = 2001 / 20000 := by norm_num [abs_of_neg]
  have hself : selfTrade (dearLeg "b" 1 .sell) = false ∧ selfTrade (leg "a" 1 .buy) = false := by
    simp [selfTrade, dearLeg, leg, realTradeAt, truthy]
  have hflagged : FlagsSecond (M := Unit) .missing {} (leg "a" 0 .buy) (dearLeg "b" 1 .sell) := by
    rw [flagsSecond_iff .missing {} (leg "a" 0 .buy) (dearLeg "b" 1 .sell) rfl rfl
      (by simp [dearLeg, leg]) (by simp [dearLeg, leg]) hself.1
      (by simp [dearLeg, leg, realTradeAt])
      (by simp only [dearLeg, leg, realTradeAt]; norm_num)]
    refine ⟨rfl, ⟨by decide, ?_⟩, ?_, ?_⟩
    · simp only [dearLeg, leg, realTradeAt]
      norm_num
    · simp only [dearLeg, leg, realTradeAt]
      push_cast
      rw [hapart]
      norm_num
    · simp only [SizesMatch, dearLeg, leg, realTradeAt, sub_self, abs_zero, ofRat_real]
      positivity
  intro hsame
  have hother := (flagsSecond_iff .missing {} ((dearLeg "b" 1 .sell).withTime 0)
    ((leg "a" 0 .buy).withTime 1) rfl rfl (by simp [Trade.withTime, dearLeg, leg])
    (by simp [Trade.withTime, dearLeg, leg]) hself.2 (by simp [Trade.withTime])
    (by simp only [Trade.withTime]; norm_num)).mp (hsame.mp hflagged)
  have hprice := hother.2.2.1
  simp only [Trade.withTime, dearLeg, leg, realTradeAt] at hprice
  push_cast at hprice
  rw [abs_sub_comm, hapart] at hprice
  norm_num at hprice

end WashTradeDetector

end TradeWatch
