import TradeWatch.Velocity

/-!
What velocity, spoofing and matched-cross alerts are raised on. All three ask
the window for the trades not older than a cutoff, and the cutoff is the only
bound they set, so a trade that is later than the one being judged passes for
recent. Whatever the rules, the evidence lies within the span that ends at the
judged trade in exactly the runs in which the window holds no later trade.
-/

namespace TradeWatch

open PyFloat Transducer

section Evidence

variable {F : Type} [PyFloat F]

namespace WashTradeDetector

/-- The other leg of a cross: another trade of the account on the opposite
side that matches in price and size. -/
def isLeg (cfg : WashTradeConfig F) (trade : Trade F) (opposite : Side) (other : Trade F) :
    Bool :=
  other.tradeId ≠ trade.tradeId && other.accountId = trade.accountId &&
    other.side = opposite &&
    match trueDiv (abs (sub other.price trade.price)) trade.price,
        relClose other.quantity trade.quantity cfg.quantityTolerance with
    | .ok apart, .ok close => le apart cfg.priceTolerance && close
    | _, _ => false

/-- The loop finds the first leg. -/
theorem find?_of_findCross {cfg : WashTradeConfig F} {trade : Trade F} {opposite : Side}
    {recent : List (Trade F)} {found : Option (Trade F)}
    (h : findCross cfg trade opposite recent = .ok found) :
    recent.find? (isLeg cfg trade opposite) = found := by
  induction recent with
  | nil => exact Except.ok.inj h
  | cons first rest ih =>
      unfold findCross at h
      split_ifs at h with hother hside
      · have hnot : isLeg cfg trade opposite first = false := by
          unfold isLeg
          rcases hother with hid | haccount
          · simp [hid]
          · simp [haccount]
        rw [List.find?_cons_of_neg (by simp [hnot])]
        exact ih h
      · have hnot : isLeg cfg trade opposite first = false := by
          simp [isLeg, hside]
        rw [List.find?_cons_of_neg (by simp [hnot])]
        exact ih h
      · obtain ⟨hid, haccount⟩ := not_or.mp hother
        rw [not_not] at haccount hside
        cases hprice : trueDiv (abs (sub first.price trade.price)) trade.price with
        | error err => simp [hprice, bind, Except.bind] at h
        | ok apart =>
            cases hqty : relClose first.quantity trade.quantity cfg.quantityTolerance with
            | error err => simp [hprice, hqty, bind, Except.bind] at h
            | ok close =>
                have hleg : isLeg cfg trade opposite first =
                    (le apart cfg.priceTolerance && close) := by
                  simp [isLeg, hid, haccount, hside, hprice, hqty]
                simp only [hprice, hqty, bind, Except.bind] at h
                split_ifs at h with hmatch
                · rw [List.find?_cons_of_pos (hleg.trans hmatch), Except.ok.inj h]
                · rw [List.find?_cons_of_neg (by rwa [hleg])]
                  exact ih h

/-- The leg that arrived last, among the trades not older than the cutoff. -/
def newestLeg (cfg : WashTradeConfig F) (trade : Trade F) (window : SymbolWindow F) :
    Option (Trade F) :=
  (window.reaching trade.timestamp cfg.windowSeconds).reverse.find?
    (isLeg cfg trade (if trade.side = .buy then .sell else .buy))

theorem newestLeg_of_matchedCross {cfg : WashTradeConfig F} {trade : Trade F}
    {window : SymbolWindow F} {found : Option (Trade F)}
    (h : matchedCross cfg trade window = .ok found) : newestLeg cfg trade window = found := by
  simp only [matchedCross, EventTime.timestamp_exact, SymbolWindow.recent_some, bind,
    Except.bind] at h
  exact find?_of_findCross h

end WashTradeDetector

namespace ShippedDetector

variable {M : Type}

/-- The span that a detector looks back over, if it looks back at all. -/
def windowSeconds : ShippedDetector F M → Option ℚ
  | velocity cfg => some cfg.windowSeconds
  | spoofing cfg => some cfg.windowSeconds
  | washTrade cfg => some cfg.windowSeconds
  | zscore _ _ | priceSpike _ | volumeSpike _ _ | isolationForest _ => none

/-- The trades that a detector counts (velocity, spoofing) or matches (the
cross of a wash trade) when it judges `trade`. -/
def evidence (d : ShippedDetector F M) (trade : Trade F) (window : SymbolWindow F) :
    List (Trade F) :=
  match d with
  | velocity cfg => (window.recent cfg.windowSeconds (some trade.timestamp)).toOption.getD []
  | spoofing cfg => (window.recent cfg.windowSeconds).toOption.getD []
  | washTrade cfg =>
      if WashTradeDetector.selfTrade trade then []
      else ((WashTradeDetector.matchedCross cfg trade window).toOption.getD none).toList
  | zscore _ _ | priceSpike _ | volumeSpike _ _ | isolationForest _ => []

/-- The evidence of the counting detectors is what the window holds past the cutoff. -/
theorem evidence_counted (w : SymbolWindow F) (trade : Trade F) :
    (∀ cfg, (velocity cfg : ShippedDetector F M).evidence trade (w.add trade).2 =
        (w.add trade).2.reaching trade.timestamp cfg.windowSeconds) ∧
      ∀ cfg, (spoofing cfg : ShippedDetector F M).evidence trade (w.add trade).2 =
        (w.add trade).2.reaching trade.timestamp cfg.windowSeconds := by
  constructor
  · intro cfg
    rw [evidence, SymbolWindow.recent_add w trade _ (by simp)]
    simp [Except.toOption]
  · intro cfg
    rw [evidence, SymbolWindow.recent_add w trade _ (by simp)]
    simp [Except.toOption]

/-- All evidence respects the cutoff. -/
theorem mem_of_mem_evidence {w : SymbolWindow F} {trade x : Trade F} {d : ShippedDetector F M}
    {span : ℚ} (hspan : d.windowSeconds = some span)
    (hx : x ∈ d.evidence trade (w.add trade).2) :
    x ∈ (w.add trade).2.trades ∧ trade.timestamp - span ≤ x.timestamp := by
  have hreaching : x ∈ (w.add trade).2.reaching trade.timestamp span →
      x ∈ (w.add trade).2.trades ∧ trade.timestamp - span ≤ x.timestamp := by
    intro h
    obtain ⟨hmem, hyoung⟩ := List.mem_filter.mp h
    exact ⟨hmem, of_decide_eq_true hyoung⟩
  cases d with
  | velocity cfg =>
      obtain rfl := Option.some.inj hspan
      rw [(evidence_counted w trade).1] at hx
      exact hreaching hx
  | spoofing cfg =>
      obtain rfl := Option.some.inj hspan
      rw [(evidence_counted w trade).2] at hx
      exact hreaching hx
  | washTrade cfg =>
      obtain rfl := Option.some.inj hspan
      unfold evidence at hx
      split_ifs at hx
      · exact absurd hx List.not_mem_nil
      · cases hfound : WashTradeDetector.matchedCross cfg trade (w.add trade).2 with
        | error err => simp [hfound, Except.toOption] at hx
        | ok found =>
            simp only [hfound, Except.toOption, Option.getD_some, Option.mem_toList] at hx
            have hleg := WashTradeDetector.newestLeg_of_matchedCross hfound
            rw [hx] at hleg
            exact hreaching (List.mem_reverse.mp (List.mem_of_find?_eq_some hleg))
  | zscore cfg minTrades => cases hspan
  | priceSpike cfg => cases hspan
  | volumeSpike cfg minTrades => cases hspan
  | isolationForest d => cases hspan

end ShippedDetector

end Evidence

namespace DetectionEngine

variable {F M : Type} [PyFloat F]

/-- The detector looks back over `span` and has a result for the trade. -/
def FiresOver (e : DetectionEngine (ShippedDetector F M) F) (trade : Trade F)
    (d : ShippedDetector F M) (span : ℚ) : Prop :=
  d ∈ e.detectors ∧ d.windowSeconds = some span ∧
    (alertOf (Detector.inspect d trade (e.windowAfter trade)).1).isSome

/-- Every time one of these detectors fires in the run, its evidence lies in
the span that ends at the judged trade. -/
def EvidenceRecent (start : DetectionEngine (ShippedDetector F M) F) (trades : List (Trade F)) :
    Prop :=
  ∀ before trade after, trades = before ++ trade :: after →
    let e := final watch start before
    ∀ d span, FiresOver e trade d span →
      ∀ x ∈ d.evidence trade (e.windowAfter trade),
        trade.timestamp - span ≤ x.timestamp ∧ x.timestamp ≤ trade.timestamp

/-- At no trade of the stream the symbol's window, which holds it, holds a later one. -/
def NoneLater (window : WindowConfig) (trades : List (Trade F)) : Prop :=
  ∀ before trade after, trades = before ++ trade :: after →
    let fresh : SymbolWindow F := ⟨trade.symbol, window.maxTrades, window.horizonSeconds, []⟩
    let tape := before.filter (fun t => t.symbol = trade.symbol) ++ [trade]
    ∀ x ∈ (fresh.replay tape).trades, x.timestamp ≤ trade.timestamp

variable (sklearn : SkLearn F M)

theorem evidenceRecent_of_noneLater (cfg : DetectionConfig F) {trades : List (Trade F)}
    (h : NoneLater cfg.window trades) : EvidenceRecent (init sklearn cfg) trades := by
  intro before trade after hsplit e d span hfires x hx
  obtain ⟨hmem, hyoung⟩ := ShippedDetector.mem_of_mem_evidence
    (w := e.windows.window trade.symbol) hfires.2.1 hx
  have hwindow := windowAfter_eq_replay sklearn cfg before trade
  rw [windowAfter] at hwindow
  exact ⟨hyoung, h before trade after hsplit x (hwindow ▸ hmem)⟩

/-- A velocity rule that one trade sets off, over no span at all. -/
def anyTrade : VelocityConfig := { maxTrades := 1, windowSeconds := 0 }

theorem anyTrade_fires {trade x : Trade F} {window : SymbolWindow F}
    (hx : x ∈ window.reaching trade.timestamp anyTrade.windowSeconds) :
    (alertOf (VelocityDetector.inspect anyTrade trade window)).isSome := by
  have hcount : window.countWithin anyTrade.windowSeconds (some trade.timestamp) =
      .ok (window.reaching trade.timestamp anyTrade.windowSeconds).length := by
    rw [SymbolWindow.countWithin_eq_length_recent, SymbolWindow.recent_some]
    rfl
  refine (VelocityDetector.inspect_isSome hcount).mpr ?_
  change (1 : ℤ) ≤ _
  exact_mod_cast List.length_pos_of_mem hx

/-- Velocity, spoofing and matched-cross alerts use evidence from the span that
ends at the judged trade, whatever the rules are, in exactly the runs in which the
window holds no later trade. -/
theorem evidence_recent (window : WindowConfig) (trades : List (Trade F)) :
    (∀ cfg : DetectionConfig F, cfg.window = window →
        EvidenceRecent (init sklearn cfg) trades) ↔ NoneLater window trades := by
  constructor
  · intro h before trade after hsplit fresh tape x hx
    let cfg : DetectionConfig F := { window := window, velocity := anyTrade }
    let d : ShippedDetector F M := .velocity anyTrade
    have hbuilt : d ∈ (init sklearn cfg).detectors := by
      simp [init, start, buildDetectors, cfg, d, anyTrade]
    have hmem := mem_final_of_stateless (init sklearn cfg) (fun _ _ => rfl) hbuilt before
    let e := final watch (init sklearn cfg) before
    have hwindow : e.windowAfter trade = fresh.replay tape :=
      windowAfter_eq_replay sklearn cfg before trade
    by_contra hlater
    rw [not_le] at hlater
    have hreaching : x ∈ (e.windowAfter trade).reaching trade.timestamp
        anyTrade.windowSeconds := by
      rw [hwindow]
      exact List.mem_filter.mpr ⟨hx, by simpa [anyTrade] using hlater.le⟩
    have hcounted : x ∈ d.evidence trade (e.windowAfter trade) := by
      have hevidence := (ShippedDetector.evidence_counted (M := M)
        (e.windows.window trade.symbol) trade).1 anyTrade
      rw [windowAfter] at hreaching ⊢
      rwa [hevidence]
    have hrecent := h cfg rfl before trade after hsplit d 0
      ⟨hmem, rfl, anyTrade_fires hreaching⟩ x hcounted
    exact absurd hrecent.2 (not_le.mpr hlater)
  · rintro h cfg rfl
    exact evidenceRecent_of_noneLater sklearn cfg h

/-- One leg of a cross of an account with itself. -/
def crossLeg (tradeId : String) (timestamp : ℚ) (side : Side) : Trade ℚ :=
  { selfTradeAt tradeId timestamp with side := side, counterpartyId := none }

theorem evidence_recent_cross_in_order :
    EvidenceRecent (init .missing {}) [crossLeg "a" 100 .buy, crossLeg "b" 101 .sell] := by
  refine (evidence_recent .missing {} [crossLeg "a" 100 .buy, crossLeg "b" 101 .sell]).mpr
    ?_ {} rfl
  intro before trade after hsplit
  rcases before with _ | ⟨first, _ | ⟨second, rest⟩⟩
  · obtain ⟨rfl, rfl⟩ := List.cons.inj hsplit
    decide +kernel
  · obtain ⟨rfl, hrest⟩ := List.cons.inj hsplit
    obtain ⟨rfl, rfl⟩ := List.cons.inj hrest
    decide +kernel
  · simp at hsplit

/-- A leg at 100 s is matched as a recent trade when the other leg comes in
with event time 0 s. -/
theorem evidence_not_recent_cross_late :
    ¬ EvidenceRecent (init .missing {}) [crossLeg "a" 100 .buy, crossLeg "b" 0 .sell] := by
  intro h
  have hbuilt : ShippedDetector.washTrade {} ∈
      (init .missing ({} : DetectionConfig ℚ)).detectors := by
    simp [init, start, buildDetectors]
  have hmem := mem_final_of_stateless (init .missing {}) (fun _ _ => rfl) hbuilt
    [crossLeg "a" 100 .buy]
  have hfires : FiresOver (final watch (init .missing {}) [crossLeg "a" 100 .buy])
      (crossLeg "b" 0 .sell) (.washTrade {}) 5 :=
    ⟨hmem, rfl, by decide +kernel⟩
  have hmatched : crossLeg "a" 100 .buy ∈
      (ShippedDetector.washTrade {} : ShippedDetector ℚ Unit).evidence (crossLeg "b" 0 .sell)
      ((final watch (init .missing {}) [crossLeg "a" 100 .buy]).windowAfter
        (crossLeg "b" 0 .sell)) := by
    decide +kernel
  obtain ⟨_, hle⟩ := h [crossLeg "a" 100 .buy] (crossLeg "b" 0 .sell) [] rfl _ 5 hfires _ hmatched
  exact absurd hle (by decide +kernel)

end DetectionEngine

end TradeWatch
