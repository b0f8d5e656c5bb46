import TradeWatch.Cooldown
import TradeWatch.Tape

/-!
The velocity detector end to end, against the tape. Three mechanisms stand
between a burst of trades and its alert: eviction by count, eviction by age and
the cooldown. With the window at least as large as the limit and the horizon at
least as long as the span neither eviction hides a burst, and the cooldown only
hides it behind an alert that is still recent.
-/

namespace TradeWatch

open PyFloat Transducer

/-- The tape of one symbol of an ordered stream is in order. -/
theorem SymbolOrdered.tape {F : Type} [PyFloat F] {trades : List (Trade F)}
    (h : SymbolOrdered trades) (symbol : String) :
    InOrder (trades.filter (fun t => t.symbol = symbol)) := by
  refine (List.Pairwise.filter (fun t : Trade F => t.symbol = symbol) h).imp_of_mem ?_
  intro a b ha hb hab
  have hsa : a.symbol = symbol := by simpa using (List.mem_filter.mp ha).2
  have hsb : b.symbol = symbol := by simpa using (List.mem_filter.mp hb).2
  exact hab (hsa.trans hsb.symm)

namespace VelocityDetector

variable {F : Type} [PyFloat F]

/-- Where the window can be counted the detector does not raise, and it fires exactly when
the count reaches the limit. -/
theorem inspect_isSome {cfg : VelocityConfig} {trade : Trade F} {window : SymbolWindow F}
    {count : ℕ} (hcount : window.countWithin cfg.windowSeconds (some trade.timestamp) = .ok count) :
    (DetectionEngine.alertOf (inspect cfg trade window)).isSome ↔ cfg.maxTrades ≤ count := by
  have hcritical : max cfg.criticalTrades 1 ≠ 0 := by omega
  simp only [inspect, EventTime.timestamp_exact, hcount, intDiv_eq_ok hcritical, bind, Except.bind]
  rcases lt_or_ge (count : ℤ) cfg.maxTrades with hfew | hmany
  · rw [if_pos hfew]
    simpa [DetectionEngine.alertOf] using hfew
  · rw [if_neg (not_lt.mpr hmany)]
    simpa [DetectionEngine.alertOf, pure, Except.pure] using hmany

end VelocityDetector

namespace DetectionEngine

section Run

variable {F M : Type} [PyFloat F]

variable (sklearn : SkLearn F M) (cfg : DetectionConfig F)

/-- The trades of the symbol seen by the end of `seen`, with event times in the
span that ends at `trade`. -/
def inSpan (seen : List (Trade F)) (trade : Trade F) (span : ℚ) : ℕ :=
  seen.countP (fun t => t.symbol = trade.symbol ∧ trade.timestamp - span ≤ t.timestamp ∧
    t.timestamp ≤ trade.timestamp)

/-- What the engine counts is what the tape holds, up to the window's size. -/
theorem countWithin_eq_inSpan (hmax : 0 ≤ cfg.window.maxTrades) {span : ℚ}
    (hnonneg : 0 ≤ span) (hspan : span ≤ cfg.window.horizonSeconds) (before : List (Trade F))
    (trade : Trade F) (horder : SymbolOrdered (before ++ [trade])) :
    ((final watch (init sklearn cfg) before).windowAfter trade).countWithin span
        (some trade.timestamp) =
      .ok (min cfg.window.maxTrades.toNat (inSpan (before ++ [trade]) trade span)) := by
  let tape := before.filter (fun t => t.symbol = trade.symbol)
  have hmem : ∀ t ∈ before, t.symbol = trade.symbol → t.timestamp ≤ trade.timestamp := by
    intro t ht hsymbol
    exact (List.pairwise_append.mp horder).2.2 t ht trade (by simp) hsymbol
  have htape : InOrder (tape ++ [trade]) := by
    have hordered := horder.tape trade.symbol
    simpa [tape] using hordered
  have hwindow : (final watch (init sklearn cfg) before).windowAfter trade =
      (⟨trade.symbol, cfg.window.maxTrades, cfg.window.horizonSeconds, []⟩ :
        SymbolWindow F).replay (tape ++ [trade]) := windowAfter_eq_replay sklearn cfg before trade
  have hcount : (tape ++ [trade]).countP (notOlder (trade.timestamp - span)) =
      inSpan (before ++ [trade]) trade span := by
    simp only [tape, inSpan, List.countP_append, List.countP_filter, List.countP_singleton]
    congr 1
    · apply List.countP_congr
      intro t ht
      simp only [notOlder, Bool.and_eq_true, decide_eq_true_eq]
      constructor
      · rintro ⟨hyoung, hsymbol⟩
        exact ⟨hsymbol, hyoung, hmem t ht hsymbol⟩
      · rintro ⟨hsymbol, hyoung, _⟩
        exact ⟨hyoung, hsymbol⟩
    · have hself : trade.timestamp - span ≤ trade.timestamp := by linarith
      simp [notOlder, hself]
  rw [hwindow, SymbolWindow.replay_countWithin hmax (hnonneg.trans hspan) rfl tape trade htape
    hspan, hcount]

/-- The detector has a result for the trade exactly when the tape holds a burst. -/
theorem velocity_fires_iff (henabled : cfg.velocity.enabled = true)
    (hlimit : 1 ≤ cfg.velocity.maxTrades) (hfits : cfg.velocity.maxTrades ≤ cfg.window.maxTrades)
    (hnonneg : 0 ≤ cfg.velocity.windowSeconds)
    (hspan : cfg.velocity.windowSeconds ≤ cfg.window.horizonSeconds) (before : List (Trade F))
    (trade : Trade F) (horder : SymbolOrdered (before ++ [trade])) :
    (∃ alert, (VelocityDetector.name, .ok (some alert)) ∈
        ((final watch (init sklearn cfg) before).watch trade).1.answers) ↔
      cfg.velocity.maxTrades ≤
        inSpan (before ++ [trade]) trade cfg.velocity.windowSeconds := by
  have hmax : 0 ≤ cfg.window.maxTrades := by omega
  have hbuilt : ShippedDetector.velocity cfg.velocity ∈ (init sklearn cfg).detectors := by
    simp [init, start, buildDetectors, henabled]
  have hfires := fires_iff_of_stateless sklearn cfg (fun _ _ => rfl) hbuilt hmax before trade
  have hcount := countWithin_eq_inSpan sklearn cfg hmax hnonneg hspan before trade horder
  refine hfires.trans ((VelocityDetector.inspect_isSome hcount).trans ?_)
  omega

/-- A call on a trade that ends a burst returns a velocity alert unless one that is still
recent was returned for the symbol; and a returned velocity alert always stands for a
burst. -/
def BurstsReported [EventTime F] (trades : List (Trade F)) : Prop :=
  ∀ before trade after, trades = before ++ trade :: after →
    let log := trace watch (init sklearn cfg) before
    let o := ((final watch (init sklearn cfg) before).watch trade).1
    let seen := inSpan (before ++ [trade]) trade cfg.velocity.windowSeconds
    (cfg.velocity.maxTrades ≤ seen →
        (∃ alert ∈ o.alerts, alert.detector = VelocityDetector.name) ∨
          ∃ entry ∈ emissions log trade.symbol VelocityDetector.name,
            trade.timestamp - cfg.alertCooldownSeconds < eventTime entry ∧
              eventTime entry ≤ trade.timestamp) ∧
      (∀ alert ∈ o.alerts, alert.detector = VelocityDetector.name →
        cfg.velocity.maxTrades ≤ seen)

/-- No burst is missed. -/
theorem velocity_burst_reported (henabled : cfg.velocity.enabled = true)
    (hlimit : 1 ≤ cfg.velocity.maxTrades) (hfits : cfg.velocity.maxTrades ≤ cfg.window.maxTrades)
    (hnonneg : 0 ≤ cfg.velocity.windowSeconds)
    (hspan : cfg.velocity.windowSeconds ≤ cfg.window.horizonSeconds)
    (hcooldown : 0 ≤ cfg.alertCooldownSeconds) (trades : List (Trade F))
    (horder : SymbolOrdered trades) : BurstsReported sklearn cfg trades := by
  intro before trade after hsplit log o seen
  let start := init sklearn cfg
  have hprefix : SymbolOrdered (before ++ [trade]) := horder.upTo hsplit
  have hnames : start.names.Nodup := init_names_nodup sklearn cfg
  have hlater : (final watch start before).names.Nodup := by rwa [start.final_names before]
  have hfires := velocity_fires_iff sklearn cfg henabled hlimit hfits hnonneg hspan before trade
    hprefix
  constructor
  · intro hburst
    obtain ⟨alert, hanswer⟩ := hfires.mpr hburst
    by_cases hout : alert ∈ o.alerts
    · obtain ⟨severity, score, reason, details, halert⟩ :=
        (final watch start before).built_of_mem_asked trade hanswer
      exact Or.inl ⟨alert, hout, by rw [halert, Alert.build]⟩
    · have hcovered := held_back_covered start hnames rfl hprefix hanswer hout
      rw [show start.cooldown = cfg.alertCooldownSeconds from max_eq_right hcooldown] at hcovered
      exact Or.inr hcovered
  · intro alert halert hdetector
    rw [(final watch start before).watch_alerts trade hlater, mem_sortAlerts] at halert
    obtain ⟨⟨name, answer⟩, hmem, hdue⟩ := List.mem_filterMap.mp halert
    obtain ⟨rfl, _⟩ := due_eq_some.mp hdue
    obtain ⟨severity, score, reason, details, rfl⟩ :=
      (final watch start before).built_of_mem_asked trade hmem
    obtain rfl : name = VelocityDetector.name := hdetector
    exact hfires.mp ⟨_, hmem⟩

theorem velocity_burst_reported_two_trades :
    let cfg : DetectionConfig ℚ := { velocity := { maxTrades := 2 } }
    2 ≤ inSpan [selfTradeAt "a" 0, selfTradeAt "b" 1] (selfTradeAt "b" 1) 5 ∧
      ∃ alert ∈ ((final watch (init .missing cfg) [selfTradeAt "a" 0]).watch
        (selfTradeAt "b" 1)).1.alerts, alert.detector = VelocityDetector.name := by
  intro cfg
  have horder : SymbolOrdered [selfTradeAt "a" 0, selfTradeAt "b" 1] := by
    unfold SymbolOrdered
    decide +kernel
  have hburst : 2 ≤ inSpan [selfTradeAt "a" 0, selfTradeAt "b" 1] (selfTradeAt "b" 1) 5 := by
    decide +kernel
  have hnone : emissions (trace watch (init .missing cfg) [selfTradeAt "a" 0]) "ACME"
      VelocityDetector.name = [] := by
    decide +kernel
  have hreported := velocity_burst_reported .missing cfg rfl (by decide) (by decide)
    (by decide +kernel) (by decide +kernel) (by decide +kernel) _ horder [selfTradeAt "a" 0]
    (selfTradeAt "b" 1) [] rfl
  refine ⟨hburst, ?_⟩
  rcases hreported.1 (by decide +kernel) with hout | ⟨entry, hentry, _⟩
  · exact hout
  · rw [show (selfTradeAt "b" 1).symbol = "ACME" from rfl, hnone] at hentry
    exact absurd hentry List.not_mem_nil

/-- On doubles two trades 0.1 s apart are no burst of 0.1 s: the second one evicts the
first. -/
theorem not_velocity_burst_reported_rounded :
    ¬ ∀ (cfg : DetectionConfig Double) (trades : List (Trade Double)),
      cfg.velocity.enabled = true → 1 ≤ cfg.velocity.maxTrades →
        cfg.velocity.maxTrades ≤ cfg.window.maxTrades → 0 ≤ cfg.velocity.windowSeconds →
        cfg.velocity.windowSeconds ≤ cfg.window.horizonSeconds →
        0 ≤ cfg.alertCooldownSeconds → SymbolOrdered trades →
          BurstsReported .missing cfg trades := by
  intro h
  let cfg : DetectionConfig Double :=
    { window := { horizonSeconds := 1 / 10 }
      velocity := { maxTrades := 2, windowSeconds := 1 / 10 } }
  have horder : SymbolOrdered [doubleTradeAt "a" (7 / 10), doubleTradeAt "b" (8 / 10)] := by
    unfold SymbolOrdered
    decide +kernel
  have hburst : (2 : ℤ) ≤ inSpan [doubleTradeAt "a" (7 / 10), doubleTradeAt "b" (8 / 10)]
      (doubleTradeAt "b" (8 / 10)) (1 / 10) := by
    decide +kernel
  have hmissed : ∀ alert ∈ ((final watch (init .missing cfg) [doubleTradeAt "a" (7 / 10)]).watch
      (doubleTradeAt "b" (8 / 10))).1.alerts, alert.detector ≠ VelocityDetector.name := by
    decide +kernel
  have hnone : emissions (trace watch (init .missing cfg) [doubleTradeAt "a" (7 / 10)]) "ACME"
      VelocityDetector.name = [] := by
    decide +kernel
  have hreported := h cfg _ rfl (by decide) (by decide) (by decide +kernel) (by decide +kernel)
    (by decide +kernel) horder [doubleTradeAt "a" (7 / 10)] (doubleTradeAt "b" (8 / 10)) [] rfl
  rcases hreported.1 hburst with ⟨alert, halert, hname⟩ | ⟨entry, hentry, _⟩
  · exact hmissed alert halert hname
  · rw [show (doubleTradeAt "b" (8 / 10)).symbol = "ACME" from rfl, hnone] at hentry
    exact absurd hentry List.not_mem_nil

end Run

end DetectionEngine

end TradeWatch
