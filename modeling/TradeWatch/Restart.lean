import TradeWatch.Cooldown
import TradeWatch.Isolation
import TradeWatch.Tape

/-!
A restart. Windows and suppression memory live in the process, so an engine that
is started again knows nothing of the trades before. A rule detector reads the
window alone, and the window forgets: as soon as it is full of trades since the
restart, or the older ones are behind its horizon, the detector says what it
would have said without the restart. What then goes out may differ, since the two
engines remember different alerts, but never by more than a cooldown.
-/

namespace TradeWatch

open PyFloat Transducer Suffix

variable {F M : Type} [PyFloat F]

theorem SymbolOrdered.inOrder {trades : List (Trade F)} (h : SymbolOrdered trades)
    (symbol : String) : InOrder (trades.filter (fun t => t.symbol = symbol)) := by
  apply List.pairwise_filter.mpr
  refine h.imp ?_
  intro a b hle ha hb
  exact hle ((of_decide_eq_true ha).trans (of_decide_eq_true hb).symm)

namespace SymbolWindow

theorem add_eq (w : SymbolWindow F) (trade : Trade F) :
    (w.add trade).2 = { w with trades := (w.add trade).2.trades } := by
  simp only [add, EventTime.timestamp_exact, evict]
  split <;> rfl

/-- A tape changes nothing of a window but the trades that it holds. -/
theorem replay_eq (w : SymbolWindow F) (tape : List (Trade F)) :
    w.replay tape = { w with trades := (w.replay tape).trades } := by
  induction tape generalizing w with
  | nil => rfl
  | cons trade rest ih =>
      rw [replay_cons, ih, w.add_eq trade]

end SymbolWindow

/-- Only the multivariate detector remembers anything between two calls. -/
theorem ShippedDetector.inspect_keeps {d : ShippedDetector F M}
    (hrule : ∀ forest, d ≠ .isolationForest forest) (trade : Trade F) (window : SymbolWindow F) :
    (Detector.inspect d trade window).2 = d := by
  cases d with
  | isolationForest forest => exact absurd rfl (hrule forest)
  | _ => rfl

namespace DetectionEngine

variable (sklearn : SkLearn F M) (cfg : DetectionConfig F)

theorem build_ne_forest {kind : DetectorKind} (hrule : kind ≠ .isolationForest)
    (forest : IsolationForestDetector F M) :
    build sklearn cfg kind ≠ .isolationForest forest := by
  cases kind with
  | isolationForest => exact absurd rfl hrule
  | _ => exact fun h => by cases h

/-- No trade of `before` is left in the window that the detectors are shown with
`trade`: enough trades of the symbol came since, or those of `before` are too
old. -/
def Forgotten (before since : List (Trade F)) (trade : Trade F) : Prop :=
  cfg.window.maxTrades ≤ (since.filter (fun t => t.symbol = trade.symbol)).length + 1 ∨
    ∀ old ∈ before, old.symbol = trade.symbol →
      old.timestamp < trade.timestamp - cfg.window.horizonSeconds

/-- An alert of the detector on the symbol of the trade, less than a cooldown
before it. -/
def AlertedSince (trades : List (Trade F)) (trade : Trade F) (name : String) : Prop :=
  ∃ entry ∈ emissions (trace watch (init sklearn cfg) trades) trade.symbol name,
    trade.timestamp - cfg.alertCooldownSeconds < eventTime entry ∧
      eventTime entry ≤ trade.timestamp

section Window

variable {cfg} (hmax : 0 ≤ cfg.window.maxTrades) (hhorizon : 0 ≤ cfg.window.horizonSeconds)
  {before since : List (Trade F)} {trade : Trade F}
  (hordered : SymbolOrdered (before ++ since ++ [trade]))
  (hforgotten : Forgotten cfg before since trade)
include hmax hhorizon hordered hforgotten

/-- The detectors are shown the window of the engine that never stopped. -/
theorem windowAfter_restart :
    (final watch (init sklearn cfg) (before ++ since)).windowAfter trade =
      (final watch (init sklearn cfg) since).windowAfter trade := by
  rw [windowAfter_eq_replay, windowAfter_eq_replay, List.filter_append]
  generalize hold : before.filter (fun t => t.symbol = trade.symbol) = old
  generalize hnew : since.filter (fun t => t.symbol = trade.symbol) = new
  let fresh : SymbolWindow F :=
    ⟨trade.symbol, cfg.window.maxTrades, cfg.window.horizonSeconds, []⟩
  have horder : InOrder (old ++ (new ++ [trade])) := by
    have hmine := hordered.inOrder trade.symbol
    simpa [List.filter_append, hold, hnew] using hmine
  have hlate : InOrder (new ++ [trade]) := (List.pairwise_append.mp horder).2.1
  have hpast : cfg.window.maxTrades.toNat ≤ (new ++ [trade]).length ∨
      ∀ t ∈ old, notOlder (trade.timestamp - cfg.window.horizonSeconds) t = false := by
    refine hforgotten.imp ?_ ?_
    · intro hcount
      rw [hnew] at hcount
      rw [List.length_append, List.length_singleton]
      omega
    · intro hbehind t ht
      rw [← hold, List.mem_filter] at ht
      exact decide_eq_false (not_le.mpr (hbehind t ht.1 (of_decide_eq_true ht.2)))
  have htrades : (fresh.replay (old ++ new ++ [trade])).trades =
      (fresh.replay (new ++ [trade])).trades := by
    have hfull := SymbolWindow.replay_trades (w := fresh) hmax hhorizon rfl (old ++ new) trade
      (by rwa [List.append_assoc])
    have hsince := SymbolWindow.replay_trades (w := fresh) hmax hhorizon rfl new trade hlate
    rw [hfull, hsince, List.append_assoc]
    exact (horder.settles _).filter_append_rtake hpast
  rw [fresh.replay_eq (old ++ new ++ [trade]), htrades, ← fresh.replay_eq]

/-- So a rule detector says what it says without the restart. -/
theorem fired_restart {kind : DetectorKind} (henabled : cfg.enabled kind = true)
    (hrule : kind ≠ .isolationForest) :
    let name := Detector.name (build sklearn cfg kind)
    ((final watch (init sklearn cfg) (before ++ since)).watch trade).1.fired name =
      ((final watch (init sklearn cfg) since).watch trade).1.fired name := by
  intro name
  have hkeep := ShippedDetector.inspect_keeps (build_ne_forest sklearn cfg hrule)
  have hbuilt : build sklearn cfg kind ∈ (init sklearn cfg).detectors :=
    build_mem sklearn cfg henabled
  rw [fired_of_stateless sklearn cfg hkeep hbuilt hmax,
    fired_of_stateless sklearn cfg hkeep hbuilt hmax,
    windowAfter_restart sklearn hmax hhorizon hordered hforgotten]

end Window

/-- What goes out of one engine goes out of another that heard the same from the
detector, or the other had an alert of the key within the cooldown. -/
theorem emitted_or_alerted {first second : List (Trade F)} {trade : Trade F} {name : String}
    (hordered : SymbolOrdered (second ++ [trade]))
    (hfired : ((final watch (init sklearn cfg) first).watch trade).1.fired name =
      ((final watch (init sklearn cfg) second).watch trade).1.fired name)
    {alert : Alert F}
    (h : alert ∈ ((final watch (init sklearn cfg) first).watch trade).1.emitted trade.symbol name) :
    alert ∈ ((final watch (init sklearn cfg) second).watch trade).1.alerts ∨
      AlertedSince sklearn cfg second trade name := by
  have hstart := init_names_nodup sklearn cfg
  have hnames : ∀ tape, (final watch (init sklearn cfg) tape).names.Nodup := by
    intro tape
    rwa [(init sklearn cfg).final_names tape]
  rw [watch_emitted _ trade (hnames first)] at h
  split at h
  · rw [hfired] at h
    rcases returned_or_cooling _ trade (hnames second) (mem_results.mp h) with hout | hwithin
    · exact Or.inl hout
    · obtain ⟨hpos, last, hlast, hlt⟩ := (withinCooldown_iff _ _ _ _).mp hwithin
      obtain ⟨entry, hentry, rfl⟩ :=
        (init sklearn cfg).last_is_emission hstart rfl second hlast
      obtain ⟨hmem, hsymbol⟩ := mem_of_mem_emissions (init sklearn cfg) hstart hentry
      have hle : entry.1.timestamp ≤ trade.timestamp :=
        (List.pairwise_append.mp hordered).2.2 entry.1 hmem trade (by simp) hsymbol
      have hcooldown : (final watch (init sklearn cfg) second).cooldown =
          max 0 cfg.alertCooldownSeconds := (init sklearn cfg).final_cooldown second
      rw [hcooldown] at hpos hlt
      rw [max_eq_right_of_lt ((lt_max_iff.mp hpos).resolve_left (lt_irrefl 0))] at hlt
      exact Or.inr ⟨entry, hentry, by linarith, hle⟩
  · cases h

/-- On every trade that comes after the window has forgotten the trades before a
restart, a rule detector finds what it would have found without the restart. What
the engine that never stopped returns, the restarted one returns too, or it
returned an alert of the same symbol and detector less than a cooldown before; and
the restarted one returns nothing that the other had not, in the same sense. -/
theorem restart_catches_up {kind : DetectorKind} (henabled : cfg.enabled kind = true)
    (hrule : kind ≠ .isolationForest) (hmax : 0 ≤ cfg.window.maxTrades)
    (hhorizon : 0 ≤ cfg.window.horizonSeconds) (before since : List (Trade F)) (trade : Trade F)
    (hordered : SymbolOrdered (before ++ since ++ [trade]))
    (hforgotten : Forgotten cfg before since trade) :
    let name := Detector.name (build sklearn cfg kind)
    let running := ((final watch (init sklearn cfg) (before ++ since)).watch trade).1
    let restarted := ((final watch (init sklearn cfg) since).watch trade).1
    running.fired name = restarted.fired name ∧
      (∀ alert ∈ running.emitted trade.symbol name,
        alert ∈ restarted.alerts ∨ AlertedSince sklearn cfg since trade name) ∧
      ∀ alert ∈ restarted.emitted trade.symbol name,
        alert ∈ running.alerts ∨ AlertedSince sklearn cfg (before ++ since) trade name := by
  intro name running restarted
  have hfired : running.fired name = restarted.fired name :=
    fired_restart sklearn hmax hhorizon hordered hforgotten henabled hrule
  have hlate : SymbolOrdered (since ++ [trade]) := by
    rw [List.append_assoc] at hordered
    exact (List.pairwise_append.mp hordered).2.1
  refine ⟨hfired, ?_, ?_⟩
  · intro alert halert
    exact emitted_or_alerted sklearn cfg hlate hfired halert
  · intro alert halert
    exact emitted_or_alerted sklearn cfg hordered hfired.symm halert

theorem restart_catches_up_after_horizon :
    let restarted := ((final watch (init .missing {}) [selfTradeAt "b" 400]).watch
      (selfTradeAt "c" 405)).1
    ((final watch (init .missing {}) [selfTradeAt "a" 0, selfTradeAt "b" 400]).watch
        (selfTradeAt "c" 405)).1.fired "wash_trade" = restarted.fired "wash_trade" := by
  have hordered : SymbolOrdered
      ([selfTradeAt "a" 0] ++ [selfTradeAt "b" 400] ++ [selfTradeAt "c" 405]) := by
    unfold SymbolOrdered
    decide +kernel
  have hforgotten : Forgotten {} [selfTradeAt "a" 0] [selfTradeAt "b" 400]
      (selfTradeAt "c" 405) := Or.inr (by decide +kernel)
  exact (restart_catches_up .missing {} (show DetectionConfig.enabled {} .washTrade = true from rfl)
    (by decide) (by decide) (by decide +kernel) [selfTradeAt "a" 0] [selfTradeAt "b" 400]
    (selfTradeAt "c" 405) hordered hforgotten).1

end DetectionEngine

end TradeWatch
