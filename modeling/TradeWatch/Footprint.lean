import TradeWatch.Lib.Footprint
import TradeWatch.Series
import TradeWatch.Watch

/-!
What the engine and the collector hold between two trades. Everything the engine keeps
is kept for a tracked symbol: a window of so many trades, an alert time for each
detector, a training buffer of so many rows, a model. The collector keeps a sparkline for
each symbol, a bucket for each second of its window, and two buffers.
-/

namespace TradeWatch

open PyFloat OrderedDict Buckets

variable {D F M : Type} [PyFloat F]

/-- Nothing but the key is counted. -/
def nothing {ν : Type} (_ : ν) : ℕ := 0

/-- What alerts are tallied under. -/
def Severity.values : Finset String := {"low", "medium", "high", "critical"}

theorem Severity.value_mem (severity : Severity) : severity.value ∈ Severity.values := by
  cases severity <;> decide

namespace IsolationForestDetector

/-- What the detector keeps: feature rows, models and counters. -/
def held (d : IsolationForestDetector F M) : ℕ :=
  d.buffers.footprint List.length + d.models.footprint nothing + d.sinceFit.footprint nothing

/-- The detector keeps rows of these symbols only, no more than it trains on. -/
structure Confined (symbols : Finset String) (trainSize : ℤ) (d : IsolationForestDetector F M) :
    Prop where
  trainSize_eq : d.cfg.trainSize = trainSize
  buffers : d.buffers.Within (· ∈ symbols) (·.length ≤ trainSize.toNat)
  models : d.models.Within (· ∈ symbols) (nothing · ≤ 0)
  sinceFit : d.sinceFit.Within (· ∈ symbols) (nothing · ≤ 0)

variable {symbols symbols' : Finset String} {trainSize : ℤ} {d : IsolationForestDetector F M}

theorem Confined.mono (h : Confined symbols trainSize d) (hsub : symbols ⊆ symbols') :
    Confined symbols' trainSize d where
  trainSize_eq := h.trainSize_eq
  buffers := h.buffers.allow hsub
  models := h.models.allow hsub
  sinceFit := h.sinceFit.allow hsub

theorem Confined.remember (h : Confined symbols trainSize d) {symbol : String}
    (hsymbol : symbol ∈ symbols) (rows : List (List F)) (row : List F) :
    Confined symbols trainSize (d.remember symbol rows row) where
  trainSize_eq := h.trainSize_eq
  buffers := by
    refine h.buffers.set hsymbol ?_
    rw [Suffix.length_rtake, h.trainSize_eq]
    exact min_le_left _ _
  models := h.models
  sinceFit := h.sinceFit.set hsymbol le_rfl

theorem Confined.maybeFit (h : Confined symbols trainSize d) {symbol : String}
    (hsymbol : symbol ∈ symbols) : Confined symbols trainSize (d.maybeFit symbol).2 := by
  unfold IsolationForestDetector.maybeFit
  dsimp only
  split
  · exact h
  · split
    · split
      · exact h
      · exact
          { trainSize_eq := h.trainSize_eq
            buffers := h.buffers
            models := h.models.set hsymbol le_rfl
            sinceFit := h.sinceFit.set hsymbol le_rfl }
    · exact h

theorem Confined.inspect (h : Confined symbols trainSize d) {trade : Trade F}
    (hsymbol : trade.symbol ∈ symbols) (window : SymbolWindow F) :
    Confined symbols trainSize (d.inspect trade window).2 := by
  unfold IsolationForestDetector.inspect
  split
  · exact h
  · split
    · exact h
    · exact h
    · rename_i row _
      split
      · exact h
      · rename_i rows _
        -- whatever the fit and the model say, the detector is the one after the fit
        have hnext := (h.remember hsymbol rows row).maybeFit hsymbol
        split <;> rename_i hfit <;> rw [hfit] at hnext <;> exact hnext

theorem Confined.held_le (h : Confined symbols trainSize d) :
    d.held ≤ symbols.card * (trainSize.toNat + 3) := by
  have hbuffers := h.buffers.footprint_le
  have hmodels := h.models.footprint_le
  have hsinceFit := h.sinceFit.footprint_le
  have hsplit : symbols.card * (trainSize.toNat + 3) =
      symbols.card * (1 + trainSize.toNat) + symbols.card * (1 + 0) + symbols.card * (1 + 0) := by
    ring
  rw [held, hsplit]
  exact Nat.add_le_add (Nat.add_le_add hbuffers hmodels) hsinceFit

end IsolationForestDetector

namespace ShippedDetector

/-- Only the forests keep anything. -/
def held : ShippedDetector F M → ℕ
  | .isolationForest forest => forest.held
  | .zscore _ _ => 0
  | .priceSpike _ => 0
  | .volumeSpike _ _ => 0
  | .velocity _ => 0
  | .spoofing _ => 0
  | .washTrade _ => 0

def Confined (symbols : Finset String) (trainSize : ℤ) (d : ShippedDetector F M) : Prop :=
  ∀ forest, d = .isolationForest forest → forest.Confined symbols trainSize

theorem Confined.inspect {symbols : Finset String} {trainSize : ℤ} {d : ShippedDetector F M}
    (h : d.Confined symbols trainSize) {trade : Trade F} (hsymbol : trade.symbol ∈ symbols)
    (window : SymbolWindow F) : (d.inspect trade window).2.Confined symbols trainSize := by
  intro forest hforest
  cases d with
  | isolationForest before =>
      rw [← isolationForest.inj hforest]
      exact (h before rfl).inspect hsymbol window
  | _ => cases hforest

/-- Detectors with names of their own have one forest among them at most. -/
theorem sum_held_le {symbols : Finset String} {trainSize : ℤ}
    {detectors : List (ShippedDetector F M)} (hnames : (detectors.map name).Nodup)
    (h : ∀ d ∈ detectors, d.Confined symbols trainSize) :
    (detectors.map held).sum ≤ symbols.card * (trainSize.toNat + 3) := by
  induction detectors with
  | nil => exact Nat.zero_le _
  | cons first rest ih =>
      obtain ⟨hfirst, hrest⟩ := List.nodup_cons.mp hnames
      obtain ⟨hconfined, hconfinedRest⟩ := List.forall_mem_cons.mp h
      rw [List.map_cons, List.sum_cons]
      cases first with
      | isolationForest forest =>
          have hnone : ∀ n ∈ rest.map held, n = 0 := by
            intro n hn
            obtain ⟨d, hd, rfl⟩ := List.mem_map.mp hn
            cases d with
            | isolationForest other => exact absurd (List.mem_map_of_mem hd) hfirst
            | _ => rfl
          rw [List.sum_eq_zero hnone, Nat.add_zero]
          exact (hconfined forest rfl).held_le
      | _ =>
          have hsum := ih hrest hconfinedRest
          rwa [held, Nat.zero_add]

end ShippedDetector

namespace DetectionEngine

/-- What the loop over the detectors writes down is written under a tracked symbol, the
name of a detector or a severity. -/
structure Labelled (symbols names : Finset String) (e : DetectionEngine D F) : Prop where
  stamps : e.lastAlertTs.Within (· ∈ symbols ×ˢ names) (nothing · ≤ 0)
  byDetector : e.alertsByDetector.Within (· ∈ names ∪ names.image (· ++ ":error")) (nothing · ≤ 0)
  bySeverity : e.alertsBySeverity.Within (· ∈ Severity.values) (nothing · ≤ 0)

section Labelled

variable {symbols symbols' names : Finset String} {e e' : DetectionEngine D F}

theorem Labelled.of_eq (h : Labelled symbols names e) (hsub : symbols ⊆ symbols')
    (hstamps : e'.lastAlertTs = e.lastAlertTs)
    (hbyDetector : e'.alertsByDetector = e.alertsByDetector)
    (hbySeverity : e'.alertsBySeverity = e.alertsBySeverity) : Labelled symbols' names e' where
  stamps := by
    rw [hstamps]
    exact h.stamps.allow fun key hkey => Finset.product_subset_product_left hsub hkey
  byDetector := by
    rw [hbyDetector]
    exact h.byDetector
  bySeverity := by
    rw [hbySeverity]
    exact h.bySeverity

theorem Labelled.turn (h : Labelled symbols names e) {trade : Trade F}
    (hsymbol : trade.symbol ∈ symbols) {name : String} (hname : name ∈ names)
    {answer : Answer F} {hit : Option (Alert F)} (hturn : Turn e trade name answer hit e') :
    Labelled symbols names e' := by
  cases hturn with
  | raised err =>
      have hkey : name ++ ":error" ∈ names ∪ names.image (· ++ ":error") :=
        Finset.mem_union_right _ (Finset.mem_image_of_mem _ hname)
      exact { h with byDetector := h.byDetector.set hkey le_rfl }
  | silent => exact h
  | suppressed alert hwithin => exact { h with }
  | returned alert hwithin =>
      refine
        { stamps := ?_
          byDetector := h.byDetector.set (Finset.mem_union_left _ hname) le_rfl
          bySeverity := h.bySeverity.set (Severity.value_mem _) le_rfl }
      dsimp only [stamp]
      split
      · exact h.stamps
      · exact h.stamps.set (Finset.mem_product.mpr ⟨hsymbol, hname⟩) le_rfl

variable [Detector D F]

theorem Labelled.loop {trade : Trade F} (hsymbol : trade.symbol ∈ symbols)
    (window : SymbolWindow F) {detectors : List D} (e : DetectionEngine D F)
    (h : Labelled symbols names e) (hnames : ∀ d ∈ detectors, Detector.name d ∈ names) :
    Labelled symbols names (inspectAll trade window detectors e).2.2 := by
  induction detectors generalizing e with
  | nil => exact h
  | cons d rest ih =>
      obtain ⟨hname, hrest⟩ := List.forall_mem_cons.mp hnames
      exact ih _ (h.turn hsymbol hname (e.inspectOne_turn trade window d)) hrest

end Labelled

/-- The symbols that the engine tracks. -/
def stock (e : DetectionEngine D F) : Finset String := e.windows.symbols.toFinset

theorem card_stock (e : DetectionEngine D F) : e.stock.card = e.windows.symbols.length :=
  List.toFinset_card_of_nodup e.windows.windows.keys_nodup

theorem process_stock [Detector D F] (e : DetectionEngine D F) (trade : Trade F) :
    (e.process trade).2.stock = insert trade.symbol e.stock := by
  ext symbol
  rw [Finset.mem_insert, stock, List.mem_toFinset, stock, List.mem_toFinset,
    e.process_symbols trade]

/-- What the engine keeps, counted. -/
def held (e : DetectionEngine (ShippedDetector F M) F) : ℕ :=
  e.windows.windows.footprint (·.trades.length) + e.lastAlertTs.footprint nothing +
    e.alertsByDetector.footprint nothing + e.alertsBySeverity.footprint nothing +
    (e.detectors.map ShippedDetector.held).sum

/-- The windows of a store are as long as it was told. -/
def Narrow (maxTrades : ℤ) (windows : WindowStore F) : Prop :=
  windows.maxTrades = maxTrades ∧
    windows.windows.Within (fun _ => True)
      (fun w => w.maxTrades = maxTrades ∧ w.trades.length ≤ maxTrades.toNat)

/-- What holds of the engine whatever it was fed. -/
structure Confined (maxTrades trainSize : ℤ) (e : DetectionEngine (ShippedDetector F M) F) :
    Prop where
  names : List.Sublist e.names shippedNames
  windows : Narrow maxTrades e.windows
  labels : Labelled e.stock shippedNames.toFinset e
  detectors : ∀ d ∈ e.detectors, d.Confined e.stock trainSize

section Confined

variable {maxTrades trainSize : ℤ}

theorem add_length_le (w : SymbolWindow F) (trade : Trade F) :
    (w.add trade).2.trades.length ≤ w.maxTrades.toNat := by
  rcases le_or_gt 0 w.maxTrades with hmax | hneg
  · rw [SymbolWindow.add_of_nonneg hmax]
    refine (List.dropWhile_suffix _).length_le.trans ?_
    rw [Suffix.length_rtake]
    exact min_le_left _ _
  · -- the pop that raises has emptied the window first
    rw [SymbolWindow.add_of_neg hneg rfl]
    exact Nat.zero_le _

theorem Narrow.window {windows : WindowStore F} (h : Narrow maxTrades windows)
    (symbol : String) : (windows.window symbol).maxTrades = maxTrades := by
  unfold WindowStore.window
  rcases hget : windows.windows.get? symbol with _ | w
  · exact h.1
  · exact (h.2.get? hget).2.1

/-- A trade takes its place in its window, new or old. -/
theorem Narrow.write_get {windows : WindowStore F} (h : Narrow maxTrades windows)
    (trade : Trade F) :
    Narrow maxTrades ((windows.get trade.symbol).2.write trade.symbol
      ((windows.window trade.symbol).add trade).2) := by
  have hmax := h.window trade.symbol
  have hlength := add_length_le (windows.window trade.symbol) trade
  rw [hmax] at hlength
  have hadded : ((windows.window trade.symbol).add trade).2.maxTrades = maxTrades := by
    rw [SymbolWindow.add_maxTrades, hmax]
  unfold WindowStore.get
  split
  · exact ⟨h.1, h.2.set trivial ⟨hadded, hlength⟩⟩
  · exact ⟨h.1, (h.2.set trivial ⟨h.1, Nat.zero_le _⟩).set trivial ⟨hadded, hlength⟩⟩

theorem name_mem (d : ShippedDetector F M) : Detector.name d ∈ shippedNames.toFinset := by
  rw [List.mem_toFinset]
  cases d <;> simp [shippedNames, Detector.name, ShippedDetector.name]

theorem Confined.process {e : DetectionEngine (ShippedDetector F M) F}
    (h : Confined maxTrades trainSize e) (trade : Trade F) :
    Confined maxTrades trainSize (e.process trade).2 := by
  have hwindows := h.windows.write_get trade
  have hnames : List.Sublist (e.process trade).2.names shippedNames := by
    rw [DetectionEngine.names, e.process_names trade]
    exact h.names
  have hstock := e.process_stock trade
  have hsub : e.stock ⊆ insert trade.symbol e.stock := Finset.subset_insert _ _
  rcases hadd : ((e.windows.window trade.symbol).add trade).1 with err | ⟨⟩
  · have hprocess := congrArg Prod.snd (e.process_of_error trade hadd)
    rw [hprocess] at hnames hstock ⊢
    refine ⟨hnames, hwindows, ?_, ?_⟩
    · rw [hstock]
      exact h.labels.of_eq hsub rfl rfl rfl
    · rw [hstock]
      intro d hd forest hforest
      exact (h.detectors d hd forest hforest).mono hsub
  · have hprocess := congrArg Prod.snd (e.process_of_ok trade hadd)
    have hdetectors := e.process_detectors_of_ok trade hadd
    have hframe := inspectAll_frame trade (e.windowAfter trade) e.detectors (e.ingest trade)
    have hlabels : Labelled (insert trade.symbol e.stock) shippedNames.toFinset (e.ingest trade) :=
      h.labels.of_eq hsub rfl rfl rfl
    have hloop : Labelled (insert trade.symbol e.stock) shippedNames.toFinset
        (inspectAll trade (e.windowAfter trade) e.detectors (e.ingest trade)).2.2 :=
      Labelled.loop (Finset.mem_insert_self _ _) _ _ hlabels fun d _ => name_mem d
    refine ⟨hnames, ?_, ?_, ?_⟩
    · rw [hprocess]
      dsimp only
      rw [hframe.windows]
      exact hwindows
    · rw [hstock, hprocess]
      exact hloop.of_eq subset_rfl rfl rfl rfl
    · rw [hstock, hdetectors]
      intro d hd
      obtain ⟨before, hbefore, rfl⟩ := List.mem_map.mp hd
      have hgrown : before.Confined (insert trade.symbol e.stock) trainSize :=
        fun forest hforest => (h.detectors before hbefore forest hforest).mono hsub
      exact hgrown.inspect (Finset.mem_insert_self _ _) _

/-- The room that one tracked symbol takes up in the engine. -/
def perSymbol (maxTrades trainSize : ℤ) : ℕ :=
  (1 + maxTrades.toNat) + shippedNames.length + (trainSize.toNat + 3)

theorem Confined.held_le {e : DetectionEngine (ShippedDetector F M) F}
    (h : Confined maxTrades trainSize e) :
    e.held ≤ e.windows.symbols.length * perSymbol maxTrades trainSize +
      2 * shippedNames.length + 4 := by
  have hnodup : e.names.Nodup := h.names.nodup shippedNames_nodup
  have hwindows := footprint_le_keys (h.windows.2.mono (fun _ _ => trivial) fun _ hw => hw.2)
  have hstamps := h.labels.stamps.footprint_le
  have hbyDetector := h.labels.byDetector.footprint_le
  have hbySeverity := h.labels.bySeverity.footprint_le
  have hdetectors := ShippedDetector.sum_held_le hnodup h.detectors
  have hkinds : shippedNames.toFinset.card = shippedNames.length :=
    List.toFinset_card_of_nodup shippedNames_nodup
  have hlabels : (shippedNames.toFinset ∪ shippedNames.toFinset.image (· ++ ":error")).card ≤
      shippedNames.length + shippedNames.length := by
    refine (Finset.card_union_le _ _).trans ?_
    rw [hkinds]
    exact Nat.add_le_add_left (Finset.card_image_le.trans_eq hkinds) _
  have hsplit : e.windows.symbols.length * perSymbol maxTrades trainSize =
      e.windows.symbols.length * (1 + maxTrades.toNat) +
        e.windows.symbols.length * shippedNames.length +
        e.windows.symbols.length * (trainSize.toNat + 3) := by
    rw [perSymbol]
    ring
  rw [Finset.card_product, card_stock, hkinds] at hstamps
  rw [card_stock] at hdetectors
  have hfour : Severity.values.card = 4 := by decide
  rw [hfour] at hbySeverity
  unfold held
  unfold WindowStore.symbols at hsplit hstamps hdetectors ⊢
  omega

theorem confined_init (sklearn : SkLearn F M) (cfg : DetectionConfig F) :
    Confined cfg.window.maxTrades cfg.isolationForest.trainSize (init sklearn cfg) where
  names := init_names_sublist sklearn cfg
  windows := ⟨rfl, within_empty⟩
  labels := ⟨within_empty, within_empty, within_empty⟩
  detectors := by
    have hone : ∀ (enabled : Bool) (d d' : ShippedDetector F M),
        d ∈ (if enabled then [d'] else []) → d = d' := by
      intro enabled d d' hd
      cases enabled with
      | false => cases hd
      | true => exact List.mem_singleton.mp hd
    rintro d hd forest rfl
    simp only [init, start, buildDetectors, List.mem_append] at hd
    rcases hd with (((((h | h) | h) | h) | h) | h) | h <;> cases hone _ _ _ h
    exact ⟨rfl, within_empty, within_empty, within_empty⟩

end Confined

end DetectionEngine

namespace MetricsCollector

/-- The bounds that the collector was built with: seconds, points of a sparkline,
latencies and rows of the tape. -/
def dims (m : MetricsCollector F) : ℤ × ℕ × ℕ × ℕ :=
  (m.tsWindow, m.pricePoints, m.latency.maxlen, m.tape.maxlen)

/-- What the collector keeps, counted. -/
def held (m : MetricsCollector F) : ℕ :=
  m.tsTrades.footprint nothing + m.tsAlerts.footprint nothing + m.tsNotional.footprint nothing +
    m.symbols.footprint (·.prices.items.length) + m.latency.items.length + m.tape.items.length +
    m.byDetector.footprint nothing + m.bySeverity.footprint nothing

/-- What holds of the collector as long as the clock does not go back. -/
structure Confined (symbols names : Finset String) (m : MetricsCollector F) : Prop where
  rows : m.symbols.Within (· ∈ symbols) (·.prices.maxlen = m.pricePoints)
  trades : m.tsTrades.Within (Recent m.lastTrim m.tsWindow) (nothing · ≤ 0)
  alerts : m.tsAlerts.Within (Recent m.lastTrim m.tsWindow) (nothing · ≤ 0)
  notional : m.tsNotional.Within (Recent m.lastTrim m.tsWindow) (nothing · ≤ 0)
  byDetector : m.byDetector.Within (· ∈ names) (nothing · ≤ 0)
  bySeverity : m.bySeverity.Within (· ∈ Severity.values) (nothing · ≤ 0)

variable {symbols symbols' names : Finset String} {m : MetricsCollector F}

omit [PyFloat F] in
theorem Confined.mono (h : Confined symbols names m) (hsub : symbols ⊆ symbols') :
    Confined symbols' names m :=
  { h with rows := h.rows.allow hsub }

theorem record_dims (call : RecordCall F) :
    (m.record call.trade call.alerts call.latencyUs call.now).dims = m.dims := by
  obtain ⟨_, _, _, _, hrecord⟩ := m.record_eq call.trade call.alerts call.latencyUs call.now
  rw [hrecord]
  rfl

theorem Confined.record (h : Confined symbols names m) (hspan : 0 ≤ m.tsWindow)
    {call : RecordCall F} (hsymbol : call.trade.symbol ∈ symbols)
    (hnames : ∀ alert ∈ call.alerts, alert.detector ∈ names) (hlater : m.lastTrim ≤ call.second) :
    Confined symbols names (m.record call.trade call.alerts call.latencyUs call.now) := by
  obtain ⟨hwindow, hlast, htrades, halerts, hnotional⟩ := m.record_buckets call
  obtain ⟨hdetector, hseverity⟩ :=
    m.record_breakdowns call.trade call.alerts call.latencyUs call.now
  have htrim : decide (call.second ≠ m.lastTrim) = false → call.second = m.lastTrim := by
    intro hkept
    exact not_not.mp (of_decide_eq_false hkept)
  constructor
  · obtain ⟨_, _, _, _, hrecord⟩ := m.record_eq call.trade call.alerts call.latencyUs call.now
    rw [hrecord]
    refine h.rows.set hsymbol ?_
    rcases hget : m.symbols.get? call.trade.symbol with _ | row
    · rfl
    · exact (h.rows.get? hget).2
  · rw [htrades, hlast, hwindow]
    exact within_advance h.trades hspan hlater (fun _ _ => le_rfl) htrim
  · rw [halerts, hlast, hwindow]
    exact within_advance h.alerts hspan hlater (fun _ _ => le_rfl) htrim
  · rw [hnotional, hlast, hwindow]
    exact within_advance h.notional hspan hlater (fun _ _ => le_rfl) htrim
  · rw [hdetector]
    refine Counter.within_tally h.byDetector (fun _ => le_rfl) ?_
    intro key hkey
    obtain ⟨alert, halert, rfl⟩ := List.mem_map.mp hkey
    exact hnames alert halert
  · rw [hseverity]
    refine Counter.within_tally h.bySeverity (fun _ => le_rfl) ?_
    intro key hkey
    obtain ⟨alert, _, rfl⟩ := List.mem_map.mp hkey
    exact Severity.value_mem _

omit [PyFloat F] in
theorem Confined.held_le (h : Confined symbols names m) :
    m.held ≤ symbols.card * (1 + m.pricePoints) + 3 * (m.tsWindow + 1).toNat +
      m.latency.maxlen + m.tape.maxlen + names.card + 4 := by
  have hseconds : ∀ {ν : Type} {d : OrderedDict ℤ ν},
      d.Within (Recent m.lastTrim m.tsWindow) (nothing · ≤ 0) →
        d.footprint nothing ≤ (m.tsWindow + 1).toNat := by
    intro ν d hd
    have hstock : d.Within (· ∈ Finset.Icc (m.lastTrim - m.tsWindow) m.lastTrim) (nothing · ≤ 0) :=
      hd.allow fun second hsecond => Finset.mem_Icc.mpr hsecond
    have hle := hstock.footprint_le
    rw [Int.card_Icc] at hle
    omega
  have htrades := hseconds h.trades
  have halerts := hseconds h.alerts
  have hnotional := hseconds h.notional
  have hrows : m.symbols.footprint (·.prices.items.length) ≤ symbols.card * (1 + m.pricePoints) :=
    (h.rows.mono (fun _ hkey => hkey) fun row hrow => hrow ▸ row.prices.bounded).footprint_le
  have hlatency := m.latency.bounded
  have htape := m.tape.bounded
  have hbyDetector := h.byDetector.footprint_le
  have hbySeverity := h.bySeverity.footprint_le
  have hfour : Severity.values.card = 4 := by decide
  rw [hfour] at hbySeverity
  unfold held
  omega

theorem confined_init (startTime : ℚ) (tsWindow : ℤ)
    (pricePoints latencyReservoir tapeSize : ℕ) :
    Confined symbols names
      (init startTime tsWindow pricePoints latencyReservoir tapeSize : MetricsCollector F) :=
  ⟨within_empty, within_empty, within_empty, within_empty, within_empty, within_empty⟩

end MetricsCollector

end TradeWatch
