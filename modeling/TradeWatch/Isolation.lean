import TradeWatch.Watch

/-!
Isolation of the keys (symbol, detector). Two engines are related at a key when
they agree on what the key can see: the symbol's window, the key's last alert
and what the detector remembers about the symbol. A trade of the symbol keeps
two related engines together and makes them return the same alert of the key; a
trade of another symbol leaves everything the key can see alone. So an engine
with one detector, fed the trades of one symbol, is related to the full engine
along any run.
-/

namespace TradeWatch

open PyFloat Transducer

/-- A detector whose memory is divided by symbol: `SameFor symbol` relates two
detectors that will treat the trades of that symbol alike. -/
class IsolatedDetector (D : Type) (F : outParam Type) [PyFloat F] [Detector D F] where
  SameFor : String → D → D → Prop
  sameFor_name : ∀ {symbol : String} {d d' : D},
    SameFor symbol d d' → Detector.name d = Detector.name d'
  inspect_same : ∀ {d d' : D} (trade : Trade F) (window : SymbolWindow F),
    SameFor trade.symbol d d' →
      (Detector.inspect d trade window).1 = (Detector.inspect d' trade window).1 ∧
        SameFor trade.symbol (Detector.inspect d trade window).2
          (Detector.inspect d' trade window).2
  inspect_other : ∀ {symbol : String} {d d' : D} (trade : Trade F) (window : SymbolWindow F),
    SameFor symbol d d' → trade.symbol ≠ symbol →
      SameFor symbol (Detector.inspect d trade window).2 d'

namespace IsolationForestDetector

variable {F M : Type} [PyFloat F]

/-- Equal but for what they remember about other symbols. -/
structure SameFor (symbol : String) (d d' : IsolationForestDetector F M) : Prop where
  sklearn : d.sklearn = d'.sklearn
  cfg : d.cfg = d'.cfg
  minTrades : d.minTrades = d'.minTrades
  buffer : d.buffers.get? symbol = d'.buffers.get? symbol
  model : d.models.get? symbol = d'.models.get? symbol
  since : d.sinceFit.get? symbol = d'.sinceFit.get? symbol

variable {symbol other : String} {d d' : IsolationForestDetector F M}

theorem SameFor.refl (symbol : String) (d : IsolationForestDetector F M) : SameFor symbol d d :=
  ⟨rfl, rfl, rfl, rfl, rfl, rfl⟩

theorem SameFor.remember_same (h : SameFor symbol d d') (rows : List (List F)) (row : List F) :
    SameFor symbol (d.remember symbol rows row) (d'.remember symbol rows row) where
  sklearn := h.sklearn
  cfg := h.cfg
  minTrades := h.minTrades
  buffer := by simp [remember, h.cfg]
  model := h.model
  since := by simp [remember, Counter.incr, Counter.count, h.since]

theorem SameFor.remember_other (h : SameFor symbol d d') (hne : other ≠ symbol)
    (rows : List (List F)) (row : List F) : SameFor symbol (d.remember other rows row) d' where
  sklearn := h.sklearn
  cfg := h.cfg
  minTrades := h.minTrades
  buffer := by simp [remember, OrderedDict.get?_set_ne _ hne.symm, h.buffer]
  model := h.model
  since := by simp [remember, Counter.incr, OrderedDict.get?_set_ne _ hne.symm, h.since]

theorem SameFor.maybeFit_same (h : SameFor symbol d d') :
    (d.maybeFit symbol).1 = (d'.maybeFit symbol).1 ∧
      SameFor symbol (d.maybeFit symbol).2 (d'.maybeFit symbol).2 := by
  have hcontains : d.models.contains symbol = d'.models.contains symbol := by
    simp only [OrderedDict.contains, h.model]
  have hcount : Counter.count d.sinceFit symbol = Counter.count d'.sinceFit symbol := by
    simp only [Counter.count, h.since]
  dsimp only [maybeFit]
  rw [h.sklearn, h.cfg, h.buffer, h.model, hcontains, hcount]
  split_ifs with hshort hdue
  · exact ⟨rfl, h⟩
  · cases d'.sklearn.fit d'.cfg.contamination ((d'.buffers.get? symbol).getD []) with
    | error err => exact ⟨rfl, h⟩
    | ok model =>
        exact ⟨rfl, rfl, rfl, h.minTrades, h.buffer, by simp, by simp⟩
  · exact ⟨rfl, h⟩

theorem SameFor.maybeFit_other (h : SameFor symbol d d') (hne : other ≠ symbol) :
    SameFor symbol (d.maybeFit other).2 d' := by
  dsimp only [maybeFit]
  split_ifs with hshort hdue
  · exact h
  · cases d.sklearn.fit d.cfg.contamination ((d.buffers.get? other).getD []) with
    | error err => exact h
    | ok model =>
        exact
          { sklearn := h.sklearn
            cfg := h.cfg
            minTrades := h.minTrades
            buffer := h.buffer
            model := by simp [OrderedDict.get?_set_ne _ hne.symm, h.model]
            since := by simp [OrderedDict.get?_set_ne _ hne.symm, h.since] }
  · exact h

variable [EventTime F] {trade : Trade F} {window : SymbolWindow F}

theorem SameFor.inspect_same (h : SameFor trade.symbol d d') :
    (d.inspect trade window).1 = (d'.inspect trade window).1 ∧
      SameFor trade.symbol (d.inspect trade window).2 (d'.inspect trade window).2 := by
  have havailable : d.available = d'.available := by
    simp only [available, h.sklearn, h.cfg]
  have hfeatures : d.features trade window = d'.features trade window := by
    simp only [features, h.minTrades]
  have hbuffer : d.buffer trade.symbol = d'.buffer trade.symbol := by
    simp only [IsolationForestDetector.buffer, h.buffer, h.cfg]
  have hjudge : ∀ a b : IsolationForestDetector F M, SameFor trade.symbol a b →
      ∀ model row, a.judge model row trade = b.judge model row trade := by
    intro a b hab model row
    simp only [judge, hab.sklearn, hab.cfg]
  unfold inspect
  rw [havailable, hfeatures, hbuffer]
  split_ifs with hoff
  · exact ⟨rfl, h⟩
  · rcases d'.features trade window with err | _ | row
    · exact ⟨rfl, h⟩
    · exact ⟨rfl, h⟩
    · rcases d'.buffer trade.symbol with err | rows
      · exact ⟨rfl, h⟩
      · obtain ⟨hfit, hnext⟩ := (h.remember_same rows row).maybeFit_same
        rcases hd : (d.remember trade.symbol rows row).maybeFit trade.symbol with ⟨fit, next⟩
        rcases hd' : (d'.remember trade.symbol rows row).maybeFit trade.symbol with
          ⟨fit', next'⟩
        simp only [hd, hd'] at hfit hnext ⊢
        subst hfit
        rcases fit with err | _ | model
        · exact ⟨rfl, hnext⟩
        · exact ⟨rfl, hnext⟩
        · exact ⟨hjudge next next' hnext model row, hnext⟩

theorem SameFor.inspect_other (h : SameFor symbol d d') (hne : trade.symbol ≠ symbol) :
    SameFor symbol (d.inspect trade window).2 d' := by
  unfold inspect
  split_ifs with hoff
  · exact h
  · rcases d.features trade window with err | _ | row
    · exact h
    · exact h
    · rcases d.buffer trade.symbol with err | rows
      · exact h
      · have hnext := (h.remember_other hne rows row).maybeFit_other hne
        rcases hd : (d.remember trade.symbol rows row).maybeFit trade.symbol with
          ⟨err | _ | model, next⟩
        all_goals
          simp only [hd] at hnext ⊢
          exact hnext

end IsolationForestDetector

namespace ShippedDetector

variable {F M : Type} [PyFloat F]

/-- Only the multivariate detector keeps state, so only it can tell two
symbols apart. -/
inductive SameFor (symbol : String) : ShippedDetector F M → ShippedDetector F M → Prop
  | same (d : ShippedDetector F M) : SameFor symbol d d
  | forest {d d' : IsolationForestDetector F M}
      (h : IsolationForestDetector.SameFor symbol d d') :
      SameFor symbol (isolationForest d) (isolationForest d')

instance [EventTime F] : IsolatedDetector (ShippedDetector F M) F where
  SameFor := SameFor
  sameFor_name {symbol d d'} h := by
    cases h <;> rfl
  inspect_same {d d'} trade window h := by
    cases h with
    | same d => exact ⟨rfl, .same _⟩
    | forest h => exact ⟨h.inspect_same.1, .forest h.inspect_same.2⟩
  inspect_other {symbol d d'} trade window h hne := by
    cases h with
    | same d =>
        cases d with
        | isolationForest d =>
            exact .forest ((IsolationForestDetector.SameFor.refl symbol d).inspect_other hne)
        | zscore cfg minTrades => exact .same _
        | priceSpike cfg => exact .same _
        | volumeSpike cfg minTrades => exact .same _
        | velocity cfg => exact .same _
        | spoofing cfg => exact .same _
        | washTrade cfg => exact .same _
    | forest h => exact .forest (h.inspect_other hne)

end ShippedDetector

namespace DetectionEngine

section Related

variable {D F : Type} [PyFloat F] [Detector D F]

variable [IsolatedDetector D F]

/-- Agreement of two engines on what the key (symbol, name) can see. The
second engine has no detector but the key's. -/
structure RelatedAt (symbol name : String) (e e' : DetectionEngine D F) : Prop where
  names : e.names.Nodup
  window : e.windows.window symbol = e'.windows.window symbol
  cooldown : e.cooldown = e'.cooldown
  last : e.lastAlertTs.get? (symbol, name) = e'.lastAlertTs.get? (symbol, name)
  detector : ∃ d d', d ∈ e.detectors ∧ e'.detectors = [d'] ∧ Detector.name d = name ∧
    IsolatedDetector.SameFor symbol d d'

variable {symbol name : String} {e e' : DetectionEngine D F} {trade : Trade F}

theorem RelatedAt.names_right (h : RelatedAt symbol name e e') : e'.names = [name] := by
  obtain ⟨d, d', _, hdetectors, rfl, hsame⟩ := h.detector
  simp [DetectionEngine.names, hdetectors, IsolatedDetector.sameFor_name hsame]

variable [EventTime F]

theorem RelatedAt.withinCooldown (h : RelatedAt symbol name e e') (trade : Trade F) :
    e.withinCooldown symbol name trade = e'.withinCooldown symbol name trade :=
  withinCooldown_congr h.cooldown h.last trade

variable [LawfulDetector D F]

/-- The key's detector says the same in both engines, and the two stay
together. -/
theorem RelatedAt.fired_eq (h : RelatedAt trade.symbol name e e') :
    (e.watch trade).1.fired name = (e'.watch trade).1.fired name ∧
      ∃ d d', d ∈ (e.watch trade).2.detectors ∧ (e'.watch trade).2.detectors = [d'] ∧
        Detector.name d = name ∧ IsolatedDetector.SameFor trade.symbol d d' := by
  obtain ⟨d, d', hd, hdetectors, rfl, hsame⟩ := h.detector
  have hafter : e.windowAfter trade = e'.windowAfter trade := by
    rw [windowAfter, windowAfter, h.window]
  simp only [watch, Observation.fired]
  rcases hadd : ((e.windows.window trade.symbol).add trade).1 with err | ⟨⟩
  · have hadd' : ((e'.windows.window trade.symbol).add trade).1 = .error err := by
      rw [← h.window, hadd]
    rw [asked_of_error e trade hadd, asked_of_error e' trade hadd',
      process_of_error e trade hadd, process_of_error e' trade hadd']
    exact ⟨rfl, d, d', hd, hdetectors, rfl, hsame⟩
  · have hadd' : ((e'.windows.window trade.symbol).add trade).1 = .ok () := by
      rw [← h.window, hadd]
    have hmine := results_answers e.detectors h.names hd trade (e.windowAfter trade)
    have htheirs := results_answers e'.detectors (by simp [hdetectors])
      (d := d') (by simp [hdetectors]) trade (e'.windowAfter trade)
    obtain ⟨hanswer, hnext⟩ :=
      IsolatedDetector.inspect_same trade (e.windowAfter trade) hsame
    have hname : Detector.name (Detector.inspect d trade (e.windowAfter trade)).2 =
        Detector.name d := LawfulDetector.name_inspect d trade (e.windowAfter trade)
    constructor
    · rw [asked_of_ok e trade hadd, asked_of_ok e' trade hadd', hmine,
        IsolatedDetector.sameFor_name hsame, htheirs, hanswer, hafter]
    · rw [process_detectors_of_ok e trade hadd, process_detectors_of_ok e' trade hadd',
        hdetectors, ← hafter]
      exact ⟨_, _, List.mem_map_of_mem hd, rfl, hname, hnext⟩

/-- A trade of the symbol: the same alert of the key, and still related. -/
theorem RelatedAt.step_same (h : RelatedAt trade.symbol name e e') :
    (e.watch trade).1.emitted trade.symbol name = (e'.watch trade).1.alerts ∧
      RelatedAt trade.symbol name (e.watch trade).2 (e'.watch trade).2 := by
  have hnames' : e'.names.Nodup := by simp [h.names_right]
  obtain ⟨hfired, hdetector⟩ := h.fired_eq
  have hemitted : (e.watch trade).1.emitted trade.symbol name =
      (e'.watch trade).1.emitted trade.symbol name := by
    rw [e.watch_emitted trade h.names, e'.watch_emitted trade hnames', hfired,
      h.withinCooldown]
  have hall : (e'.watch trade).1.emitted trade.symbol name = (e'.watch trade).1.alerts := by
    rw [Observation.emitted, List.filter_eq_self]
    intro alert halert
    rw [e'.watch_alerts trade hnames', mem_sortAlerts] at halert
    obtain ⟨⟨other, answer⟩, hmem, hdue⟩ := List.mem_filterMap.mp halert
    obtain ⟨rfl, _⟩ := due_eq_some.mp hdue
    obtain ⟨severity, score, reason, details, rfl⟩ := e'.built_of_mem_asked trade hmem
    have hother : other ∈ e'.names :=
      (e'.asked_names_sublist trade).subset (List.mem_map_of_mem hmem)
    rw [h.names_right, List.mem_singleton] at hother
    simp [Alert.build, hother]
  refine ⟨hemitted.trans hall, ?_, ?_, ?_, ?_, hdetector⟩
  · rw [watch_names]
    exact h.names
  · have hmine := e.process_window trade trade.symbol
    have htheirs := e'.process_window trade trade.symbol
    rw [if_pos rfl] at hmine htheirs
    simp only [watch, hmine, htheirs, windowAfter, h.window]
  · rw [watch_cooldown, watch_cooldown, h.cooldown]
  · rw [e.watch_lastAlertTs trade h.names, e'.watch_lastAlertTs trade hnames', hemitted,
      h.cooldown, h.last]

/-- A trade of another symbol: no alert of the key, and still related. -/
theorem RelatedAt.step_other (h : RelatedAt symbol name e e') (hne : trade.symbol ≠ symbol) :
    (e.watch trade).1.emitted symbol name = [] ∧
      RelatedAt symbol name (e.watch trade).2 e' := by
  have hemitted : (e.watch trade).1.emitted symbol name = [] := by
    rw [e.watch_emitted trade h.names, if_neg (by rintro ⟨heq, _⟩; exact hne heq)]
  refine ⟨hemitted, ?_, ?_, ?_, ?_, ?_⟩
  · rw [watch_names]
    exact h.names
  · have hmine := e.process_window trade symbol
    rw [if_neg hne.symm] at hmine
    simp only [watch, hmine, h.window]
  · rw [watch_cooldown, h.cooldown]
  · rw [e.watch_lastAlertTs trade h.names, hemitted, if_neg (by simp), h.last]
  · obtain ⟨d, d', hd, hdetectors, hname, hsame⟩ := h.detector
    rcases hadd : ((e.windows.window trade.symbol).add trade).1 with err | ⟨⟩
    · rw [watch, process_of_error e trade hadd]
      exact ⟨d, d', hd, hdetectors, hname, hsame⟩
    · rw [watch, process_detectors_of_ok e trade hadd]
      exact ⟨_, d', List.mem_map_of_mem hd, hdetectors,
        (LawfulDetector.name_inspect d trade _).trans hname,
        IsolatedDetector.inspect_other trade _ hsame hne⟩

/-- Along any run, a key of the full engine returns what the related engine
returns when it is fed the trades of the key's symbol alone. -/
theorem RelatedAt.run (h : RelatedAt symbol name e e') (trades : List (Trade F)) :
    emissions (trace watch e trades) symbol name =
      (trace watch e' (trades.filter (fun t => t.symbol = symbol))).flatMap
        (fun entry => entry.2.alerts.map (entry.1, ·)) := by
  apply trace_flatMap_eq (RelatedAt symbol name) (fun t : Trade F => t.symbol = symbol)
    (fun t (o : Observation F) => (o.emitted symbol name).map (t, ·))
    (fun t (o : Observation F) => o.alerts.map (t, ·))
  · intro s s' trade hrelated hsymbol
    obtain rfl : trade.symbol = symbol := of_decide_eq_true hsymbol
    obtain ⟨hview, hnext⟩ := hrelated.step_same
    exact ⟨by rw [hview], hnext⟩
  · intro s s' trade hrelated hsymbol
    obtain ⟨hview, hnext⟩ := hrelated.step_other (of_decide_eq_false hsymbol)
    exact ⟨by rw [hview, List.map_nil], hnext⟩
  · exact h

end Related

section Shipped

variable {F M : Type} [PyFloat F] (sklearn : SkLearn F M) (cfg : DetectionConfig F)

/-- The detector that a ruleset builds for one kind. -/
def build : DetectorKind → ShippedDetector F M
  | .zscore => .zscore cfg.zscore cfg.window.minTrades
  | .priceSpike => .priceSpike cfg.priceSpike
  | .volumeSpike => .volumeSpike cfg.volumeSpike cfg.window.minTrades
  | .velocity => .velocity cfg.velocity
  | .spoofing => .spoofing cfg.spoofing
  | .washTrade => .washTrade cfg.washTrade
  | .isolationForest => .isolationForest (.init sklearn cfg.isolationForest cfg.window.minTrades)

theorem build_mem {kind : DetectorKind} (henabled : cfg.enabled kind = true) :
    build sklearn cfg kind ∈ buildDetectors sklearn cfg := by
  cases kind <;> simp only [DetectionConfig.enabled] at henabled <;>
    simp [build, buildDetectors, henabled]

theorem buildDetectors_only {kind : DetectorKind} (henabled : cfg.enabled kind = true) :
    buildDetectors sklearn (cfg.only kind) = [build sklearn cfg kind] := by
  cases kind <;> simp only [DetectionConfig.enabled] at henabled <;>
    simp [build, buildDetectors, DetectionConfig.only] <;> rw [← henabled]

/-- The alerts of an enabled detector on a symbol are those of an engine that
has this detector alone and sees the trades of this symbol alone. -/
theorem alerts_isolated [EventTime F] {kind : DetectorKind} (henabled : cfg.enabled kind = true)
    (symbol : String) (trades : List (Trade F)) :
    emissions (trace watch (init sklearn cfg) trades) symbol
        (Detector.name (build sklearn cfg kind)) =
      (trace watch (init sklearn (cfg.only kind))
        (trades.filter (fun t => t.symbol = symbol))).flatMap
          (fun entry => entry.2.alerts.map (entry.1, ·)) := by
  apply RelatedAt.run
  exact
    { names := init_names_nodup sklearn cfg
      window := rfl
      cooldown := rfl
      last := rfl
      detector := ⟨_, _, build_mem sklearn cfg henabled,
        buildDetectors_only sklearn cfg henabled, rfl, .same _⟩ }

theorem alerts_isolated_two_symbols :
    let trades : List (Trade ℚ) :=
      [selfTradeAt "a" 0, { selfTradeAt "b" 1 with symbol := "OTHER" }, selfTradeAt "c" 9]
    emissions (trace watch (init .missing {}) trades) "ACME" "wash_trade" =
      (trace watch (init .missing (DetectionConfig.only {} .washTrade))
        [selfTradeAt "a" 0, selfTradeAt "c" 9]).flatMap
          (fun entry => entry.2.alerts.map (entry.1, ·)) :=
  alerts_isolated .missing {} (show DetectionConfig.enabled {} .washTrade = true from rfl) "ACME"
    [selfTradeAt "a" 0, { selfTradeAt "b" 1 with symbol := "OTHER" }, selfTradeAt "c" 9]

end Shipped

end DetectionEngine

end TradeWatch
