import TradeWatch.Engine
import TradeWatch.Lib.Spacing
import TradeWatch.Lib.Transducer

/-!
Runs of the engine. One call is observed by what the detectors answered and by
what the call returned; the log of a run holds one observation a trade. Seen
through a single key (symbol, detector) the engine is a gate that thins the
detector's own alerts, whatever the other keys do meanwhile.
-/

namespace TradeWatch

open PyFloat Transducer

structure Observation (F : Type) [PyFloat F] where
  /-- Every detector that was asked, with its answer. -/
  answers : List (String × Answer F)
  returned : Except PyError (List (Alert F))

section Log

variable {F : Type} [PyFloat F]

def Observation.alerts (o : Observation F) : List (Alert F) :=
  match o.returned with
  | .ok alerts => alerts
  | .error _ => []

/-- The non-`None` results of the detector of this name. -/
def Observation.fired (o : Observation F) (name : String) : List (Alert F) :=
  DetectionEngine.results o.answers name

/-- The returned alerts of one key. -/
def Observation.emitted (o : Observation F) (symbol name : String) : List (Alert F) :=
  o.alerts.filter (fun a => a.symbol = symbol ∧ a.detector = name)

/-- The non-`None` results of one key over a log, with the trades they are on. -/
def firings (log : List (Trade F × Observation F)) (symbol name : String) :
    List (Trade F × Alert F) :=
  log.flatMap fun entry =>
    if entry.1.symbol = symbol then (entry.2.fired name).map (entry.1, ·) else []

/-- The returned alerts of one key over a log, with the trades they are on. -/
def emissions (log : List (Trade F × Observation F)) (symbol name : String) :
    List (Trade F × Alert F) :=
  log.flatMap fun entry => (entry.2.emitted symbol name).map (entry.1, ·)

/-- The event time of an alert in a log. -/
def eventTime (entry : Trade F × Alert F) : ℚ := entry.1.timestamp

theorem mem_firings {log : List (Trade F × Observation F)} {symbol name : String}
    {trade : Trade F} {alert : Alert F} :
    (trade, alert) ∈ firings log symbol name ↔
      ∃ o, (trade, o) ∈ log ∧ trade.symbol = symbol ∧ (name, .ok (some alert)) ∈ o.answers := by
  unfold firings
  rw [List.mem_flatMap]
  constructor
  · rintro ⟨⟨other, o⟩, hmem, halert⟩
    split_ifs at halert with hsymbol
    · obtain ⟨found, hfound, heq⟩ := List.mem_map.mp halert
      obtain ⟨rfl, rfl⟩ := Prod.mk.inj heq
      exact ⟨o, hmem, hsymbol, DetectionEngine.mem_results.mp hfound⟩
    · simp at halert
  · rintro ⟨o, hmem, hsymbol, halert⟩
    refine ⟨(trade, o), hmem, ?_⟩
    rw [if_pos hsymbol]
    exact List.mem_map_of_mem (DetectionEngine.mem_results.mpr halert)

end Log

namespace DetectionEngine

variable {D F : Type} [PyFloat F]

theorem mem_sortAlerts {alert : Alert F} {alerts : List (Alert F)} :
    alert ∈ sortAlerts alerts ↔ alert ∈ alerts :=
  (List.perm_insertionSort _ alerts).mem_iff

section AnyEventTime

variable [EventTime F] [Detector D F]

/-- One call of `process`, observed. -/
def watch (e : DetectionEngine D F) (trade : Trade F) : Observation F × DetectionEngine D F :=
  (⟨e.asked trade, (e.process trade).1⟩, (e.process trade).2)

/-- The names the engine's detectors go by. -/
def names (e : DetectionEngine D F) : List String := e.detectors.map Detector.name

section Call

variable (e : DetectionEngine D F) (trade : Trade F)

theorem asked_names_sublist : List.Sublist ((e.asked trade).map Prod.fst) e.names := by
  rcases hadd : ((e.windows.window trade.symbol).add trade).1 with err | ⟨⟩
  · simp [asked_of_error e trade hadd]
  · rw [asked_of_ok e trade hadd, answers, List.map_map]
    exact List.Sublist.refl _

/-- A call that raises returns nothing; every other call returns the due
answers, sorted. -/
theorem watch_alerts (hnames : e.names.Nodup) :
    (e.watch trade).1.alerts = sortAlerts ((e.asked trade).filterMap (e.due trade)) := by
  rcases hadd : ((e.windows.window trade.symbol).add trade).1 with err | ⟨⟩
  · simp [watch, Observation.alerts, process_of_error e trade hadd,
      asked_of_error e trade hadd, sortAlerts]
  · simp [watch, Observation.alerts, process_returned e trade hnames hadd]

theorem fired_length_le (hnames : e.names.Nodup) (name : String) :
    ((e.watch trade).1.fired name).length ≤ 1 :=
  results_length_le ((e.asked_names_sublist trade).nodup hnames) name

variable [LawfulDetector D F]

/-- An answer of a lawful detector carries its trade and its name. -/
theorem built_of_mem_asked {name : String} {alert : Alert F}
    (h : (name, .ok (some alert)) ∈ e.asked trade) :
    ∃ severity score reason details,
      alert = Alert.build trade name severity score reason details := by
  rcases hadd : ((e.windows.window trade.symbol).add trade).1 with err | ⟨⟩
  · simp [asked_of_error e trade hadd] at h
  · rw [asked_of_ok e trade hadd] at h
    obtain ⟨d, _, heq⟩ := List.mem_map.mp h
    obtain ⟨rfl, hanswer⟩ := Prod.mk.inj heq
    exact LawfulDetector.built_inspect d trade (e.windowAfter trade) alert hanswer

/-- The due answers of one key: the detector's own result, unless the key is
cooling down. -/
theorem due_filter (symbol name : String) :
    ((e.asked trade).filterMap (e.due trade)).filter
        (fun alert => alert.symbol = symbol ∧ alert.detector = name) =
      if trade.symbol = symbol ∧ e.withinCooldown symbol name trade = false then
        (e.watch trade).1.fired name
      else [] := by
  have hpoint : ∀ a ∈ e.asked trade,
      (e.due trade a).filter (fun alert => alert.symbol = symbol ∧ alert.detector = name) =
        if trade.symbol = symbol ∧ e.withinCooldown symbol name trade = false then
          if a.1 = name then alertOf a.2 else none
        else none := by
    rintro ⟨other, answer⟩ hmem
    rcases answer with _ | _ | alert
    · simp [due, alertOf]
    · simp [due, alertOf]
    · obtain ⟨severity, score, reason, details, rfl⟩ := e.built_of_mem_asked trade hmem
      rcases eq_or_ne trade.symbol symbol with rfl | hsymbol
      · rcases eq_or_ne other name with rfl | hname
        · cases hwithin : e.withinCooldown trade.symbol other trade <;>
            simp [due, alertOf, hwithin, Alert.build]
        · cases hwithin : e.withinCooldown trade.symbol other trade <;>
            simp [due, hwithin, Alert.build, hname]
      · cases hwithin : e.withinCooldown trade.symbol other trade <;>
          simp [due, hwithin, Alert.build, hsymbol]
  rw [List.filter_filterMap, List.filterMap_congr hpoint]
  split
  · rfl
  · simp

/-- What goes out under one key. Sorting does not matter: it is one alert at
most. -/
theorem watch_emitted (hnames : e.names.Nodup) (symbol name : String) :
    (e.watch trade).1.emitted symbol name =
      if trade.symbol = symbol ∧ e.withinCooldown symbol name trade = false then
        (e.watch trade).1.fired name
      else [] := by
  have hperm : ((e.watch trade).1.emitted symbol name).Perm
      (if trade.symbol = symbol ∧ e.withinCooldown symbol name trade = false then
        (e.watch trade).1.fired name
      else []) := by
    rw [← due_filter, Observation.emitted, e.watch_alerts trade hnames]
    exact (List.perm_insertionSort _ _).filter _
  have hshort : ((e.watch trade).1.emitted symbol name).length ≤ 1 := by
    rw [hperm.length_eq]
    split
    · exact e.fired_length_le trade hnames name
    · simp
  rcases Nat.le_one_iff_eq_zero_or_eq_one.mp hshort with hzero | hone
  · rw [List.length_eq_zero_iff.mp hzero] at hperm ⊢
    exact hperm.nil_eq
  · obtain ⟨alert, halert⟩ := List.length_eq_one_iff.mp hone
    rw [halert] at hperm ⊢
    exact List.singleton_perm.mp hperm

/-- The time of a key moves exactly when an alert of that key goes out. -/
theorem watch_lastAlertTs (hnames : e.names.Nodup) (symbol name : String) :
    (e.watch trade).2.lastAlertTs.get? (symbol, name) =
      if 0 < e.cooldown ∧ (e.watch trade).1.emitted symbol name ≠ [] then some trade.timestamp
      else e.lastAlertTs.get? (symbol, name) := by
  rw [e.watch_emitted trade hnames]
  rcases hadd : ((e.windows.window trade.symbol).add trade).1 with err | ⟨⟩
  · have hnone : (e.watch trade).1.fired name = [] := by
      simp [watch, Observation.fired, asked_of_error e trade hadd, results]
    rw [hnone]
    simp [watch, process_of_error e trade hadd]
  · have hloop : (e.watch trade).2.lastAlertTs = (inspectAll trade (e.windowAfter trade)
        e.detectors (e.ingest trade)).2.2.lastAlertTs := by
      simp only [watch, process_of_ok e trade hadd]
    have hfired : (e.watch trade).1.fired name =
        results (answers e.detectors trade (e.windowAfter trade)) name := by
      simp only [watch, Observation.fired, asked_of_ok e trade hadd]
    have hwithin : (e.ingest trade).withinCooldown symbol name trade =
        e.withinCooldown symbol name trade := withinCooldown_congr rfl rfl _
    rw [hloop, hfired, inspectAll_lastAlertTs trade (e.windowAfter trade) e.detectors hnames,
      hwithin]
    rcases eq_or_ne trade.symbol symbol with rfl | hsymbol
    · cases e.withinCooldown trade.symbol name trade <;> simp [ingest]
    · simp [hsymbol, hsymbol.symm, ingest]

end Call

section Run

variable [LawfulDetector D F] (e : DetectionEngine D F)

@[simp] theorem watch_names (trade : Trade F) : (e.watch trade).2.names = e.names :=
  e.process_names trade

omit [LawfulDetector D F] in
@[simp] theorem watch_cooldown (trade : Trade F) : (e.watch trade).2.cooldown = e.cooldown :=
  e.process_cooldown trade

theorem final_names (trades : List (Trade F)) : (final watch e trades).names = e.names :=
  final_invariant watch (P := fun s => s.names = e.names) rfl
    (fun s trade h => (s.watch_names trade).trans h) trades

omit [LawfulDetector D F] in
theorem final_cooldown (trades : List (Trade F)) :
    (final watch e trades).cooldown = e.cooldown :=
  final_invariant watch (P := fun s => s.cooldown = e.cooldown) rfl
    (fun s trade h => (s.watch_cooldown trade).trans h) trades

omit [LawfulDetector D F] in
/-- The window of a symbol is what its own trades, in order, make of it. -/
theorem final_window (trades : List (Trade F)) (symbol : String) :
    (final watch e trades).windows.window symbol =
      (e.windows.window symbol).replay (trades.filter (fun t => t.symbol = symbol)) := by
  induction trades generalizing e with
  | nil => rfl
  | cons trade rest ih =>
      rw [final_cons, ih]
      have hwindow := e.process_window trade symbol
      rcases eq_or_ne symbol trade.symbol with rfl | hsymbol
      · rw [if_pos rfl] at hwindow
        simp [watch, hwindow, windowAfter]
      · rw [if_neg hsymbol] at hwindow
        simp [watch, hwindow, hsymbol.symm]

omit [LawfulDetector D F] in
/-- With a bound that is not negative a call does not raise on times that can be read. -/
theorem final_add_ok_of_readable (hmax : ∀ symbol, 0 ≤ (e.windows.window symbol).maxTrades)
    (hempty : ∀ symbol, (e.windows.window symbol).trades = []) {trades : List (Trade F)}
    {trade : Trade F} (hread : ∀ t ∈ trades ++ [trade], EventTime.readable t = true) :
    (((final watch e trades).windows.window trade.symbol).add trade).1 = .ok () := by
  rw [e.final_window trades, SymbolWindow.add_of_readable (by simpa using hmax trade.symbol)]
  intro t ht
  apply hread
  rcases List.mem_append.mp ht with hwindow | hnew
  · have htape := (SymbolWindow.replay_sublist _ _).subset hwindow
    rw [hempty, List.nil_append] at htape
    exact List.mem_append_left _ (List.mem_of_mem_filter htape)
  · exact List.mem_append_right _ hnew

omit [LawfulDetector D F] in
/-- A detector that never changes stays in the engine. -/
theorem mem_final_of_stateless {d : D}
    (hkeep : ∀ trade window, (Detector.inspect d trade window).2 = d) (hmem : d ∈ e.detectors)
    (trades : List (Trade F)) : d ∈ (final watch e trades).detectors := by
  apply final_invariant watch (P := fun s => d ∈ s.detectors) hmem
  intro s trade hd
  rcases hadd : ((s.windows.window trade.symbol).add trade).1 with err | ⟨⟩
  · rw [watch, process_of_error s trade hadd]
    exact hd
  · rw [watch, process_detectors_of_ok s trade hadd]
    exact List.mem_map.mpr ⟨d, hd, hkeep trade _⟩

end Run

section Shipped

variable {M : Type} (sklearn : SkLearn F M) (cfg : DetectionConfig F)

/-- The names of the detectors that ship with the engine, in the order it
builds them. -/
def shippedNames : List String :=
  [ZScoreDetector.name] ++ [PriceSpikeDetector.name] ++ [VolumeSpikeDetector.name] ++
    [VelocityDetector.name] ++ [SpoofingDetector.name] ++ [WashTradeDetector.name] ++
    [IsolationForestDetector.name]

theorem shippedNames_nodup : shippedNames.Nodup := by decide

theorem init_names_sublist : List.Sublist (init sklearn cfg).names shippedNames := by
  have hone : ∀ (enabled : Bool) (d : ShippedDetector F M),
      List.Sublist ((if enabled then [d] else []).map Detector.name) [Detector.name d] := by
    intro enabled d
    cases enabled <;> simp
  simp only [names, init, start, buildDetectors, List.map_append]
  repeat' apply List.Sublist.append
  all_goals exact hone _ _

theorem init_names_nodup : (init sklearn cfg).names.Nodup :=
  (init_names_sublist sklearn cfg).nodup shippedNames_nodup

/-- The window that the detectors are shown, from the symbol's own tape. -/
theorem windowAfter_eq_replay (before : List (Trade F)) (trade : Trade F) :
    (final watch (init sklearn cfg) before).windowAfter trade =
      (⟨trade.symbol, cfg.window.maxTrades, cfg.window.horizonSeconds, []⟩ :
        SymbolWindow F).replay (before.filter (fun t => t.symbol = trade.symbol) ++ [trade]) := by
  rw [windowAfter, final_window]
  simp [init, start, WindowStore.window_init]

end Shipped

end AnyEventTime

section Exact

variable [Detector D F] [LawfulDetector D F] (e : DetectionEngine D F)

omit [Detector D F] [LawfulDetector D F] in
/-- The cooldown of one key is the gate of the thinning. -/
theorem gate_eq (trade : Trade F) (symbol name : String) (alert : Alert F) :
    Spacing.gate eventTime e.cooldown (e.lastAlertTs.get? (symbol, name)) (trade, alert) =
      if e.withinCooldown symbol name trade then
        (none, e.lastAlertTs.get? (symbol, name))
      else
        (some (trade, alert),
          if 0 < e.cooldown then some trade.timestamp
          else e.lastAlertTs.get? (symbol, name)) := by
  unfold Spacing.gate withinCooldown
  rcases le_or_gt e.cooldown 0 with hc | hpos
  · simp [hc, not_lt.mpr hc]
  · cases hlast : e.lastAlertTs.get? (symbol, name) with
    | none => simp [eventTime, hpos, not_le.mpr hpos]
    | some last =>
        rcases lt_or_ge (trade.timestamp - last) e.cooldown with hlt | hge
        · simp [eventTime, hpos, not_le.mpr hpos, hlt]
        · simp [eventTime, hpos, not_le.mpr hpos, not_lt.mpr hge]

/-- One call, seen through one key: the detector's result, if there is one,
goes through the gate. -/
theorem watch_gate (trade : Trade F) (hnames : e.names.Nodup) (symbol name : String) :
    let fired := firings [(trade, (e.watch trade).1)] symbol name
    let last := e.lastAlertTs.get? (symbol, name)
    emissions [(trade, (e.watch trade).1)] symbol name =
        Spacing.thin eventTime e.cooldown last fired ∧
      (e.watch trade).2.lastAlertTs.get? (symbol, name) =
        Spacing.clock eventTime e.cooldown last fired := by
  have hemitted := e.watch_emitted trade hnames symbol name
  have hlast := e.watch_lastAlertTs trade hnames symbol name
  have hshort := e.fired_length_le trade hnames name
  simp only [firings, emissions, List.flatMap_singleton]
  by_cases hsymbol : trade.symbol = symbol
  · rw [if_pos hsymbol]
    simp only [hsymbol, true_and] at hemitted
    rcases hfired : (e.watch trade).1.fired name with _ | ⟨alert, _ | ⟨second, rest⟩⟩
    · rw [hfired, ite_self] at hemitted
      simp [hlast, hemitted]
    · rw [hfired] at hemitted
      have hgate := e.gate_eq trade symbol name alert
      cases hwithin : e.withinCooldown symbol name trade with
      | true =>
          rw [hwithin, if_neg (by simp)] at hemitted
          rw [hwithin, if_pos rfl] at hgate
          simp [hlast, hemitted, Spacing.thin_cons, Spacing.clock_cons, hgate]
      | false =>
          rw [hwithin, if_pos rfl] at hemitted
          rw [hwithin, if_neg (by simp)] at hgate
          simp [hlast, hemitted, Spacing.thin_cons, Spacing.clock_cons, hgate]
    · rw [hfired] at hshort
      simp at hshort
  · rw [if_neg (by rintro ⟨h, _⟩; exact hsymbol h)] at hemitted
    simp [if_neg hsymbol, hlast, hemitted]

/-- A whole run, seen through one key: what is returned is the detector's own
results, thinned; nothing else enters. -/
theorem emissions_eq_thin (hnames : e.names.Nodup) (trades : List (Trade F))
    (symbol name : String) :
    let fired := firings (trace watch e trades) symbol name
    let last := e.lastAlertTs.get? (symbol, name)
    emissions (trace watch e trades) symbol name =
        Spacing.thin eventTime e.cooldown last fired ∧
      (final watch e trades).lastAlertTs.get? (symbol, name) =
        Spacing.clock eventTime e.cooldown last fired := by
  induction trades generalizing e with
  | nil => exact ⟨rfl, rfl⟩
  | cons trade rest ih =>
      obtain ⟨hemit, hclock⟩ := e.watch_gate trade hnames symbol name
      obtain ⟨hemits, hclocks⟩ := ih (e.watch trade).2 (by rwa [watch_names])
      have hfirings : firings (trace watch e (trade :: rest)) symbol name =
          firings [(trade, (e.watch trade).1)] symbol name ++
            firings (trace watch (e.watch trade).2 rest) symbol name := by
        simp [firings]
      have hemissions : emissions (trace watch e (trade :: rest)) symbol name =
          emissions [(trade, (e.watch trade).1)] symbol name ++
            emissions (trace watch (e.watch trade).2 rest) symbol name := by
        simp [emissions]
      rw [watch_cooldown, hclock] at hemits hclocks
      rw [hfirings, hemissions]
      constructor
      · rw [Spacing.thin_append, hemit, hemits]
      · rw [Spacing.clock_append, final_cons, hclocks]

/-- A time on record is that of an alert the run has returned. -/
theorem last_is_emission (hnames : e.names.Nodup) (hfresh : e.lastAlertTs = .empty)
    (trades : List (Trade F)) {symbol name : String} {last : ℚ}
    (h : (final watch e trades).lastAlertTs.get? (symbol, name) = some last) :
    ∃ entry ∈ emissions (trace watch e trades) symbol name, eventTime entry = last := by
  obtain ⟨hemissions, hclock⟩ := e.emissions_eq_thin hnames trades symbol name
  rw [hclock] at h
  rw [hemissions]
  rcases Spacing.clock_mem eventTime h with hstart | hmem
  · simp [hfresh] at hstart
  · exact hmem

omit [LawfulDetector D F] in
/-- A bound that is not negative never makes a call raise. -/
theorem final_add_ok (hmax : ∀ symbol, 0 ≤ (e.windows.window symbol).maxTrades)
    (trades : List (Trade F)) (trade : Trade F) :
    (((final watch e trades).windows.window trade.symbol).add trade).1 = .ok () := by
  rw [e.final_window trades, SymbolWindow.add_of_nonneg]
  rw [SymbolWindow.replay_maxTrades]
  exact hmax trade.symbol

end Exact

section ExactShipped

variable {M : Type} (sklearn : SkLearn F M) (cfg : DetectionConfig F)

/-- What a detector that never changes says about a trade of a run: it reads the
window alone. -/
theorem fired_of_stateless {d : ShippedDetector F M}
    (hkeep : ∀ trade window, (Detector.inspect d trade window).2 = d)
    (hbuilt : d ∈ (init sklearn cfg).detectors) (hmax : 0 ≤ cfg.window.maxTrades)
    (before : List (Trade F)) (trade : Trade F) :
    ((final watch (init sklearn cfg) before).watch trade).1.fired (Detector.name d) =
      (alertOf (Detector.inspect d trade
        ((final watch (init sklearn cfg) before).windowAfter trade)).1).toList := by
  let e := final watch (init sklearn cfg) before
  have hmem : d ∈ e.detectors := mem_final_of_stateless (init sklearn cfg) hkeep hbuilt before
  have hnodup : (e.detectors.map Detector.name).Nodup := by
    have hnames := (init sklearn cfg).final_names before
    rw [names] at hnames
    rw [hnames]
    exact init_names_nodup sklearn cfg
  have hadd := (init sklearn cfg).final_add_ok (fun _ => hmax) before trade
  have hasked : (e.watch trade).1.fired (Detector.name d) =
      results (answers e.detectors trade (e.windowAfter trade)) (Detector.name d) :=
    congrArg (results · _) (asked_of_ok e trade hadd)
  exact hasked.trans (results_answers e.detectors hnodup hmem trade (e.windowAfter trade))

/-- When a detector that never changes has a result for a trade of a run. -/
theorem fires_iff_of_stateless {d : ShippedDetector F M}
    (hkeep : ∀ trade window, (Detector.inspect d trade window).2 = d)
    (hbuilt : d ∈ (init sklearn cfg).detectors) (hmax : 0 ≤ cfg.window.maxTrades)
    (before : List (Trade F)) (trade : Trade F) :
    (∃ alert, (Detector.name d, .ok (some alert)) ∈
        ((final watch (init sklearn cfg) before).watch trade).1.answers) ↔
      (alertOf (Detector.inspect d trade
        ((final watch (init sklearn cfg) before).windowAfter trade)).1).isSome := by
  have hfired := fired_of_stateless sklearn cfg hkeep hbuilt hmax before trade
  simp only [← mem_results]
  simp only [Observation.fired] at hfired
  simp [hfired, Option.isSome_iff_exists]

end ExactShipped

end DetectionEngine

end TradeWatch
