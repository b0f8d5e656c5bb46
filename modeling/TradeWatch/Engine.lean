import TradeWatch.Detectors.Base

/-!
The detection engine: it owns the windows, asks every detector about every
trade, suppresses repeat alerts of the same (symbol, detector) and keeps the
operational counters. What one call can do is said once, by
`inspectOne_cases` for one detector and by the lemmas on `inspectAll` and
`process` for the whole call; later modules argue from these.
-/

namespace TradeWatch

open PyFloat

structure DetectionEngine (D F : Type) [PyFloat F] where
  windows : WindowStore F
  detectors : List D
  cooldown : ℚ
  tradesProcessed : ℕ
  alertsRaised : ℕ
  alertsSuppressed : ℕ
  alertsByDetector : Counter String
  alertsBySeverity : Counter String
  lastAlertTs : OrderedDict (String × String) ℚ

/-- The sort key `(severity.rank, score)` of `a` is below that of `b`. -/
def keyLt {F : Type} [PyFloat F] (a b : Alert F) : Bool :=
  a.severity.rank < b.severity.rank ||
    (a.severity.rank = b.severity.rank && lt a.score.value b.score.value)

/-- `alerts.sort(key=..., reverse=True)`, which is stable. -/
def sortAlerts {F : Type} [PyFloat F] (alerts : List (Alert F)) : List (Alert F) :=
  alerts.insertionSort (fun a b => !keyLt a b)

namespace DetectionEngine

/-- `_build_detectors`. -/
def buildDetectors {F M : Type} [PyFloat F] (sklearn : SkLearn F M)
    (cfg : DetectionConfig F) : List (ShippedDetector F M) :=
  let minTrades := cfg.window.minTrades
  (if cfg.zscore.enabled then [.zscore cfg.zscore minTrades] else []) ++
    (if cfg.priceSpike.enabled then [.priceSpike cfg.priceSpike] else []) ++
    (if cfg.volumeSpike.enabled then [.volumeSpike cfg.volumeSpike minTrades] else []) ++
    (if cfg.velocity.enabled then [.velocity cfg.velocity] else []) ++
    (if cfg.spoofing.enabled then [.spoofing cfg.spoofing] else []) ++
    (if cfg.washTrade.enabled then [.washTrade cfg.washTrade] else []) ++
    (if cfg.isolationForest.enabled then
      [.isolationForest (.init sklearn cfg.isolationForest minTrades)] else [])

/-- A fresh engine over a given list of detectors. -/
def start {D F : Type} [PyFloat F] (detectors : List D) (maxTrades : ℤ)
    (horizonSeconds cooldownSeconds : ℚ) : DetectionEngine D F where
  windows := .init maxTrades horizonSeconds
  detectors := detectors
  cooldown := max 0 cooldownSeconds
  tradesProcessed := 0
  alertsRaised := 0
  alertsSuppressed := 0
  alertsByDetector := .empty
  alertsBySeverity := .empty
  lastAlertTs := .empty

/-- `DetectionEngine(config)`. -/
def init {F M : Type} [PyFloat F] (sklearn : SkLearn F M) (cfg : DetectionConfig F) :
    DetectionEngine (ShippedDetector F M) F :=
  start (buildDetectors sklearn cfg) cfg.window.maxTrades cfg.window.horizonSeconds
    cfg.alertCooldownSeconds

variable {D F : Type} [PyFloat F]

/-- The time map after an alert of this key has been let through. -/
def stamp (e : DetectionEngine D F) (trade : Trade F) (name : String) :
    OrderedDict (String × String) ℚ :=
  if e.cooldown ≤ 0 then e.lastAlertTs
  else e.lastAlertTs.set (trade.symbol, name) trade.timestamp

/-- The alert in an answer, if there is one. -/
def alertOf : Answer F → Option (Alert F)
  | .ok (some alert) => some alert
  | .ok none => none
  | .error _ => none

/-- The non-`None` results of the detector of this name among some answers. -/
def results (asked : List (String × Answer F)) (name : String) : List (Alert F) :=
  asked.filterMap (fun a => if a.1 = name then alertOf a.2 else none)

theorem mem_results {asked : List (String × Answer F)} {name : String} {alert : Alert F} :
    alert ∈ results asked name ↔ (name, .ok (some alert)) ∈ asked := by
  unfold results
  rw [List.mem_filterMap]
  constructor
  · rintro ⟨⟨other, answer⟩, hmem, heq⟩
    split at heq
    · rename_i hname
      obtain rfl : other = name := hname
      rcases answer with _ | _ | found
      · cases heq
      · cases heq
      · cases heq
        exact hmem
    · cases heq
  · intro hmem
    exact ⟨_, hmem, by simp [alertOf]⟩

theorem results_eq_nil {asked : List (String × Answer F)} {name : String}
    (h : name ∉ asked.map Prod.fst) : results asked name = [] := by
  apply List.filterMap_eq_nil_iff.mpr
  intro a ha
  have hne : a.1 ≠ name := fun heq => h (List.mem_map.mpr ⟨a, ha, heq⟩)
  simp [hne]

theorem results_cons (a : String × Answer F) (rest : List (String × Answer F)) (name : String) :
    results (a :: rest) name =
      (if a.1 = name then (alertOf a.2).toList else []) ++ results rest name := by
  unfold results
  rw [List.filterMap_cons]
  split_ifs with h
  · cases alertOf a.2 <;> rfl
  · rfl

/-- Names that are distinct give one result each at most. -/
theorem results_length_le {asked : List (String × Answer F)}
    (hnodup : (asked.map Prod.fst).Nodup) (name : String) : (results asked name).length ≤ 1 := by
  induction asked with
  | nil => simp [results]
  | cons a rest ih =>
      obtain ⟨ha, hrest⟩ := List.nodup_cons.mp hnodup
      rw [results_cons]
      split_ifs with hname
      · rw [results_eq_nil (hname ▸ ha)]
        cases alertOf a.2 <;> simp
      · exact ih hrest

variable [EventTime F]

/-- `_suppressed`. The window has read the trade's event time before, so that reading it
does not raise here. -/
def suppressed (e : DetectionEngine D F) (trade : Trade F) (detectorName : String) :
    Bool × DetectionEngine D F :=
  if e.cooldown ≤ 0 then (false, e)
  else
    let key := (trade.symbol, detectorName)
    let ts := trade.timestamp
    match e.lastAlertTs.get? key with
    | none => (false, { e with lastAlertTs := e.lastAlertTs.set key ts })
    | some last =>
        if EventTime.cooling last e.cooldown trade then
          (true, { e with alertsSuppressed := e.alertsSuppressed + 1 })
        else (false, { e with lastAlertTs := e.lastAlertTs.set key ts })

/-- What `suppressed` answers about a key and a trade's time. -/
def withinCooldown (e : DetectionEngine D F) (symbol detectorName : String) (trade : Trade F) :
    Bool :=
  0 < e.cooldown &&
    match e.lastAlertTs.get? (symbol, detectorName) with
    | none => false
    | some last => EventTime.cooling last e.cooldown trade

/-- The alert of an answer, unless the cooldown swallows it. -/
def due (e : DetectionEngine D F) (trade : Trade F) : String × Answer F → Option (Alert F)
  | (name, .ok (some alert)) =>
      if e.withinCooldown trade.symbol name trade then none else some alert
  | (_, .ok none) => none
  | (_, .error _) => none

theorem suppressed_eq (e : DetectionEngine D F) (trade : Trade F) (name : String) :
    e.suppressed trade name =
      if e.withinCooldown trade.symbol name trade then
        (true, { e with alertsSuppressed := e.alertsSuppressed + 1 })
      else (false, { e with lastAlertTs := e.stamp trade name }) := by
  unfold suppressed withinCooldown stamp
  rcases le_or_gt e.cooldown 0 with hc | hpos
  · simp [hc, not_lt.mpr hc]
  · rw [if_neg (not_le.mpr hpos), if_neg (not_le.mpr hpos)]
    cases hlast : e.lastAlertTs.get? (trade.symbol, name) with
    | none => simp [hlast]
    | some last =>
        cases hcooling : EventTime.cooling last e.cooldown trade <;>
          simp [hlast, hpos, hcooling]

theorem withinCooldown_congr {e e' : DetectionEngine D F} {symbol name : String}
    (hcooldown : e'.cooldown = e.cooldown)
    (hlast : e'.lastAlertTs.get? (symbol, name) = e.lastAlertTs.get? (symbol, name)) (trade : Trade F) :
    e'.withinCooldown symbol name trade = e.withinCooldown symbol name trade := by
  simp only [withinCooldown, hcooldown, hlast]

theorem due_congr {e e' : DetectionEngine D F} {trade : Trade F} {name : String}
    (hcooldown : e'.cooldown = e.cooldown)
    (hlast : e'.lastAlertTs.get? (trade.symbol, name) =
      e.lastAlertTs.get? (trade.symbol, name)) (answer : Answer F) :
    e'.due trade (name, answer) = e.due trade (name, answer) := by
  have hwithin := withinCooldown_congr hcooldown hlast trade
  rcases answer with _ | _ | alert
  · rfl
  · rfl
  · simp only [due, hwithin]

/-- An alert that is due is one of the answers, outside the cooldown. -/
theorem due_eq_some {e : DetectionEngine D F} {trade : Trade F} {name : String}
    {answer : Answer F} {alert : Alert F} :
    e.due trade (name, answer) = some alert ↔
      answer = .ok (some alert) ∧
        e.withinCooldown trade.symbol name trade = false := by
  rcases answer with _ | _ | other
  · simp [due]
  · simp [due]
  · cases hwithin : e.withinCooldown trade.symbol name trade <;> simp [due, hwithin]

variable [Detector D F]

/-- The body of the loop over the detectors. -/
def inspectOne (e : DetectionEngine D F) (trade : Trade F) (window : SymbolWindow F)
    (detector : D) : Option (Alert F) × D × DetectionEngine D F :=
  let name := Detector.name detector
  let (answer, detector) := Detector.inspect detector trade window
  match answer with
  | .error _ =>
      -- a single detector must never take down ingestion
      (none, detector,
        { e with alertsByDetector := Counter.incr e.alertsByDetector (name ++ ":error") })
  | .ok none => (none, detector, e)
  | .ok (some alert) =>
      match e.suppressed trade name with
      | (true, e) => (none, detector, e)
      | (false, e) =>
          (some alert, detector,
            { e with
              alertsRaised := e.alertsRaised + 1
              alertsByDetector := Counter.incr e.alertsByDetector name
              alertsBySeverity := Counter.incr e.alertsBySeverity alert.severity.value })

/-- The loop: the alerts in detector order, the detectors after it, the engine. -/
def inspectAll (trade : Trade F) (window : SymbolWindow F) :
    List D → DetectionEngine D F → List (Alert F) × List D × DetectionEngine D F
  | [], e => ([], [], e)
  | detector :: rest, e =>
      let (hit, detector, e) := e.inspectOne trade window detector
      let (alerts, detectors, e) := inspectAll trade window rest e
      (hit.toList ++ alerts, detector :: detectors, e)

/-- `process`. The window update stands outside the handler of the loop, so a
window that raises ends the call. -/
def process (e : DetectionEngine D F) (trade : Trade F) :
    Except PyError (List (Alert F)) × DetectionEngine D F :=
  let (window, windows) := e.windows.get trade.symbol
  match window.add trade with
  | (.error err, window) => (.error err, { e with windows := windows.write trade.symbol window })
  | (.ok (), window) =>
      let e :=
        { e with
          windows := windows.write trade.symbol window
          tradesProcessed := e.tradesProcessed + 1 }
      let (alerts, detectors, e) := inspectAll trade window e.detectors e
      (.ok (sortAlerts alerts), { e with detectors := detectors })

/-- What `stats` reports. -/
structure Stats where
  tradesProcessed : ℕ
  alertsRaised : ℕ
  alertsSuppressed : ℕ
  symbolsTracked : ℕ
  detectors : List String
  alertsByDetector : Counter String
  alertsBySeverity : Counter String

def stats (e : DetectionEngine D F) : Stats where
  tradesProcessed := e.tradesProcessed
  alertsRaised := e.alertsRaised
  alertsSuppressed := e.alertsSuppressed
  symbolsTracked := e.windows.symbols.length
  detectors := e.detectors.map Detector.name
  alertsByDetector := e.alertsByDetector
  alertsBySeverity := e.alertsBySeverity

/-- What each detector answers about a trade and a window. -/
def answers (detectors : List D) (trade : Trade F) (window : SymbolWindow F) :
    List (String × Answer F) :=
  detectors.map (fun d => (Detector.name d, (Detector.inspect d trade window).1))

omit [EventTime F] in
/-- A detector of the engine is the one detector the results of its name come
from. -/
theorem results_answers (detectors : List D) (hnodup : (detectors.map Detector.name).Nodup)
    {d : D} (hd : d ∈ detectors) (trade : Trade F) (window : SymbolWindow F) :
    results (answers detectors trade window) (Detector.name d) =
      (alertOf (Detector.inspect d trade window).1).toList := by
  induction detectors with
  | nil => simp at hd
  | cons first rest ih =>
      obtain ⟨hfirst, hrest⟩ := List.nodup_cons.mp hnodup
      have hcons : answers (first :: rest) trade window =
          (Detector.name first, (Detector.inspect first trade window).1) ::
            answers rest trade window := rfl
      rw [hcons, results_cons]
      rcases List.mem_cons.mp hd with rfl | hmem
      · have hnone : results (answers rest trade window) (Detector.name d) = [] := by
          apply results_eq_nil
          rw [answers, List.map_map]
          exact hfirst
        rw [hnone, if_pos rfl, List.append_nil]
      · have hne : Detector.name first ≠ Detector.name d :=
          fun heq => hfirst (heq ▸ List.mem_map_of_mem hmem)
        rw [if_neg hne, List.nil_append, ih hrest hmem]

/-- Everything one turn of the loop can do with an answer: what goes out, and
the engine after it. -/
inductive Turn (e : DetectionEngine D F) (trade : Trade F) (name : String) :
    Answer F → Option (Alert F) → DetectionEngine D F → Prop
  | raised (err : PyError) :
      Turn e trade name (.error err) none
        { e with alertsByDetector := Counter.incr e.alertsByDetector (name ++ ":error") }
  | silent : Turn e trade name (.ok none) none e
  | suppressed (alert : Alert F)
      (hwithin : e.withinCooldown trade.symbol name trade = true) :
      Turn e trade name (.ok (some alert)) none
        { e with alertsSuppressed := e.alertsSuppressed + 1 }
  | returned (alert : Alert F)
      (hwithin : e.withinCooldown trade.symbol name trade = false) :
      Turn e trade name (.ok (some alert)) (some alert)
        { e with
          alertsRaised := e.alertsRaised + 1
          alertsByDetector := Counter.incr e.alertsByDetector name
          alertsBySeverity := Counter.incr e.alertsBySeverity alert.severity.value
          lastAlertTs := e.stamp trade name }

/-- What the loop leaves alone: the windows, the detector list, the cooldown
and the number of trades. -/
structure SameFrame (e e' : DetectionEngine D F) : Prop where
  windows : e'.windows = e.windows
  detectors : e'.detectors = e.detectors
  cooldown : e'.cooldown = e.cooldown
  tradesProcessed : e'.tradesProcessed = e.tradesProcessed

section Turn

variable {e e' : DetectionEngine D F} {trade : Trade F} {name : String} {answer : Answer F}
  {hit : Option (Alert F)}

omit [Detector D F] in
theorem Turn.hit_eq (h : Turn e trade name answer hit e') : hit = e.due trade (name, answer) := by
  cases h with
  | raised err => rfl
  | silent => rfl
  | suppressed alert hwithin => simp [due, hwithin]
  | returned alert hwithin => simp [due, hwithin]

omit [Detector D F] in
theorem Turn.frame (h : Turn e trade name answer hit e') : SameFrame e e' := by
  cases h <;> exact ⟨rfl, rfl, rfl, rfl⟩

omit [Detector D F] in
/-- A turn moves the time of a key only to let an alert of that key out. -/
theorem Turn.lastAlertTs_get? (h : Turn e trade name answer hit e') (key : String × String) :
    e'.lastAlertTs.get? key =
      if 0 < e.cooldown ∧ key = (trade.symbol, name) ∧ hit.isSome then some trade.timestamp
      else e.lastAlertTs.get? key := by
  cases h with
  | raised err => simp
  | silent => simp
  | suppressed alert hwithin => simp
  | returned alert hwithin =>
      rcases le_or_gt e.cooldown 0 with hc | hpos
      · simp [stamp, hc, not_lt.mpr hc]
      · simp [stamp, not_le.mpr hpos, hpos, OrderedDict.get?_set]

theorem inspectOne_turn (e : DetectionEngine D F) (trade : Trade F) (window : SymbolWindow F)
    (d : D) :
    Turn e trade (Detector.name d) (Detector.inspect d trade window).1
      (e.inspectOne trade window d).1 (e.inspectOne trade window d).2.2 := by
  unfold inspectOne
  rcases hanswer : Detector.inspect d trade window with ⟨_ | _ | alert, d'⟩
  · exact Turn.raised _
  · exact Turn.silent
  · simp only [suppressed_eq]
    cases hwithin : e.withinCooldown trade.symbol (Detector.name d) trade with
    | true => exact Turn.suppressed alert hwithin
    | false => exact Turn.returned alert hwithin

theorem inspectOne_detector (e : DetectionEngine D F) (trade : Trade F)
    (window : SymbolWindow F) (d : D) :
    (e.inspectOne trade window d).2.1 = (Detector.inspect d trade window).2 := by
  unfold inspectOne
  rcases Detector.inspect d trade window with ⟨_ | _ | alert, d'⟩
  · rfl
  · rfl
  · simp only [suppressed_eq]
    split <;> rfl

end Turn

section Loop

variable (trade : Trade F) (window : SymbolWindow F)

theorem inspectAll_cons (d : D) (rest : List D) (e : DetectionEngine D F) :
    inspectAll trade window (d :: rest) e =
      let turn := e.inspectOne trade window d
      let loop := inspectAll trade window rest turn.2.2
      (turn.1.toList ++ loop.1, turn.2.1 :: loop.2.1, loop.2.2) := rfl

theorem inspectAll_frame (detectors : List D) (e : DetectionEngine D F) :
    SameFrame e (inspectAll trade window detectors e).2.2 := by
  induction detectors generalizing e with
  | nil => exact ⟨rfl, rfl, rfl, rfl⟩
  | cons d rest ih =>
      have hturn := (e.inspectOne_turn trade window d).frame
      have hloop := ih (e.inspectOne trade window d).2.2
      exact ⟨hloop.windows.trans hturn.windows, hloop.detectors.trans hturn.detectors,
        hloop.cooldown.trans hturn.cooldown, hloop.tradesProcessed.trans hturn.tradesProcessed⟩

theorem inspectAll_detectors (detectors : List D) (e : DetectionEngine D F) :
    (inspectAll trade window detectors e).2.1 =
      detectors.map (fun d => (Detector.inspect d trade window).2) := by
  induction detectors generalizing e with
  | nil => rfl
  | cons d rest ih => simp [inspectAll_cons, inspectOne_detector, ih]

/-- Detectors with names of their own do not see each other's alerts: each
answer is due or not by the engine before the loop. -/
theorem inspectAll_alerts (detectors : List D) (hnames : (detectors.map Detector.name).Nodup)
    (e : DetectionEngine D F) :
    (inspectAll trade window detectors e).1 =
      (answers detectors trade window).filterMap (e.due trade) := by
  induction detectors generalizing e with
  | nil => rfl
  | cons d rest ih =>
      obtain ⟨hd, hrest⟩ := List.nodup_cons.mp hnames
      have hturn := e.inspectOne_turn trade window d
      have hsame : (answers rest trade window).filterMap
            ((e.inspectOne trade window d).2.2.due trade) =
          (answers rest trade window).filterMap (e.due trade) := by
        apply List.filterMap_congr
        rintro ⟨name, answer⟩ hmem
        obtain ⟨other, hother, heq⟩ := List.mem_map.mp hmem
        obtain ⟨rfl, rfl⟩ := Prod.mk.inj heq
        apply due_congr hturn.frame.cooldown
        rw [hturn.lastAlertTs_get?, if_neg]
        rintro ⟨_, hkey, _⟩
        exact hd ((Prod.mk.inj hkey).2 ▸ List.mem_map_of_mem hother)
      simp only [inspectAll_cons, ih hrest, hsame]
      simp only [answers, List.map_cons, List.filterMap_cons]
      rw [hturn.hit_eq]
      cases e.due trade (Detector.name d, (Detector.inspect d trade window).1) <;> rfl

/-- The loop moves the time of exactly the keys it lets an alert out for. -/
theorem inspectAll_lastAlertTs (detectors : List D)
    (hnames : (detectors.map Detector.name).Nodup) (e : DetectionEngine D F)
    (symbol name : String) :
    (inspectAll trade window detectors e).2.2.lastAlertTs.get? (symbol, name) =
      if 0 < e.cooldown ∧ symbol = trade.symbol ∧
          e.withinCooldown symbol name trade = false ∧
          results (answers detectors trade window) name ≠ [] then
        some trade.timestamp
      else e.lastAlertTs.get? (symbol, name) := by
  induction detectors generalizing e with
  | nil => simp [inspectAll, answers, results]
  | cons d rest ih =>
      obtain ⟨hd, hrest⟩ := List.nodup_cons.mp hnames
      have hturn := e.inspectOne_turn trade window d
      have hget := hturn.lastAlertTs_get? (symbol, name)
      have hcons : answers (d :: rest) trade window =
          (Detector.name d, (Detector.inspect d trade window).1) ::
            answers rest trade window := rfl
      rw [inspectAll_cons, hcons, results_cons]
      refine (ih hrest _).trans ?_
      rcases eq_or_ne (Detector.name d) name with rfl | hname
      · have hnone : results (answers rest trade window) (Detector.name d) = [] := by
          apply results_eq_nil
          rw [answers, List.map_map]
          exact hd
        simp only [hnone, ne_eq, not_true_eq_false, and_false, if_false, hget, hturn.hit_eq]
        rcases eq_or_ne symbol trade.symbol with rfl | hsymbol
        · rcases (Detector.inspect d trade window).1 with _ | _ | alert
          · simp [due, alertOf]
          · simp [due, alertOf]
          · cases hwithin : e.withinCooldown trade.symbol (Detector.name d) trade <;>
              simp [due, alertOf, hwithin]
        · simp [hsymbol]
      · have hkeep : (e.inspectOne trade window d).2.2.lastAlertTs.get? (symbol, name) =
            e.lastAlertTs.get? (symbol, name) := by
          rw [hget, if_neg]
          rintro ⟨_, hkey, _⟩
          exact hname (Prod.mk.inj hkey).2.symm
        simp only [hkeep, hturn.frame.cooldown,
          withinCooldown_congr hturn.frame.cooldown hkeep, if_neg hname, List.nil_append]

end Loop

section Process

variable (e : DetectionEngine D F) (trade : Trade F)

/-- The window the detectors are shown when `trade` is processed. -/
def windowAfter : SymbolWindow F := ((e.windows.window trade.symbol).add trade).2

/-- What the detectors answer when `trade` is processed. A window that raises
keeps them from being asked. -/
def asked : List (String × Answer F) :=
  match ((e.windows.window trade.symbol).add trade).1 with
  | .error _ => []
  | .ok () => answers e.detectors trade (e.windowAfter trade)

/-- The engine as the loop over the detectors finds it. -/
def ingest : DetectionEngine D F :=
  { e with
    windows := (e.windows.get trade.symbol).2.write trade.symbol (e.windowAfter trade)
    tradesProcessed := e.tradesProcessed + 1 }

/-- A call, told by what its window makes of the trade. -/
theorem process_eq :
    e.process trade =
      match ((e.windows.window trade.symbol).add trade).1 with
      | .error err =>
          (.error err,
            { e with
              windows :=
                (e.windows.get trade.symbol).2.write trade.symbol (e.windowAfter trade) })
      | .ok () =>
          let loop := inspectAll trade (e.windowAfter trade) e.detectors (e.ingest trade)
          (.ok (sortAlerts loop.1), { loop.2.2 with detectors := loop.2.1 }) := by
  unfold process ingest windowAfter
  rw [← WindowStore.get_fst e.windows trade.symbol]
  rcases e.windows.get trade.symbol with ⟨window, windows⟩
  dsimp only
  rcases window.add trade with ⟨err | ⟨⟩, after⟩ <;> rfl

theorem process_of_error {err : PyError}
    (hadd : ((e.windows.window trade.symbol).add trade).1 = .error err) :
    e.process trade =
      (.error err,
        { e with
          windows :=
            (e.windows.get trade.symbol).2.write trade.symbol (e.windowAfter trade) }) := by
  rw [process_eq, hadd]

theorem process_of_ok (hadd : ((e.windows.window trade.symbol).add trade).1 = .ok ()) :
    e.process trade =
      let loop := inspectAll trade (e.windowAfter trade) e.detectors (e.ingest trade)
      (.ok (sortAlerts loop.1), { loop.2.2 with detectors := loop.2.1 }) := by
  rw [process_eq, hadd]

theorem asked_of_error {err : PyError}
    (hadd : ((e.windows.window trade.symbol).add trade).1 = .error err) :
    e.asked trade = [] := by
  simp [asked, hadd]

theorem asked_of_ok (hadd : ((e.windows.window trade.symbol).add trade).1 = .ok ()) :
    e.asked trade = answers e.detectors trade (e.windowAfter trade) := by
  simp [asked, hadd]

/-- The alerts that go out are the due answers, most severe first. -/
theorem process_returned (hnames : (e.detectors.map Detector.name).Nodup)
    (hadd : ((e.windows.window trade.symbol).add trade).1 = .ok ()) :
    (e.process trade).1 = .ok (sortAlerts ((e.asked trade).filterMap (e.due trade))) := by
  rw [process_of_ok e trade hadd, asked_of_ok e trade hadd]
  simp only [inspectAll_alerts trade (e.windowAfter trade) e.detectors hnames]
  rfl

theorem process_window (symbol : String) :
    (e.process trade).2.windows.window symbol =
      if symbol = trade.symbol then e.windowAfter trade else e.windows.window symbol := by
  have hwrite : ((e.windows.get trade.symbol).2.write trade.symbol
      (e.windowAfter trade)).window symbol =
        if symbol = trade.symbol then e.windowAfter trade else e.windows.window symbol := by
    split
    · rename_i h
      rw [h, WindowStore.window_write_self]
    · rename_i h
      rw [WindowStore.window_write_ne _ h, WindowStore.window_get]
  rcases hadd : ((e.windows.window trade.symbol).add trade).1 with err | ⟨⟩
  · rw [process_of_error e trade hadd]
    exact hwrite
  · rw [process_of_ok e trade hadd]
    have hframe := inspectAll_frame trade (e.windowAfter trade) e.detectors (e.ingest trade)
    simp only [hframe.windows]
    exact hwrite

/-- The registry tracks one more symbol at most. -/
theorem process_symbols (symbol : String) :
    symbol ∈ (e.process trade).2.windows.symbols ↔
      symbol = trade.symbol ∨ symbol ∈ e.windows.symbols := by
  rcases hadd : ((e.windows.window trade.symbol).add trade).1 with err | ⟨⟩
  · rw [process_of_error e trade hadd]
    exact WindowStore.mem_symbols_write_get _ _ _ _
  · rw [process_of_ok e trade hadd]
    have hframe := inspectAll_frame trade (e.windowAfter trade) e.detectors (e.ingest trade)
    simp only [hframe.windows]
    exact WindowStore.mem_symbols_write_get _ _ _ _

theorem process_cooldown : (e.process trade).2.cooldown = e.cooldown := by
  rcases hadd : ((e.windows.window trade.symbol).add trade).1 with err | ⟨⟩
  · rw [process_of_error e trade hadd]
  · rw [process_of_ok e trade hadd]
    exact (inspectAll_frame trade (e.windowAfter trade) e.detectors (e.ingest trade)).cooldown

theorem process_detectors_of_ok
    (hadd : ((e.windows.window trade.symbol).add trade).1 = .ok ()) :
    (e.process trade).2.detectors =
      e.detectors.map (fun d => (Detector.inspect d trade (e.windowAfter trade)).2) := by
  rw [process_of_ok e trade hadd]
  exact inspectAll_detectors trade (e.windowAfter trade) e.detectors (e.ingest trade)

theorem process_names [LawfulDetector D F] :
    (e.process trade).2.detectors.map Detector.name = e.detectors.map Detector.name := by
  rcases hadd : ((e.windows.window trade.symbol).add trade).1 with err | ⟨⟩
  · rw [process_of_error e trade hadd]
  · rw [process_detectors_of_ok e trade hadd, List.map_map]
    apply List.map_congr_left
    intro d _
    exact LawfulDetector.name_inspect d trade (e.windowAfter trade)

end Process

end DetectionEngine

end TradeWatch
