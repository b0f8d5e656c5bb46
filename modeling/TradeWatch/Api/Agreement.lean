import TradeWatch.Accounting
import TradeWatch.Api.Admission

/-!
Two producers, the request handler and the background pipeline, write to three
aggregates: the engine's counters, the collector's totals and the broadcaster.
Between any two events all three tell the same story, once the alerts that the
pipeline has still to dispatch are counted in.
-/

namespace TradeWatch

open Transducer

variable {D F : Type} [PyFloat F]

/-- The engine's counters and the collector's totals tell the same, the error
counters of the detectors `names` apart, which only the engine keeps. -/
structure Agree (names : List String) (e : DetectionEngine D F) (m : MetricsCollector F) :
    Prop where
  trades : e.tradesProcessed = m.totalTrades
  alerts : e.alertsRaised = m.totalAlerts
  byDetector : ∀ key, (∀ name ∈ names, key ≠ name ++ ":error") →
    e.alertsByDetector.get? key = m.byDetector.get? key
  bySeverity : ∀ key, e.alertsBySeverity.get? key = m.bySeverity.get? key

section Agree

variable [Detector D F] {e : DetectionEngine D F} {m : MetricsCollector F} {trade : Trade F}

/-- What an event can do to the engine and the collector, with the alerts that
the engine returns. -/
inductive Booking (e : DetectionEngine D F) (m : MetricsCollector F) :
    List (Alert F) → DetectionEngine D F → MetricsCollector F → Prop
  | idle : Booking e m [] e m
  | failed (trade : Trade F) (err : PyError) (herr : (e.process trade).1 = .error err) :
      Booking e m [] (e.process trade).2 m
  | recorded (trade : Trade F) (alerts : List (Alert F)) (latencyUs : F) (now : ℚ)
      (hok : (e.process trade).1 = .ok alerts) :
      Booking e m alerts (e.process trade).2 (m.record trade alerts latencyUs now)

/-- A call that returns alerts moves the counters as `record` moves the totals. -/
theorem Agree.recorded [LawfulDetector D F] (h : Agree e.names e m) {alerts : List (Alert F)}
    (hok : (e.process trade).1 = .ok alerts) (latencyUs : F) (now : ℚ) :
    Agree e.names (e.process trade).2 (m.record trade alerts latencyUs now) := by
  obtain ⟨hprocessed, htallied⟩ := e.process_tallied trade hok
  obtain ⟨htrades, halerts⟩ := m.record_totals trade alerts latencyUs now
  obtain ⟨hdetector, hseverity⟩ := m.record_breakdowns trade alerts latencyUs now
  exact
    { trades := by rw [hprocessed, htrades, h.trades]
      alerts := by rw [htallied.raised, halerts, h.alerts]
      byDetector := by
        intro key hkey
        rw [htallied.byDetector key hkey, hdetector]
        exact Counter.get?_tally_congr (h.byDetector key hkey) rfl
      bySeverity := by
        intro key
        rw [htallied.bySeverity, hseverity]
        exact Counter.get?_tally_congr (h.bySeverity key) rfl }

/-- A call that raises counts nothing. -/
theorem process_failed {err : PyError} (herr : (e.process trade).1 = .error err) :
    ∃ windows, (e.process trade).2 = { e with windows := windows } := by
  rcases hadd : ((e.windows.window trade.symbol).add trade).1 with err' | ⟨⟩
  · rw [e.process_of_error trade hadd]
    exact ⟨_, rfl⟩
  · rw [e.process_of_ok trade hadd] at herr
    cases herr

theorem Booking.agree [LawfulDetector D F] {alerts : List (Alert F)} {e' : DetectionEngine D F}
    {m' : MetricsCollector F} (hbooking : Booking e m alerts e' m') (h : Agree e.names e m) :
    Agree e.names e' m' ∧ e'.names = e.names ∧
      e'.alertsRaised = e.alertsRaised + alerts.length := by
  cases hbooking with
  | idle => exact ⟨h, rfl, rfl⟩
  | failed trade err herr =>
      obtain ⟨windows, hprocess⟩ := process_failed herr
      rw [hprocess]
      exact ⟨⟨h.trades, h.alerts, h.byDetector, h.bySeverity⟩, rfl, rfl⟩
  | recorded trade alerts latencyUs now hok =>
      exact ⟨h.recorded hok latencyUs now, e.process_names trade,
        (e.process_tallied trade hok).2.raised⟩

end Agree

/-- Who works on an event's trade or alert. -/
inductive Producer
  | handler
  | pipeline
  deriving DecidableEq, Repr

def Event.producer : Event F → Option Producer
  | .post _ => some .handler
  | .sourced _ _ _ => some .pipeline
  | .emit => some .pipeline
  | .stop => none
  | .subscribe _ => none
  | .unsubscribe _ _ => none
  | .receive _ _ => none

/-- The alerts that a response reports. -/
def Response.raised : Response F → List (Alert F)
  | .ok _ alerts _ => alerts
  | .unauthorized => []
  | .unprocessable => []
  | .guardrail _ => []
  | .rateLimited => []
  | .serverError => []

theorem Response.raised_of_refusedAs {response : Response F} {action : String}
    (h : response.refusedAs = some action) : response.raised = [] := by
  cases response with
  | ok tradeId alerts anomalous => cases h
  | _ => rfl

namespace AppState

/-- The alerts that the pipeline has still to dispatch. -/
def dispatching (s : AppState D F) : List (Alert F) :=
  match s.pipeline with
  | none => []
  | some pipeline => pipeline.dispatching

/-- The alerts of a producer that were raised and are not yet published. -/
def inFlight (s : AppState D F) : Producer → List (Alert F)
  | .handler => []
  | .pipeline => s.dispatching

/-- What is seen at the events of one producer. -/
def seenBy (producer : Producer) (observe : AppState D F → Event F → List (Alert F))
    (s : AppState D F) (event : Event F) : List (Alert F) :=
  if event.producer = some producer then observe s event else []

theorem dispatching_of_takesTrade {s : AppState D F} (h : s.takesTrade = true) :
    s.dispatching = [] := by
  unfold takesTrade at h
  unfold dispatching
  rcases hpipeline : s.pipeline with _ | pipeline
  · rfl
  · simp only [hpipeline, Bool.and_eq_true, List.isEmpty_iff] at h
    exact h.2

theorem dispatching_congr {s s' : AppState D F} (h : s'.pipeline = s.pipeline) :
    s'.dispatching = s.dispatching := by
  simp only [dispatching, h]

theorem Admission.pipeline_eq {cases : CaseMap} {s s' : AppState D F} {req : Request F}
    {result : Except (Response F) (Trade F)} (h : Admission cases s req result s') :
    s'.pipeline = s.pipeline := by
  cases h <;> rfl

/-- A request that is turned down reports no alert. -/
theorem Admission.raised_eq_nil {cases : CaseMap} {s s' : AppState D F} {req : Request F}
    {response : Response F} (h : Admission cases s req (.error response) s') :
    response.raised = [] := by
  cases h with
  | refused _ record rateLimiter haction => exact Response.raised_of_refusedAs haction
  | invalid => rfl

variable [Detector D F]

/-- The alerts that the engine returns for the trade of an event. -/
def raised (cases : CaseMap) (s : AppState D F) (event : Event F) : List (Alert F) :=
  match s.handed cases event with
  | none => []
  | some trade => ((s.engine.process trade).1.toOption).getD []

/-- The alerts that an event publishes. -/
def published (cases : CaseMap) (s : AppState D F) : Event F → List (Alert F)
  | .post req => (s.post cases req).1.raised
  | .emit => s.dispatching.take 1
  | .sourced _ _ _ => []
  | .stop => []
  | .subscribe _ => []
  | .unsubscribe _ _ => []
  | .receive _ _ => []

/-- The account of an event: how it moves the engine and the collector, what it
adds to the broadcaster's history, and where each producer's alerts are. -/
structure Work (s s' : AppState D F) (producer : Option Producer)
    (raised published : List (Alert F)) : Prop where
  booking : Booking s.engine s.metrics raised s'.engine s'.metrics
  history : ∀ stream, s.broadcaster.recent.Keeps stream →
    s'.broadcaster.recent.Keeps (stream ++ published.map .alert)
  flight : ∀ p, (if producer = some p then published else []) ++ s'.inFlight p =
    s.inFlight p ++ (if producer = some p then raised else [])
  balance : (published ++ s'.dispatching).Perm (s.dispatching ++ raised)

/-- An event without alerts. -/
theorem Work.quiet {s s' : AppState D F} (producer : Option Producer)
    (hbooking : Booking s.engine s.metrics [] s'.engine s'.metrics)
    (hrecent : s'.broadcaster.recent = s.broadcaster.recent)
    (hdispatching : s'.dispatching = s.dispatching) : Work s s' producer [] [] where
  booking := hbooking
  history stream h := by
    rw [hrecent, List.map_nil, List.append_nil]
    exact h
  flight p := by
    cases p <;> simp [inFlight, hdispatching]
  balance := by
    rw [hdispatching, List.nil_append, List.append_nil]

/-- Work counts from any state with the same aggregates. -/
theorem Work.congr {s s₀ s' : AppState D F} {producer : Option Producer}
    {raised published : List (Alert F)} (h : Work s₀ s' producer raised published)
    (hsame : Untouched s s₀) (hdispatching : s₀.dispatching = s.dispatching) :
    Work s s' producer raised published := by
  have hflight : s₀.inFlight = s.inFlight := by
    funext p
    cases p with
    | handler => rfl
    | pipeline => exact hdispatching
  obtain ⟨hbooking, hhistory, hmoves, hbalance⟩ := h
  rw [hsame.engine, hsame.metrics] at hbooking
  rw [hsame.broadcaster] at hhistory
  rw [hflight] at hmoves
  rw [hdispatching] at hbalance
  exact ⟨hbooking, hhistory, hmoves, hbalance⟩

/-- The handler publishes what it raises. -/
theorem ingest_work (s : AppState D F) (req : Request F) (trade : Trade F) :
    Work s (s.ingest req trade).2 (some .handler)
      (((s.engine.process trade).1.toOption).getD []) (s.ingest req trade).1.raised := by
  have hfailed := Booking.failed (e := s.engine) (m := s.metrics) trade
  have hrecorded := Booking.recorded (e := s.engine) (m := s.metrics) trade
  dsimp only [ingest]
  rcases hprocess : s.engine.process trade with ⟨err | alerts, engine⟩
  · rw [hprocess] at hfailed
    exact .quiet _ (hfailed err rfl) rfl rfl
  · rw [hprocess] at hrecorded
    exact
      { booking := hrecorded alerts req.latencyUs req.recordedAt rfl
        history := fun stream h =>
          Broadcaster.publishAlerts_keeps (b := s.broadcaster.publishTrade trade) h alerts
        flight := by
          intro p
          cases p with
          | handler => exact List.append_nil alerts
          | pipeline => exact (List.append_nil s.dispatching).symm
        balance := List.perm_append_comm }

theorem post_work (cases : CaseMap) (s : AppState D F) (req : Request F) :
    Work s (s.post cases req).2 (some .handler) (s.raised cases (.post req))
      (s.published cases (.post req)) := by
  have hadmission := accept_admission cases s req
  have hfree := hadmission.untouched
  have hdispatching := dispatching_congr hadmission.pipeline_eq
  rcases haccept : (s.accept cases req).1 with response | trade
  · rw [haccept] at hadmission
    simp only [raised, published, handed_of_error haccept, post_of_error haccept,
      hadmission.raised_eq_nil]
    refine .quiet _ ?_ (by rw [hfree.broadcaster]) hdispatching
    rw [hfree.engine, hfree.metrics]
    exact .idle
  · simp only [raised, published, handed_of_ok haccept, post_of_ok haccept]
    have hwork := (s.accept cases req).2.ingest_work req trade
    rw [hfree.engine] at hwork
    exact hwork.congr hfree hdispatching

/-- The pipeline keeps what it raises, to publish it alert by alert. -/
theorem handleTrade_work {s : AppState D F} (htakes : s.takesTrade = true) (trade : Trade F)
    (recordedAt : ℚ) (latencyUs : F) :
    Work s (s.handleTrade trade recordedAt latencyUs) (some .pipeline)
      (((s.engine.process trade).1.toOption).getD []) [] := by
  have hidle := dispatching_of_takesTrade htakes
  have hfailed := Booking.failed (e := s.engine) (m := s.metrics) trade
  have hrecorded := Booking.recorded (e := s.engine) (m := s.metrics) trade
  dsimp only [handleTrade]
  rcases hprocess : s.engine.process trade with ⟨err | alerts, engine⟩
  · rw [hprocess] at hfailed
    exact .quiet _ (hfailed err rfl) rfl hidle.symm
  · rw [hprocess] at hrecorded
    exact
      { booking := hrecorded alerts latencyUs recordedAt rfl
        history := fun stream h => by
          rw [List.map_nil, List.append_nil]
          exact h
        flight := by
          intro p
          cases p with
          | handler => rfl
          | pipeline =>
              change alerts = s.dispatching ++ alerts
              rw [hidle, List.nil_append]
        balance := by
          rw [hidle]
          exact List.Perm.refl alerts }

theorem emit_work (s : AppState D F) :
    Work s s.emit (some .pipeline) [] (s.dispatching.take 1) := by
  unfold emit
  split
  · rename_i running alert rest hpipeline
    have hdispatching : s.dispatching = alert :: rest := by
      rw [dispatching, hpipeline]
    rw [hdispatching]
    exact
      { booking := .idle
        history := fun stream h => Broadcaster.publishAlerts_keeps h [alert]
        flight := by
          intro p
          cases p with
          | handler => rfl
          | pipeline =>
              change alert :: rest = s.dispatching ++ []
              rw [hdispatching, List.append_nil]
        balance := by
          rw [hdispatching, List.append_nil]
          exact List.Perm.refl _ }
  · rename_i running hpipeline
    have hdispatching : s.dispatching = [] := by
      rw [dispatching, hpipeline]
    rw [hdispatching]
    exact .quiet _ .idle rfl rfl
  · rename_i hpipeline
    have hdispatching : s.dispatching = [] := by
      rw [dispatching, hpipeline]
    rw [hdispatching]
    exact .quiet _ .idle rfl rfl

theorem step_work (cases : CaseMap) (s : AppState D F) {event : Event F} (hevent : event ≠ .stop) :
    Work s (s.step cases event).2 event.producer (s.raised cases event)
      (s.published cases event) := by
  cases event with
  | post req => exact s.post_work cases req
  | sourced trade recordedAt latencyUs =>
      cases htakes : s.takesTrade with
      | false =>
          simp only [step, raised, handed, htakes, Bool.false_eq_true, if_false]
          exact .quiet _ .idle rfl rfl
      | true =>
          simp only [step, raised, handed, htakes, if_true]
          exact handleTrade_work htakes trade recordedAt latencyUs
  | emit => exact s.emit_work
  | stop => exact absurd rfl hevent
  | subscribe kind => exact .quiet _ .idle (s.broadcaster.subscribe_recent kind) rfl
  | unsubscribe kind queue => exact .quiet _ .idle (s.broadcaster.recent_withSubs _ _) rfl
  | receive kind queue => exact .quiet _ .idle (s.broadcaster.receive_recent kind queue) rfl

/-- The books of a run: the two tallies agree, and every alert that was raised
has been published or waits to be. -/
structure Account (cases : CaseMap) (start : AppState D F) (events : List (Event F)) :
    Prop where
  names : (final (step cases) start events).engine.names = start.engine.names
  agree : Agree start.engine.names (final (step cases) start events).engine
    (final (step cases) start events).metrics
  raised : (final (step cases) start events).engine.alertsRaised =
    start.engine.alertsRaised + (gather (step cases) (raised cases) start events).length
  flight : ∀ p, gather (step cases) (seenBy p (published cases)) start events ++
      (final (step cases) start events).inFlight p =
    start.inFlight p ++ gather (step cases) (seenBy p (AppState.raised cases)) start events
  balance : (gather (step cases) (published cases) start events ++
      (final (step cases) start events).dispatching).Perm
    (start.dispatching ++ gather (step cases) (AppState.raised cases) start events)
  history : ∀ stream, start.broadcaster.recent.Keeps stream →
    (final (step cases) start events).broadcaster.recent.Keeps
      (stream ++ (gather (step cases) (published cases) start events).map .alert)

theorem Account.nil (cases : CaseMap) {start : AppState D F}
    (hagree : Agree start.engine.names start.engine start.metrics) : Account cases start [] where
  names := rfl
  agree := hagree
  raised := rfl
  flight p := (List.append_nil (start.inFlight p)).symm
  balance := by
    rw [gather_nil, gather_nil, List.nil_append, List.append_nil, final_nil]
  history stream h := by
    rw [gather_nil, List.map_nil, List.append_nil]
    exact h

/-- One more event enters the books with its own account. -/
theorem Account.snoc [LawfulDetector D F] {cases : CaseMap} {start : AppState D F}
    {events : List (Event F)} (h : Account cases start events) {event : Event F}
    (hevent : event ≠ .stop) : Account cases start (events ++ [event]) := by
  have hwork := step_work cases (final (step cases) start events) hevent
  have hbefore := h.agree
  rw [← h.names] at hbefore
  obtain ⟨hagree, hnames, hraised⟩ := hwork.booking.agree hbefore
  constructor
  · rw [final_append, final_cons, final_nil, hnames, h.names]
  · rw [final_append, final_cons, final_nil, ← h.names]
    exact hagree
  · rw [final_append, final_cons, final_nil, gather_append, gather_singleton, hraised, h.raised,
      List.length_append, Nat.add_assoc]
  · intro p
    have hflight := hwork.flight p
    rw [final_append, final_cons, final_nil, gather_append, gather_append, gather_singleton,
      gather_singleton, List.append_assoc, ← List.append_assoc (start.inFlight p), ← h.flight p,
      List.append_assoc]
    exact congrArg _ hflight
  · rw [final_append, final_cons, final_nil, gather_append, gather_append, gather_singleton,
      gather_singleton, List.append_assoc, ← List.append_assoc start.dispatching]
    refine ((hwork.balance).append_left _).trans ?_
    rw [← List.append_assoc]
    exact h.balance.append_right _
  · intro stream hstream
    rw [final_append, final_cons, final_nil, gather_append, gather_singleton, List.map_append,
      ← List.append_assoc]
    exact hwork.history _ (h.history stream hstream)

theorem account_run [LawfulDetector D F] (cases : CaseMap) {start : AppState D F}
    (hagree : Agree start.engine.names start.engine start.metrics) (events : List (Event F))
    (huncancelled : Event.stop ∉ events) : Account cases start events := by
  induction events using List.reverseRecOn with
  | nil => exact Account.nil cases hagree
  | append_singleton before event ih =>
      rw [List.mem_append, not_or, List.mem_singleton] at huncancelled
      exact (ih huncancelled.1).snoc (Ne.symm huncancelled.2)

section Shipped

variable {M : Type} (sklearn : SkLearn F M) (settings : Settings) (cfg : DetectionConfig F)
  (startTime : ℚ)

theorem boot_fresh : (boot sklearn settings cfg startTime).engine = .init sklearn cfg ∧
    (boot sklearn settings cfg startTime).metrics = .init startTime ∧
    (boot sklearn settings cfg startTime).broadcaster = .init settings.alertBufferSize ∧
    (boot sklearn settings cfg startTime).dispatching = [] := by
  unfold boot startSource dispatching
  split
  · exact ⟨rfl, rfl, rfl, rfl⟩
  · split <;> exact ⟨rfl, rfl, rfl, rfl⟩

/-- Whatever the interleaving of requests with the pipeline, after each event
the engine and the collector agree on every total and on both breakdowns, the
alerts published and those in flight are the ones raised, each producer's in
the order it raised them, and the broadcaster's history ends with the last ones
published. -/
theorem books_agree (cases : CaseMap) (events : List (Event F))
    (huncancelled : Event.stop ∉ events) :
    let start := boot sklearn settings cfg startTime
    let s := final (step cases) start events
    let allPublished := gather (step cases) (published cases) start events
    s.engine.tradesProcessed = s.metrics.totalTrades ∧
      s.engine.alertsRaised = s.metrics.totalAlerts ∧
      (∀ name ∈ DetectionEngine.shippedNames,
        Counter.count s.engine.alertsByDetector name = Counter.count s.metrics.byDetector name) ∧
      (∀ key, s.engine.alertsBySeverity.get? key = s.metrics.bySeverity.get? key) ∧
      allPublished.length + s.dispatching.length = s.engine.alertsRaised ∧
      (∀ p, gather (step cases) (seenBy p (published cases)) start events ++ s.inFlight p =
        gather (step cases) (seenBy p (raised cases)) start events) ∧
      s.broadcaster.recent.Keeps (allPublished.map .alert) := by
  intro start s allPublished
  obtain ⟨hengine, hmetrics, hbroadcaster, hidle⟩ := boot_fresh sklearn settings cfg startTime
  have hfresh : Agree start.engine.names start.engine start.metrics := by
    rw [show start.engine = _ from hengine, show start.metrics = _ from hmetrics]
    exact ⟨rfl, rfl, fun _ _ => rfl, fun _ => rfl⟩
  have haccount := account_run cases hfresh events huncancelled
  refine ⟨haccount.agree.trades, haccount.agree.alerts, ?_, haccount.agree.bySeverity, ?_, ?_, ?_⟩
  · intro name hname
    have hget := haccount.agree.byDetector name (by
      intro other hother
      rw [show start.engine = _ from hengine] at hother
      have hsub := (DetectionEngine.init_names_sublist sklearn cfg).subset
      exact DetectionEngine.shippedNames_plain name hname other (hsub hother))
    rw [Counter.count, Counter.count, hget]
  · have hlength := haccount.balance.length_eq
    rw [List.length_append, List.length_append, show start.dispatching = [] from hidle,
      List.length_nil, Nat.zero_add] at hlength
    rw [haccount.raised, show start.engine = _ from hengine]
    exact hlength.trans (Nat.zero_add _).symm
  · intro p
    have hnone : start.inFlight p = [] := by
      cases p with
      | handler => rfl
      | pipeline => exact hidle
    rw [haccount.flight p, hnone, List.nil_append]
  · have hhistory := haccount.history [] (by
      rw [show start.broadcaster = _ from hbroadcaster]
      exact BoundedDeque.keeps_empty _)
    rwa [List.nil_append] at hhistory

/-- A request for a trade between one account and itself. -/
def postSelfTrade (timestamp : ℚ) : Request ℚ where
  payload :=
    { symbol := "ACME"
      price := 100
      quantity := 1
      timestamp := some timestamp
      accountId := some "acct-1"
      counterpartyId := some "acct-1" }
  newId := "trd_1"
  utcnow := timestamp
  arrivedAt := timestamp
  recordedAt := timestamp
  latencyUs := 50

/-- The alert of a self-trade waits in the pipeline while the one of a second
self-trade is raised by a request and published. -/
theorem books_agree_self_trades :
    let start := boot SkLearn.missing ({} : Settings) ({} : DetectionConfig ℚ) 0
    let events : List (Event ℚ) :=
      [.sourced (selfTradeAt "a" 0) 0 50, .post (postSelfTrade 8)]
    let s := final (step .asciiOnly) start events
    s.engine.alertsRaised = 2 ∧ s.engine.alertsRaised = s.metrics.totalAlerts ∧
      s.dispatching.length = 1 ∧
      gather (step .asciiOnly) (seenBy .pipeline (published .asciiOnly)) start events ++
          s.inFlight .pipeline =
        gather (step .asciiOnly) (seenBy .pipeline (raised .asciiOnly)) start events := by
  intro start events s
  obtain ⟨_, halerts, _, _, _, hflight, _⟩ :=
    books_agree SkLearn.missing {} {} 0 .asciiOnly events (by simp [events])
  exact ⟨by decide +kernel, halerts, by decide +kernel, hflight .pipeline⟩

end Shipped

end AppState

end TradeWatch
