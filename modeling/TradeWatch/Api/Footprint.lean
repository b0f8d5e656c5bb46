import TradeWatch.Api.Agreement
import TradeWatch.Api.Containment
import TradeWatch.Footprint

/-!
What the whole service holds after a run. Nothing it keeps grows with the number of
events: there is room for so much per tracked symbol, per client that the rate limiter
has seen and per open feed, and a fixed rest. The clock that the collector reads must not
go back, since buckets of a later time than now are never trimmed. Clients are never
forgotten. Symbols are bounded by the guardrails, up to those of the pipeline's source.
-/

namespace TradeWatch

open PyFloat OrderedDict Transducer

variable {D F M : Type} [PyFloat F]

namespace Broadcaster

/-- What the broadcaster keeps, counted. -/
def held (b : Broadcaster F) : ℕ :=
  b.recent.items.length + b.alertSubs.footprint (·.items.length) +
    b.tradeSubs.footprint (·.items.length)

/-- The open feeds. -/
def queues (b : Broadcaster F) : ℕ := b.alertSubs.keys.length + b.tradeSubs.keys.length

/-- The history and the queues are as long as they were made. -/
structure Confined (history : ℕ) (b : Broadcaster F) : Prop where
  recent : b.recent.maxlen = history
  subs : ∀ kind, (b.subs kind).Within (fun _ => True) (·.maxsize = 1000)

variable {history : ℕ} {b : Broadcaster F}

theorem Confined.withSubs (h : Confined history b) (kind : FeedKind) {subs : Subscribers F}
    (hsubs : subs.Within (fun _ => True) (·.maxsize = 1000)) :
    Confined history (b.withSubs kind subs) := by
  refine ⟨(congrArg BoundedDeque.maxlen (b.recent_withSubs kind subs)).trans h.recent, ?_⟩
  intro other
  rcases eq_or_ne other kind with rfl | hne
  · rw [subs_withSubs]
    exact hsubs
  · rw [subs_withSubs_ne b hne]
    exact h.subs other

theorem Confined.subscribe (h : Confined history b) (kind : FeedKind) :
    Confined history (b.subscribe kind).2 := by
  have hset : ((b.subs kind).set b.nextQueue (.empty 1000)).Within (fun _ => True)
      (·.maxsize = 1000) := (h.subs kind).set trivial rfl
  have hopened := h.withSubs kind hset
  exact ⟨hopened.recent, hopened.subs⟩

theorem Confined.unsubscribe (h : Confined history b) (kind : FeedKind) (queue : ℕ) :
    Confined history (b.unsubscribe kind queue) :=
  h.withSubs kind (((h.subs kind).filterKeys _).allow fun _ _ => trivial)

theorem Confined.receive (h : Confined history b) (kind : FeedKind) (queue : ℕ) :
    Confined history (b.receive kind queue).2 := by
  unfold Broadcaster.receive
  rcases hqueue : (b.subs kind).get? queue with _ | q
  · exact h
  · rw [Option.bind_some]
    rcases hget : q.get with _ | ⟨payload, rest⟩
    · exact h
    · refine h.withSubs kind ((h.subs kind).set trivial ?_)
      rw [(BoundedQueue.get_eq_some hget).2]
      exact ((h.subs kind).get? hqueue).2

theorem within_fanOut {subs : Subscribers F} (h : subs.Within (fun _ => True) (·.maxsize = 1000))
    (payload : Payload F) : (fanOut subs payload).Within (fun _ => True) (·.maxsize = 1000) :=
  h.mapValues fun q hq => (q.maxsize_offered payload).trans hq

theorem Confined.publishAlert (h : Confined history b) (alert : Alert F) :
    Confined history (b.publishAlert alert) where
  recent := h.recent
  subs
    | .alerts => within_fanOut (h.subs .alerts) _
    | .trades => h.subs .trades

theorem Confined.publishTrade (h : Confined history b) (trade : Trade F) :
    Confined history (b.publishTrade trade) where
  recent := h.recent
  subs
    | .alerts => h.subs .alerts
    | .trades => within_fanOut (h.subs .trades) _

theorem Confined.publishAlerts (h : Confined history b) (alerts : List (Alert F)) :
    Confined history (b.publishAlerts alerts) := by
  induction alerts generalizing b with
  | nil => exact h
  | cons alert rest ih => exact ih (h.publishAlert alert)

theorem Confined.held_le (h : Confined history b) : b.held ≤ history + b.queues * 1001 := by
  have hqueue : ∀ kind, (b.subs kind).footprint (·.items.length) ≤
      (b.subs kind).keys.length * (1 + 1000) := fun kind =>
    footprint_le_keys ((h.subs kind).mono (fun _ hkey => hkey) fun q hq => hq ▸ q.bounded)
  have halerts : b.alertSubs.footprint (·.items.length) ≤ b.alertSubs.keys.length * (1 + 1000) :=
    hqueue .alerts
  have htrades : b.tradeSubs.footprint (·.items.length) ≤ b.tradeSubs.keys.length * (1 + 1000) :=
    hqueue .trades
  have hrecent := h.recent ▸ b.recent.bounded
  unfold held queues
  omega

end Broadcaster

namespace RateLimiter

/-- What the limiter keeps, counted. -/
def stored (limiter : RateLimiter) : ℕ := limiter.hits.footprint List.length

structure Confined (perMinute : ℤ) (limiter : RateLimiter) : Prop where
  perMinute_eq : limiter.perMinute = perMinute
  hits : limiter.hits.Within (fun _ => True) (·.length ≤ perMinute.toNat)

theorem Confined.allow {perMinute : ℤ} {limiter : RateLimiter} (h : Confined perMinute limiter)
    (key : String) (now : ℚ) : Confined perMinute (limiter.allow key now).2 := by
  have hlength : ((limiter.hits.get? key).getD []).length ≤ perMinute.toNat := by
    rcases hget : limiter.hits.get? key with _ | hits
    · exact Nat.zero_le _
    · exact (h.hits.get? hget).2
  have hdropped := (List.dropWhile_suffix (fun hit : ℚ => decide (hit < now - 60))
    (l := (limiter.hits.get? key).getD [])).length_le
  obtain rfl := h.perMinute_eq
  refine ⟨limiter.allow_perMinute key now, ?_⟩
  unfold RateLimiter.allow
  split
  · exact h.hits
  · dsimp only
    split
    · exact h.hits.set trivial (hdropped.trans hlength)
    · rename_i hroom
      refine h.hits.set trivial ?_
      rw [List.length_append, List.length_singleton]
      omega

theorem Confined.stored_le {perMinute : ℤ} {limiter : RateLimiter}
    (h : Confined perMinute limiter) :
    limiter.stored ≤ limiter.hits.keys.length * (1 + perMinute.toNat) :=
  footprint_le_keys h.hits

end RateLimiter

namespace DetectionEngine

/-- A call returns one alert a detector at most, under the detector's name. -/
theorem process_alerts [Detector D F] [LawfulDetector D F] (e : DetectionEngine D F)
    (hnodup : e.names.Nodup) {trade : Trade F} {alerts : List (Alert F)}
    (hok : (e.process trade).1 = .ok alerts) :
    alerts.length ≤ e.names.length ∧ ∀ alert ∈ alerts, alert.detector ∈ e.names := by
  have hreturned : (e.watch trade).1.alerts = alerts := by
    simp only [watch, Observation.alerts, hok]
  rw [e.watch_alerts trade hnodup] at hreturned
  have hsub := e.asked_names_sublist trade
  constructor
  · rw [← hreturned, sortAlerts, (List.perm_insertionSort _ _).length_eq]
    refine (List.length_filterMap_le _ _).trans ?_
    rw [← List.length_map (f := Prod.fst)]
    exact hsub.length_le
  · intro alert halert
    rw [← hreturned, mem_sortAlerts] at halert
    obtain ⟨⟨name, answer⟩, hasked, hdue⟩ := List.mem_filterMap.mp halert
    obtain ⟨rfl, _⟩ := due_eq_some.mp hdue
    obtain ⟨_, _, _, _, rfl⟩ := e.built_of_mem_asked trade hasked
    exact hsub.subset (List.mem_map_of_mem hasked)

end DetectionEngine

/-- When the trade of an event is booked, if it is. -/
def Event.recordedAt : Event F → Option ℚ
  | .post req => some req.recordedAt
  | .sourced _ recordedAt _ => some recordedAt
  | .emit => none
  | .stop => none
  | .subscribe _ => none
  | .unsubscribe _ _ => none
  | .receive _ _ => none

namespace AppState

/-- How many symbols the guardrails remember. -/
def registered (s : AppState D F) : ℕ :=
  match s.guardrails with
  | none => 0
  | some g => g.symbols.card

/-- What the service keeps in memory, counted. -/
def held (s : AppState (ShippedDetector F M) F) : ℕ :=
  s.engine.held + s.metrics.held + s.broadcaster.held + s.rateLimiter.stored + s.registered +
    s.dispatching.length

section Step

variable (cases : CaseMap) (s : AppState D F)

theorem accept_rateLimiter (req : Request F) :
    (s.accept cases req).2.rateLimiter = s.rateLimiter ∨
      (s.accept cases req).2.rateLimiter = (s.rateLimiter.allow req.client req.arrivedAt).2 := by
  unfold accept
  dsimp only
  split
  · exact Or.inl rfl
  · split
    · exact Or.inl rfl
    · right
      dsimp only [screen]
      split
      · rfl
      · split
        · rfl
        · split <;> rfl

variable [Detector D F]

theorem ingest_rateLimiter (req : Request F) (trade : Trade F) :
    (s.ingest req trade).2.rateLimiter = s.rateLimiter := by
  dsimp only [ingest]
  rcases s.engine.process trade with ⟨_ | _, engine⟩ <;> rfl

theorem step_rateLimiter (event : Event F) :
    (s.step cases event).2.rateLimiter = s.rateLimiter ∨
      ∃ key now, (s.step cases event).2.rateLimiter = (s.rateLimiter.allow key now).2 := by
  cases event with
  | post req =>
      have hafter : (s.post cases req).2.rateLimiter = (s.accept cases req).2.rateLimiter := by
        rcases haccept : (s.accept cases req).1 with response | trade
        · rw [post_of_error haccept]
        · rw [post_of_ok haccept, ingest_rateLimiter]
      rcases s.accept_rateLimiter cases req with hsame | hasked
      · exact Or.inl (hafter.trans hsame)
      · exact Or.inr ⟨_, _, hafter.trans hasked⟩
  | sourced trade recordedAt latencyUs =>
      left
      dsimp only [step]
      split
      · dsimp only [handleTrade]
        rcases s.engine.process trade with ⟨_ | _, engine⟩ <;> rfl
      · rfl
  | emit =>
      left
      dsimp only [step, emit]
      split <;> rfl
  | stop => exact Or.inl rfl
  | subscribe kind => exact Or.inl rfl
  | unsubscribe kind queue => exact Or.inl rfl
  | receive kind queue => exact Or.inl rfl

theorem step_broadcaster {history : ℕ} (h : s.broadcaster.Confined history) (event : Event F) :
    (s.step cases event).2.broadcaster.Confined history := by
  cases event with
  | post req =>
      have hsame := (accept_admission cases s req).untouched.broadcaster
      rcases haccept : (s.accept cases req).1 with response | trade
      · simp only [step, post_of_error haccept, hsame]
        exact h
      · simp only [step, post_of_ok haccept, ingest]
        rw [← hsame] at h
        rcases (s.accept cases req).2.engine.process trade with ⟨_ | alerts, engine⟩
        · exact h.publishTrade trade
        · exact (h.publishTrade trade).publishAlerts alerts
  | sourced trade recordedAt latencyUs =>
      dsimp only [step]
      split
      · dsimp only [handleTrade]
        rcases s.engine.process trade with ⟨_ | _, engine⟩ <;> exact h.publishTrade trade
      · exact h
  | emit =>
      dsimp only [step, emit]
      split
      · exact h.publishAlert _
      · exact h
      · exact h
  | stop => exact h
  | subscribe kind => exact h.subscribe kind
  | unsubscribe kind queue => exact h.unsubscribe kind queue
  | receive kind queue => exact h.receive kind queue

/-- The collector books the trade of an event that the engine answered, if there is one. -/
theorem step_metrics (event : Event F) :
    (s.step cases event).2.metrics = s.metrics ∨
      ∃ call : RecordCall F, event.recordedAt = some call.now ∧
        s.handed cases event = some call.trade ∧
        (s.engine.process call.trade).1 = .ok call.alerts ∧
        (s.step cases event).2.metrics =
          s.metrics.record call.trade call.alerts call.latencyUs call.now := by
  cases event with
  | post req =>
      have hfree := (accept_admission cases s req).untouched
      rcases haccept : (s.accept cases req).1 with response | trade
      · left
        simp only [step, post_of_error haccept, hfree.metrics]
      · simp only [step, post_of_ok haccept, handed_of_ok haccept, ingest, hfree.engine,
          hfree.metrics]
        rcases hprocess : s.engine.process trade with ⟨err | alerts, engine⟩
        · exact Or.inl rfl
        · exact Or.inr ⟨⟨trade, alerts, req.latencyUs, req.recordedAt⟩, rfl, rfl,
            congrArg Prod.fst hprocess, rfl⟩
  | sourced trade recordedAt latencyUs =>
      cases htakes : s.takesTrade with
      | false =>
          left
          simp only [step, htakes, Bool.false_eq_true, if_false]
      | true =>
          simp only [step, handed, htakes, if_true, handleTrade]
          rcases hprocess : s.engine.process trade with ⟨err | alerts, engine⟩
          · exact Or.inl rfl
          · exact Or.inr ⟨⟨trade, alerts, latencyUs, recordedAt⟩, rfl, rfl,
              congrArg Prod.fst hprocess, rfl⟩
  | emit =>
      left
      dsimp only [step, emit]
      split <;> rfl
  | stop => exact Or.inl rfl
  | subscribe kind => exact Or.inl rfl
  | unsubscribe kind queue => exact Or.inl rfl
  | receive kind queue => exact Or.inl rfl

/-- What waits to be dispatched came back from one call of the engine. -/
theorem step_dispatching (event : Event F) :
    (s.step cases event).2.dispatching.length ≤ s.dispatching.length ∨
      ∃ trade alerts, (s.engine.process trade).1 = .ok alerts ∧
        (s.step cases event).2.dispatching = alerts := by
  cases event with
  | post req =>
      left
      have hpipeline := (accept_admission cases s req).pipeline_eq
      rcases haccept : (s.accept cases req).1 with response | trade
      · simp only [step, post_of_error haccept, dispatching_congr hpipeline, le_rfl]
      · simp only [step, post_of_ok haccept, ingest]
        rcases (s.accept cases req).2.engine.process trade with ⟨_ | _, engine⟩ <;>
          exact (congrArg List.length (dispatching_congr hpipeline)).le
  | sourced trade recordedAt latencyUs =>
      cases htakes : s.takesTrade with
      | false =>
          left
          simp only [step, htakes, Bool.false_eq_true, if_false, le_rfl]
      | true =>
          simp only [step, htakes, if_true, handleTrade]
          rcases hprocess : s.engine.process trade with ⟨err | alerts, engine⟩
          · exact Or.inl (Nat.zero_le _)
          · exact Or.inr ⟨trade, alerts, congrArg Prod.fst hprocess, rfl⟩
  | emit =>
      left
      dsimp only [step, emit]
      split
      · rename_i running alert rest hpipeline
        have hwaiting : s.dispatching = alert :: rest := by
          rw [dispatching, hpipeline]
        rw [hwaiting]
        exact Nat.le_succ _
      · exact le_rfl
      · exact le_rfl
  | stop =>
      left
      rcases hpipeline : s.pipeline with _ | pipeline <;>
        simp [step, dispatching, hpipeline]
  | subscribe kind => exact Or.inl le_rfl
  | unsubscribe kind queue => exact Or.inl le_rfl
  | receive kind queue => exact Or.inl le_rfl

end Step

section Run

/-- What holds of the service whatever happened to it. -/
structure Confined (settings : Settings) (cfg : DetectionConfig F)
    (s : AppState (ShippedDetector F M) F) : Prop where
  engine : s.engine.Confined cfg.window.maxTrades cfg.isolationForest.trainSize
  metrics : s.metrics.Confined s.engine.stock DetectionEngine.shippedNames.toFinset
  dims : s.metrics.dims = (300, 120, 4000, 80)
  broadcaster : s.broadcaster.Confined settings.alertBufferSize
  rateLimiter : s.rateLimiter.Confined settings.rateLimitPerMin
  guardrails : ∀ g, s.guardrails = some g → g.cfg = {}
  dispatching : s.dispatching.length ≤ DetectionEngine.shippedNames.length

variable {settings : Settings} {cfg : DetectionConfig F} {s : AppState (ShippedDetector F M) F}

theorem step_guardrails_default (cases : CaseMap) (h : ∀ g, s.guardrails = some g → g.cfg = {})
    (event : Event F) : ∀ g, (s.step cases event).2.guardrails = some g → g.cfg = {} := by
  have hguardrails := step_guardrails cases s event
  cases event with
  | post req =>
      rw [hguardrails]
      dsimp only
      have hadmission := accept_admission cases s req
      generalize (s.accept cases req).1 = result at hadmission
      generalize (s.accept cases req).2 = s' at hadmission ⊢
      cases hadmission with
      | refused response record rateLimiter haction => exact h
      | invalid => exact h
      | unguarded trade rateLimiter hnone hvalid => exact h
      | checked trade rateLimiter g g' hsome hverdict hvalid =>
          intro g₀ hg₀
          rw [← Option.some.inj hg₀, hverdict.cfg_eq]
          exact h g hsome
  | _ =>
      rw [hguardrails]
      exact h

theorem Confined.step (h : Confined settings cfg s) (cases : CaseMap) {event : Event F}
    (hclock : ∀ now ∈ event.recordedAt, s.metrics.lastTrim ≤ pyInt now) :
    Confined settings cfg (s.step cases event).2 := by
  have hnodup : s.engine.names.Nodup :=
    h.engine.names.nodup DetectionEngine.shippedNames_nodup
  have hengine := step_engine cases s event
  have hgrows : s.engine.stock ⊆ (s.step cases event).2.engine.stock := by
    rw [hengine]
    split
    · exact subset_rfl
    · rw [DetectionEngine.process_stock]
      exact Finset.subset_insert _ _
  constructor
  · rw [hengine]
    split
    · exact h.engine
    · exact h.engine.process _
  · rcases s.step_metrics cases event with hsame | ⟨call, hnow, hhanded, hok, hrecord⟩
    · rw [hsame]
      exact h.metrics.mono hgrows
    · have halerts := (s.engine.process_alerts hnodup hok).2
      have htracked : call.trade.symbol ∈ (s.step cases event).2.engine.stock := by
        rw [hengine, hhanded, DetectionEngine.process_stock]
        exact Finset.mem_insert_self _ _
      have hspan : s.metrics.tsWindow = 300 := congrArg Prod.fst h.dims
      rw [hrecord]
      refine (h.metrics.mono hgrows).record (hspan ▸ by decide) htracked ?_ (hclock _ hnow)
      intro alert halert
      exact List.mem_toFinset.mpr (h.engine.names.subset (halerts alert halert))
  · rcases s.step_metrics cases event with hsame | ⟨call, _, _, _, hrecord⟩
    · rw [hsame]
      exact h.dims
    · rw [hrecord, MetricsCollector.record_dims]
      exact h.dims
  · exact s.step_broadcaster cases h.broadcaster event
  · rcases s.step_rateLimiter cases event with hsame | ⟨key, now, hasked⟩
    · rw [hsame]
      exact h.rateLimiter
    · rw [hasked]
      exact h.rateLimiter.allow key now
  · exact step_guardrails_default cases h.guardrails event
  · rcases s.step_dispatching cases event with hless | ⟨trade, alerts, hok, hraised⟩
    · exact hless.trans h.dispatching
    · rw [hraised]
      exact (s.engine.process_alerts hnodup hok).1.trans h.engine.names.length_le

/-- The room that the service takes up with so many tracked symbols, clients and open
feeds. The last line is what is there from the start: the counters of the engine, three
buckets a second, latencies, the tape, the collector's breakdowns, the symbols of the
guardrails and the alerts of one trade. -/
def room (settings : Settings) (cfg : DetectionConfig F) (symbols clients queues : ℕ) : ℕ :=
  symbols * (DetectionEngine.perSymbol cfg.window.maxTrades cfg.isolationForest.trainSize + 121) +
    clients * (1 + settings.rateLimitPerMin.toNat) + queues * 1001 + settings.alertBufferSize +
    (18 + 3 * 301 + 4000 + 80 + 11 + 10000 + 7)

theorem Confined.held_le (h : Confined settings cfg s) :
    s.held ≤ room settings cfg s.tracked.length s.rateLimiter.hits.keys.length
      s.broadcaster.queues := by
  obtain ⟨hwindow, hpoints, hlatency, htape⟩ : s.metrics.tsWindow = 300 ∧
      s.metrics.pricePoints = 120 ∧ s.metrics.latency.maxlen = 4000 ∧
      s.metrics.tape.maxlen = 80 := by
    simpa [MetricsCollector.dims] using h.dims
  have hengine := h.engine.held_le
  have hmetrics := h.metrics.held_le
  have hbroadcaster := h.broadcaster.held_le
  have hrateLimiter := h.rateLimiter.stored_le
  have hdispatching := h.dispatching
  have hregistered : s.registered ≤ 10000 := by
    unfold registered
    split
    · exact Nat.zero_le _
    · rename_i g hsome
      have hcapped := g.capped
      rw [h.guardrails g hsome] at hcapped
      simpa using hcapped
  have hseven : DetectionEngine.shippedNames.length = 7 := rfl
  have hkinds : DetectionEngine.shippedNames.toFinset.card = 7 :=
    List.toFinset_card_of_nodup DetectionEngine.shippedNames_nodup
  rw [hwindow, hpoints, hlatency, htape, hkinds, DetectionEngine.card_stock] at hmetrics
  rw [hseven] at hengine hdispatching
  have hbuckets : ((300 : ℤ) + 1).toNat = 301 := rfl
  rw [hbuckets] at hmetrics
  unfold held room tracked
  rw [Nat.mul_add]
  omega

theorem confined_boot (sklearn : SkLearn F M) (settings : Settings) (cfg : DetectionConfig F)
    (startTime : ℚ) : Confined settings cfg (boot sklearn settings cfg startTime) := by
  have hinit : Confined settings cfg (init sklearn settings cfg startTime) :=
    { engine := DetectionEngine.confined_init sklearn cfg
      metrics := MetricsCollector.confined_init startTime 300 120 4000 80
      dims := rfl
      broadcaster := ⟨rfl, fun kind => by cases kind <;> exact within_empty⟩
      rateLimiter := ⟨rfl, within_empty⟩
      guardrails := by
        intro g hg
        simp only [init] at hg
        split at hg
        · rw [← Option.some.inj hg]
          rfl
        · cases hg
      dispatching := Nat.zero_le _ }
  have hstarted : Confined settings cfg
      { init sklearn settings cfg startTime with pipeline := some ⟨true, []⟩ } :=
    { hinit with dispatching := Nat.zero_le _ }
  unfold boot startSource
  split
  · exact hstarted
  · split
    · exact hinit
    · exact hstarted

/-- A run under a clock that does not go back. -/
theorem confined_final (cases : CaseMap) {events : List (Event F)}
    (h : Confined settings cfg s)
    (hclock : (events.filterMap Event.recordedAt).Pairwise (· ≤ ·))
    (hlater : ∀ now ∈ events.filterMap Event.recordedAt, s.metrics.lastTrim ≤ pyInt now) :
    Confined settings cfg (final (AppState.step cases) s events) := by
  induction events generalizing s with
  | nil => exact h
  | cons event rest ih =>
      have hnow : ∀ now ∈ event.recordedAt, s.metrics.lastTrim ≤ pyInt now := by
        intro now hrecorded
        exact hlater now (List.mem_filterMap.mpr ⟨event, List.mem_cons_self, hrecorded⟩)
      have hsub : ∀ now ∈ rest.filterMap Event.recordedAt,
          now ∈ (event :: rest).filterMap Event.recordedAt := by
        intro now hrecorded
        obtain ⟨other, hother, hat⟩ := List.mem_filterMap.mp hrecorded
        exact List.mem_filterMap.mpr ⟨other, List.mem_cons_of_mem _ hother, hat⟩
      have hstep := h.step cases hnow
      refine ih hstep (hclock.sublist ((List.sublist_cons_self _ _).filterMap _)) ?_
      intro now hrecorded
      rcases s.step_metrics cases event with hsame | ⟨call, hat, _, _, hrecord⟩
      · rw [hsame]
        exact hlater now (hsub now hrecorded)
      · rw [hrecord, (s.metrics.record_buckets call).2.1]
        rw [List.filterMap_cons_some hat] at hclock
        exact pyInt_mono ((List.pairwise_cons.mp hclock).1 now hrecorded)

/-- The tracked symbols are registered or among those of the source. -/
def Listed (listed : Finset String) (s : AppState D F) : Prop :=
  ∃ g, s.guardrails = some g ∧ g.cfg = {} ∧ ∀ symbol ∈ s.tracked, symbol ∈ g.symbols ∪ listed

theorem Listed.step [Detector D F] {listed : Finset String} {s : AppState D F}
    (h : s.Listed listed) (cases : CaseMap) {event : Event F}
    (hsource : ∀ trade recordedAt latencyUs,
      event = .sourced trade recordedAt latencyUs → trade.symbol ∈ listed) :
    (s.step cases event).2.Listed listed := by
  obtain ⟨g, hsome, hcfg, htracked⟩ := h
  have hengine := step_engine cases s event
  have hguardrails := step_guardrails cases s event
  have hquiet : s.handed cases event = none →
      ∀ symbol ∈ (s.step cases event).2.tracked, symbol ∈ g.symbols ∪ listed := by
    intro hnone
    rw [tracked, hengine, hnone]
    exact htracked
  have hhanded : ∀ {trade}, s.handed cases event = some trade →
      ∀ symbol ∈ (s.step cases event).2.tracked, symbol = trade.symbol ∨ symbol ∈ s.tracked := by
    intro trade hsome symbol hsymbol
    rw [tracked, hengine, hsome] at hsymbol
    exact (s.engine.process_symbols trade symbol).mp hsymbol
  cases event with
  | post req =>
      rcases accept_guarded cases hsome req with
        ⟨response, haccept, hsame⟩ | ⟨trade, g', haccept, hnext, hverdict, _⟩
      · exact ⟨g, hguardrails.trans hsame, hcfg, hquiet (handed_of_error haccept)⟩
      · refine ⟨g', hguardrails.trans hnext, hverdict.cfg_eq.trans hcfg, ?_⟩
        intro symbol hsymbol
        rw [hverdict.symbols_eq, Finset.insert_union]
        rcases hhanded (handed_of_ok haccept) symbol hsymbol with rfl | hold
        · exact Finset.mem_insert_self _ _
        · exact Finset.mem_insert_of_mem (htracked symbol hold)
  | sourced trade recordedAt latencyUs =>
      refine ⟨g, hguardrails.trans hsome, hcfg, ?_⟩
      cases htakes : s.takesTrade with
      | false =>
          refine hquiet ?_
          simp only [handed, htakes, Bool.false_eq_true, if_false]
      | true =>
          have htaken : s.handed cases (.sourced trade recordedAt latencyUs) = some trade := by
            simp only [handed, htakes, if_true]
          intro symbol hsymbol
          rcases hhanded htaken symbol hsymbol with rfl | hold
          · exact Finset.mem_union_right _ (hsource trade recordedAt latencyUs rfl)
          · exact htracked symbol hold
  | emit => exact ⟨g, hguardrails.trans hsome, hcfg, hquiet rfl⟩
  | stop => exact ⟨g, hguardrails.trans hsome, hcfg, hquiet rfl⟩
  | subscribe kind => exact ⟨g, hguardrails.trans hsome, hcfg, hquiet rfl⟩
  | unsubscribe kind queue => exact ⟨g, hguardrails.trans hsome, hcfg, hquiet rfl⟩
  | receive kind queue => exact ⟨g, hguardrails.trans hsome, hcfg, hquiet rfl⟩

/-- The memory of the service stays flat. After any run of requests, pipeline trades and
feed clients it holds no more than the room for the symbols it tracks, the clients that
have called and the feeds that are open; and with the guardrails on it tracks no more
symbols than they allow and the source has. -/
theorem memory_stays_flat (cases : CaseMap) (sklearn : SkLearn F M) (settings : Settings)
    (cfg : DetectionConfig F) (startTime : ℚ) (events : List (Event F))
    (hclock : (startTime :: events.filterMap Event.recordedAt).Pairwise (· ≤ ·)) :
    let s := final (AppState.step cases) (boot sklearn settings cfg startTime) events
    s.held ≤ room settings cfg s.tracked.length s.rateLimiter.hits.keys.length
        s.broadcaster.queues ∧
      (settings.guardrailsEnabled = true → ∀ listed : Finset String,
        (∀ trade recordedAt latencyUs, .sourced trade recordedAt latencyUs ∈ events →
          trade.symbol ∈ listed) →
        s.tracked.length ≤ 10000 + listed.card) := by
  obtain ⟨hearlier, hordered⟩ := List.pairwise_cons.mp hclock
  have hfresh : (boot sklearn settings cfg startTime).metrics.lastTrim = pyInt startTime := by
    unfold boot startSource
    split
    · rfl
    · split <;> rfl
  have hconfined := confined_final cases (confined_boot sklearn settings cfg startTime) hordered
    (fun now hnow => hfresh.le.trans (pyInt_mono (hearlier now hnow)))
  refine ⟨hconfined.held_le, ?_⟩
  intro henabled listed hsource
  have hboot := boot_registered sklearn settings cfg startTime henabled
  have hstart : (boot sklearn settings cfg startTime).Listed listed :=
    ⟨_, hboot.guardrails_eq, hboot.cfg_eq, fun symbol hsymbol =>
      Finset.mem_union_left _ (hboot.tracked_subset symbol hsymbol)⟩
  have hguard : Along (AppState.step cases)
      (fun _ event => ∀ trade recordedAt latencyUs,
        event = .sourced trade recordedAt latencyUs → trade.symbol ∈ listed)
      (boot sklearn settings cfg startTime) events := by
    rintro before event after rfl trade recordedAt latencyUs rfl
    exact hsource trade recordedAt latencyUs (by simp)
  obtain ⟨g, _, hcfg, htracked⟩ := history_along (AppState.step cases)
    (P := fun _ s => s.Listed listed) _ hstart
    (fun _ _ _ hevent h => Listed.step h cases hevent) events hguard
  have hcapped := g.capped
  rw [hcfg] at hcapped
  have hregistered : g.symbols.card ≤ 10000 := by simpa using hcapped
  have hsub : (final (AppState.step cases) (boot sklearn settings cfg startTime)
      events).engine.stock ⊆ g.symbols ∪ listed := fun symbol hsymbol =>
    htracked symbol (List.mem_toFinset.mp hsymbol)
  have hcard := (Finset.card_le_card hsub).trans (Finset.card_union_le _ _)
  rw [DetectionEngine.card_stock] at hcard
  exact hcard.trans (Nat.add_le_add_right hregistered _)

/-- A request and a trade of the pipeline, a second later. -/
theorem memory_stays_flat_two_symbols :
    let s := final (step .asciiOnly)
      (boot SkLearn.missing { source := .kafka } ({} : DetectionConfig ℚ) 0)
      [.post (postAt "BETA" 100 0), .sourced hugeTrade 1 50]
    s.tracked = ["BETA", "ACME"] ∧
      s.held ≤ room {} ({} : DetectionConfig ℚ) s.tracked.length
        s.rateLimiter.hits.keys.length s.broadcaster.queues ∧
      s.tracked.length ≤ 10000 + ({"ACME"} : Finset String).card := by
  intro s
  obtain ⟨hheld, hlisted⟩ := memory_stays_flat .asciiOnly SkLearn.missing { source := .kafka }
    ({} : DetectionConfig ℚ) 0 [.post (postAt "BETA" 100 0), .sourced hugeTrade 1 50]
    (by decide +kernel)
  refine ⟨by decide +kernel, hheld, hlisted rfl {"ACME"} ?_⟩
  intro trade recordedAt latencyUs hmem
  rcases List.mem_cons.mp hmem with hpost | hsourced
  · cases hpost
  · cases List.mem_singleton.mp hsourced
    decide +kernel

end Run

end AppState

end TradeWatch
