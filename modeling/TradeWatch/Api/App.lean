import TradeWatch.Api.Security
import TradeWatch.Broadcaster
import TradeWatch.Engine
import TradeWatch.Guardrails
import TradeWatch.Metrics

/-!
The service: one engine, one broadcaster and one collector, shared by the
handler of `POST /trades` and by the background pipeline. An event is a
stretch of work between two points at which the event loop may switch: a whole
request, a whole trade of the pipeline up to its first alert, one alert, or
something a WebSocket client does. What one event can do is said once, by
`accept_admission` for a request and by `step_engine` for the engine; the
results argue from these.
-/

namespace TradeWatch

open PyFloat

/-- The source behind the background pipeline, by its lowercased name; any
other name counts as the simulator. -/
inductive Source
  | simulator
  | kafka
  deriving DecidableEq, Repr

/-- The settings that the write path and the pipeline read. -/
structure Settings where
  alertBufferSize : ℕ := 500
  source : Source := .simulator
  simulatorEnabled : Bool := true
  apiKey : Option String := none
  rateLimitPerMin : ℤ := 600
  guardrailsEnabled : Bool := true

/-- A `POST /trades` with what its handling draws from outside: a fresh id, the
times it reads and the latency it measures. -/
structure Request (F : Type) where
  xApiKey : Option String := none
  clientHost : Option String := none
  path : String := "/trades"
  payload : TradePayload F
  newId : String
  utcnow : ℚ
  arrivedAt : ℚ
  recordedAt : ℚ
  latencyUs : F

/-- `request.client.host if request.client else "?"`. -/
def Request.client {F : Type} (req : Request F) : String := req.clientHost.getD "?"

inductive Response (F : Type) [PyFloat F]
  | ok (tradeId : String) (alerts : List (Alert F)) (anomalous : Bool)
  | unauthorized
  | unprocessable
  | guardrail (reason : String)
  | rateLimited
  | serverError

namespace Response

variable {F : Type} [PyFloat F]

def status : Response F → ℕ
  | .ok _ _ _ => 200
  | .unauthorized => 401
  | .unprocessable => 422
  | .guardrail _ => 422
  | .rateLimited => 429
  | .serverError => 500

/-- The detail of a response that the program itself raises. -/
def detail : Response F → Option String
  | .ok _ _ _ => none
  | .unauthorized => some "invalid or missing API key"
  | .unprocessable => none
  | .guardrail reason => some ("guardrail: " ++ reason)
  | .rateLimited => some "rate limit exceeded"
  | .serverError => none

/-- The audit action that goes with a refusal. -/
def refusedAs : Response F → Option String
  | .unauthorized => some "auth_failure"
  | .rateLimited => some "rate_limited"
  | .guardrail _ => some "trade_rejected"
  | .ok _ _ _ => none
  | .unprocessable => none
  | .serverError => none

/-- The refusals that are audited are the 401, the 429 and the 422 of the
guardrails, each under an action of its own. -/
theorem status_of_refusedAs {response : Response F} {action : String}
    (h : response.refusedAs = some action) :
    (response.status, action) ∈
      [(401, "auth_failure"), (429, "rate_limited"), (422, "trade_rejected")] := by
  cases response with
  | ok tradeId alerts anomalous => cases h
  | unauthorized => cases h; simp [status]
  | unprocessable => cases h
  | guardrail reason => cases h; simp [status]
  | rateLimited => cases h; simp [status]
  | serverError => cases h

end Response

/-- The background task, with the alerts that it has still to dispatch. -/
structure Pipeline (F : Type) [PyFloat F] where
  running : Bool
  dispatching : List (Alert F)

structure AppState (D F : Type) [PyFloat F] where
  settings : Settings
  engine : DetectionEngine D F
  broadcaster : Broadcaster F
  metrics : MetricsCollector F
  guardrails : Option (Guardrails F)
  audit : AuditLogger
  rateLimiter : RateLimiter
  pipeline : Option (Pipeline F)

inductive Event (F : Type) [PyFloat F]
  | post (req : Request F)
  /-- The source yields a trade. -/
  | sourced (trade : Trade F) (recordedAt : ℚ) (latencyUs : F)
  /-- The pipeline's sink gets the next alert. -/
  | emit
  /-- The pipeline is cancelled. -/
  | stop
  | subscribe (kind : FeedKind)
  | unsubscribe (kind : FeedKind) (queue : ℕ)
  | receive (kind : FeedKind) (queue : ℕ)

namespace AppState

/-- `AppState(settings)`, the ruleset already loaded. -/
def init {F M : Type} [PyFloat F] (sklearn : SkLearn F M) (settings : Settings)
    (cfg : DetectionConfig F) (startTime : ℚ) : AppState (ShippedDetector F M) F where
  settings := settings
  engine := .init sklearn cfg
  broadcaster := .init settings.alertBufferSize
  metrics := .init startTime
  guardrails := if settings.guardrailsEnabled then some (.init {}) else none
  audit := .empty
  rateLimiter := .init settings.rateLimitPerMin
  pipeline := none

variable {D F : Type} [PyFloat F]

/-- `start_source`. -/
def startSource (s : AppState D F) : AppState D F :=
  let started := { s with pipeline := some ⟨true, []⟩ }
  match s.settings.source with
  | .kafka => started
  | .simulator => if !s.settings.simulatorEnabled then s else started

/-- The state that the lifespan of the application begins in. -/
def boot {M : Type} (sklearn : SkLearn F M) (settings : Settings) (cfg : DetectionConfig F)
    (startTime : ℚ) : AppState (ShippedDetector F M) F :=
  (init sklearn settings cfg startTime).startSource

/-- The symbols that the engine's window store holds a window of. -/
def tracked (s : AppState D F) : List String := s.engine.windows.symbols

/-- The first half of `ingest_trade`: rate limit and guardrails. -/
def screen (s : AppState D F) (req : Request F) (trade : Trade F) :
    Except (Response F) (Trade F) × AppState D F :=
  let (allowed, rateLimiter) := s.rateLimiter.allow req.client req.arrivedAt
  let s := { s with rateLimiter := rateLimiter }
  if !allowed then
    (.error .rateLimited,
      { s with audit := s.audit.record "rate_limited" "denied" [("client", .text req.client)] })
  else
    match s.guardrails with
    | none => (.ok trade, s)
    | some guardrails =>
        match guardrails.check trade with
        | (.ok, guardrails) => (.ok trade, { s with guardrails := some guardrails })
        | (.rejected reason code, guardrails) =>
            (.error (.guardrail reason),
              { s with
                guardrails := some guardrails
                audit := s.audit.record "trade_rejected" "rejected"
                  [("client", .text req.client), ("symbol", .text trade.symbol),
                    ("reason", .text reason), ("code", .text code)] })

/-- Everything that happens to a request before the trade is passed on. The
API key is a dependency of the route, so it is asked for before the body is
validated. -/
def accept (cases : CaseMap) (s : AppState D F) (req : Request F) :
    Except (Response F) (Trade F) × AppState D F :=
  let (authorized, audit) :=
    requireApiKey s.settings.apiKey req.xApiKey req.client req.path s.audit
  let s := { s with audit := audit }
  if !authorized then (.error .unauthorized, s)
  else
    match Trade.modelValidate cases req.newId req.utcnow req.payload with
    | none => (.error .unprocessable, s)
    | some trade => s.screen req trade

variable [Detector D F]

/-- The second half of `ingest_trade`. An engine that raises ends the request
after the trade has been published. -/
def ingest (s : AppState D F) (req : Request F) (trade : Trade F) :
    Response F × AppState D F :=
  let s := { s with broadcaster := s.broadcaster.publishTrade trade }
  match s.engine.process trade with
  | (.error _, engine) => (.serverError, { s with engine := engine })
  | (.ok raised, engine) =>
      let anomalous := !raised.isEmpty
      (.ok trade.tradeId raised anomalous,
        { s with
          engine := engine
          metrics := s.metrics.record trade raised req.latencyUs req.recordedAt
          broadcaster := s.broadcaster.publishAlerts raised
          audit := s.audit.record "trade_ingested" "ok"
            [("trade_id", .text trade.tradeId), ("symbol", .text trade.symbol),
              ("anomalous", .flag anomalous), ("alerts", .number raised.length),
              ("client", .text req.client)] })

/-- `POST /trades`. -/
def post (cases : CaseMap) (s : AppState D F) (req : Request F) : Response F × AppState D F :=
  match s.accept cases req with
  | (.error response, s) => (response, s)
  | (.ok trade, s) => s.ingest req trade

/-- `_handle_trade` up to the first alert. An engine that raises ends the
pipeline. -/
def handleTrade (s : AppState D F) (trade : Trade F) (recordedAt : ℚ) (latencyUs : F) :
    AppState D F :=
  let s := { s with broadcaster := s.broadcaster.publishTrade trade }
  match s.engine.process trade with
  | (.error _, engine) => { s with engine := engine, pipeline := some ⟨false, []⟩ }
  | (.ok alerts, engine) =>
      { s with
        engine := engine
        metrics := s.metrics.record trade alerts latencyUs recordedAt
        pipeline := some ⟨true, alerts⟩ }

/-- The pipeline takes the next trade when it runs and has dispatched the
alerts of the last one. -/
def takesTrade (s : AppState D F) : Bool :=
  match s.pipeline with
  | none => false
  | some pipeline => pipeline.running && pipeline.dispatching.isEmpty

/-- `_dispatch` of one alert. -/
def emit (s : AppState D F) : AppState D F :=
  match s.pipeline with
  | some ⟨running, alert :: rest⟩ =>
      { s with
        broadcaster := s.broadcaster.publishAlert alert
        pipeline := some ⟨running, rest⟩ }
  | some ⟨_, []⟩ => s
  | none => s

/-- One event. An event that is not possible in a state leaves it alone. -/
def step (cases : CaseMap) (s : AppState D F) : Event F → Option (Response F) × AppState D F
  | .post req =>
      let (response, s) := s.post cases req
      (some response, s)
  | .sourced trade recordedAt latencyUs =>
      (none, if s.takesTrade then s.handleTrade trade recordedAt latencyUs else s)
  | .emit => (none, s.emit)
  | .stop => (none, { s with pipeline := s.pipeline.map (fun _ => ⟨false, []⟩) })
  | .subscribe kind => (none, { s with broadcaster := (s.broadcaster.subscribe kind).2 })
  | .unsubscribe kind queue =>
      (none, { s with broadcaster := s.broadcaster.unsubscribe kind queue })
  | .receive kind queue =>
      (none, { s with broadcaster := (s.broadcaster.receive kind queue).2 })

/-- The trade that an event passes to `DetectionEngine.process`, if it does. -/
def handed (cases : CaseMap) (s : AppState D F) : Event F → Option (Trade F)
  | .post req => (s.accept cases req).1.toOption
  | .sourced trade _ _ => if s.takesTrade then some trade else none
  | .emit => none
  | .stop => none
  | .subscribe _ => none
  | .unsubscribe _ _ => none
  | .receive _ _ => none

end AppState

end TradeWatch
