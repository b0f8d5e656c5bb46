import TradeWatch.Api.App
import TradeWatch.Streaming

/-!
The pipeline as the application wires it: the trade tape before detection, the
metrics after it, one sink that publishes the alerts. With these hooks the
pipeline does to engine, broadcaster and metrics what the application's own
events do, a trade at a time.
-/

namespace TradeWatch.AppState

open PyFloat

variable {D F : Type} [PyFloat F]

/-- What the hooks and the sink write to, and what the clock has still to say. -/
structure Wired (F : Type) [PyFloat F] where
  broadcaster : Broadcaster F
  metrics : MetricsCollector F
  readings : List ℤ

/-- The pipeline of `start_source`. `recordedAt` is the wall clock of the
metrics. -/
def wired (s : AppState D F) (recordedAt : ℚ) : Streaming.Pipeline D F (Wired F) where
  engine := s.engine
  sinks := [⟨fun _ alert world =>
    (.ok (), { world with broadcaster := world.broadcaster.publishAlert alert })⟩]
  onTrade := some fun trade world =>
    (.ok (), { world with broadcaster := world.broadcaster.publishTrade trade })
  onProcessed := some fun trade alerts latencyUs world =>
    (.ok (), { world with metrics := world.metrics.record trade alerts latencyUs recordedAt })
  perfCounterNs world := (world.readings.headD 0, { world with readings := world.readings.tail })

/-- The pipeline before its next trade, which the clock times from `started` to
`stopped`. -/
def wiredProgress (s : AppState D F) (started stopped : ℤ) :
    Streaming.Progress D F (Wired F) where
  engine := s.engine
  world := ⟨s.broadcaster, s.metrics, [started, stopped]⟩
  running := true
  log := []

/-- As many dispatches as there are alerts publish them all. -/
theorem emits_eq (s : AppState D F) {alerts : List (Alert F)}
    (hpipeline : s.pipeline = some ⟨true, alerts⟩) :
    emit^[alerts.length] s =
      { s with
        broadcaster := s.broadcaster.publishAlerts alerts
        pipeline := some ⟨true, []⟩ } := by
  induction alerts generalizing s with
  | nil =>
      rw [← hpipeline]
      rfl
  | cons alert rest ih =>
      have hemit : s.emit =
          { s with
            broadcaster := s.broadcaster.publishAlert alert
            pipeline := some ⟨true, rest⟩ } := by
        unfold emit
        rw [hpipeline]
      rw [List.length_cons, Function.iterate_succ_apply, hemit]
      exact ih _ rfl

theorem dispatchAll_wired (s : AppState D F) (recordedAt : ℚ) (trade : Trade F)
    (alerts : List (Alert F)) (t : Streaming.Progress D F (Wired F)) :
    ∃ log, (s.wired recordedAt).dispatchAll trade alerts t =
      (.ok (), { t with
        world := { t.world with broadcaster := t.world.broadcaster.publishAlerts alerts }
        log := log }) := by
  induction alerts generalizing t with
  | nil => exact ⟨t.log, rfl⟩
  | cons alert rest ih =>
      obtain ⟨log, hrest⟩ := ih
        { t with
          world := { t.world with broadcaster := t.world.broadcaster.publishAlert alert }
          log := t.log ++ [.emit 0 trade alert] }
      exact ⟨log, hrest⟩

variable [Detector D F]

/-- A trade that the wired pipeline handles, and the application's event for it
with the dispatches that follow, come to the same state. -/
theorem handleTrade_wired (s : AppState D F) (trade : Trade F) (recordedAt : ℚ)
    (started stopped : ℤ) {alerts : List (Alert F)}
    (hok : (s.engine.process trade).1 = .ok alerts) :
    let latencyUs : F := div (ofRat ((stopped - started : ℤ) : ℚ)) (ofRat 1000)
    let handled := (s.wired recordedAt).handleTrade trade (s.wiredProgress started stopped)
    handled.1 = .ok () ∧
      emit^[alerts.length] (s.handleTrade trade recordedAt latencyUs) =
        { s with
          engine := handled.2.engine
          broadcaster := handled.2.world.broadcaster
          metrics := handled.2.world.metrics
          pipeline := some ⟨true, []⟩ } := by
  intro latencyUs handled
  rcases hprocess : s.engine.process trade with ⟨returned, engine⟩
  rw [hprocess] at hok
  obtain rfl : returned = .ok alerts := hok
  have happ : s.handleTrade trade recordedAt latencyUs =
      { s with
        engine := engine
        broadcaster := s.broadcaster.publishTrade trade
        metrics := s.metrics.record trade alerts latencyUs recordedAt
        pipeline := some ⟨true, alerts⟩ } := by
    unfold handleTrade
    simp only [hprocess]
  obtain ⟨log, hdispatch⟩ := s.dispatchAll_wired recordedAt trade alerts
    { engine := engine
      world :=
        { broadcaster := s.broadcaster.publishTrade trade
          metrics := s.metrics.record trade alerts latencyUs recordedAt
          readings := [] }
      running := true
      log := [.onTrade trade, .process trade, .onProcessed trade alerts] }
  have hhandled : handled =
      (.ok (),
        { engine := engine
          world :=
            { broadcaster := (s.broadcaster.publishTrade trade).publishAlerts alerts
              metrics := s.metrics.record trade alerts latencyUs recordedAt
              readings := [] }
          running := true
          log := log }) := by
    rw [← hdispatch]
    change (s.wired recordedAt).handleTrade trade (s.wiredProgress started stopped) = _
    simp only [Streaming.Pipeline.handleTrade, Streaming.Pipeline.announce,
      Streaming.Pipeline.detect, Streaming.Pipeline.report, wired, wiredProgress, hprocess]
    rfl
  rw [happ, emits_eq _ rfl, hhandled]
  exact ⟨rfl, rfl⟩

end TradeWatch.AppState
