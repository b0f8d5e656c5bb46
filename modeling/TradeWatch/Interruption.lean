import TradeWatch.Streaming

/-!
The pipeline when something gets past its handlers: a cancellation at an await, a
hook before detection that raises, a trade the engine refuses. Nothing is assumed of
the foreign code. Wherever such a run stops, the calls it has made are the first
ones of the run that goes through, and its engine has processed exactly the trades
of these.
-/

namespace TradeWatch.Streaming.Pipeline

open PyFloat Transducer

variable {D F W : Type} [PyFloat F] [Detector D F] {α β : Type}

/-- Part of a run that is to make the calls `whole`: it has made the first of them,
all of them if it returns, and the engine has processed the trades among these. -/
def Advances (whole : List (Call F)) (s : Progress D F W)
    (result : Except Raised α × Progress D F W) : Prop :=
  ∃ calls, calls <+: whole ∧ result.2.log = s.log ++ calls ∧
    result.2.engine = final DetectionEngine.process s.engine (calls.filterMap processed) ∧
    (∀ x, result.1 = .ok x → calls = whole)

section Rules

variable {whole rest : List (Call F)} {s : Progress D F W}

theorem Advances.stay (x : α) : Advances [] s (.ok x, s) :=
  ⟨[], List.prefix_refl _, (List.append_nil _).symm, rfl, fun _ _ => rfl⟩

/-- A call that leaves the engine alone, whatever it raises. -/
theorem Advances.call {call : Call F} (hcall : processed call = none) (raised : Except Raised α)
    (world : W) :
    Advances [call] s (raised, { s with world := world, log := s.log ++ [call] }) := by
  refine ⟨[call], List.prefix_refl _, rfl, ?_, fun _ _ => rfl⟩
  simp [hcall]

/-- What was stopped stays stopped, however much there was still to do. -/
theorem Advances.stopped {err : Raised} {s' : Progress D F W}
    (h : Advances whole s ((.error err : Except Raised α), s')) (rest : List (Call F)) :
    Advances (whole ++ rest) s ((.error err : Except Raised β), s') := by
  obtain ⟨calls, hfirst, hlog, hengine, _⟩ := h
  refine ⟨calls, hfirst.trans (List.prefix_append whole rest), hlog, hengine, ?_⟩
  intro x hx
  cases hx

/-- What returned goes on. -/
theorem Advances.andThen {x : α} {s' : Progress D F W} {result : Except Raised β × Progress D F W}
    (h : Advances whole s ((.ok x : Except Raised α), s')) (hrest : Advances rest s' result) :
    Advances (whole ++ rest) s result := by
  obtain ⟨calls, _, hlog, hengine, hall⟩ := h
  obtain ⟨more, hfirst, hlog', hengine', hall'⟩ := hrest
  obtain rfl := hall x rfl
  refine ⟨calls ++ more, (List.prefix_append_right_inj calls).mpr hfirst, ?_, ?_, ?_⟩
  · rw [hlog', hlog, List.append_assoc]
  · rw [hengine', hengine, List.filterMap_append, final_append]
  · intro y hy
    rw [hall' y hy]

end Rules

section Steps

variable (p : Pipeline D F W) (trade : Trade F) (s : Progress D F W)

theorem dispatch_advances (alert : Alert F) (i : ℕ) (sinks : List (AlertSink F W)) :
    Advances ((List.range' i sinks.length).map (fun k => Call.emit k trade alert)) s
      (dispatch trade alert i sinks s) := by
  induction sinks generalizing i s with
  | nil => exact .stay ()
  | cons sink rest ih =>
      rw [List.length_cons, List.range'_succ, List.map_cons, ← List.singleton_append, dispatch]
      have hcall : Advances [Call.emit i trade alert] s
          (logged (sink.emit trade alert s.world).1,
            { s with
              world := (sink.emit trade alert s.world).2
              log := s.log ++ [.emit i trade alert] }) := .call rfl _ _
      dsimp only
      rcases hraised : logged (sink.emit trade alert s.world).1 with err | ⟨⟩
      · rw [hraised] at hcall
        exact hcall.stopped _
      · rw [hraised] at hcall
        exact hcall.andThen (ih _ (i + 1))

theorem dispatchAll_advances (alerts : List (Alert F)) :
    Advances (alerts.flatMap (p.fanOut trade)) s (p.dispatchAll trade alerts s) := by
  induction alerts generalizing s with
  | nil => exact .stay ()
  | cons alert rest ih =>
      rw [List.flatMap_cons, dispatchAll]
      have hone := dispatch_advances trade s alert 0 p.sinks
      rw [← List.range_eq_range'] at hone
      rcases hdispatch : dispatch trade alert 0 p.sinks s with ⟨err | ⟨⟩, s'⟩
      · rw [hdispatch] at hone
        exact hone.stopped _
      · rw [hdispatch] at hone
        exact hone.andThen (ih s')

theorem announce_advances :
    Advances (if p.onTrade.isSome then [Call.onTrade trade] else []) s (p.announce trade s) := by
  unfold announce
  cases p.onTrade with
  | none => exact .stay ()
  | some hook => exact .call rfl _ _

theorem report_advances (alerts : List (Alert F)) (latencyUs : F) :
    Advances (if p.onProcessed.isSome then [Call.onProcessed trade alerts] else []) s
      (p.report trade alerts latencyUs s) := by
  unfold report
  cases p.onProcessed with
  | none => exact .stay ()
  | some hook => exact .call rfl _ _

/-- Detection is one call to the engine. What it returns are the alerts of the
trade. -/
theorem detect_advances :
    Advances [Call.process trade] s (p.detect trade s) ∧
      ∀ alerts latencyUs, (p.detect trade s).1 = .ok (alerts, latencyUs) →
        returnedAlerts (s.engine.process trade).1 = alerts := by
  unfold detect
  rcases hprocess : s.engine.process trade with ⟨err | alerts, engine⟩
  · refine ⟨⟨[.process trade], List.prefix_refl _, rfl, ?_, fun _ _ => rfl⟩, ?_⟩
    · simp [hprocess, processed]
    · intro alerts latencyUs h
      cases h
  · refine ⟨⟨[.process trade], List.prefix_refl _, rfl, ?_, fun _ _ => rfl⟩, ?_⟩
    · simp [hprocess, processed]
    · intro other latencyUs h
      exact (Prod.mk.inj (Except.ok.inj h)).1

/-- Everything that is called for one trade, up to where it stops. -/
theorem handleTrade_advances :
    Advances (p.callsOf trade (returnedAlerts (s.engine.process trade).1)) s
      (p.handleTrade trade s) := by
  have hannounce := p.announce_advances trade s
  unfold handleTrade callsOf
  rw [List.append_assoc, List.append_assoc]
  rcases hannounced : p.announce trade s with ⟨err | ⟨⟩, s₁⟩
  · rw [hannounced] at hannounce
    exact hannounce.stopped _
  rw [hannounced] at hannounce
  have hengine : s₁.engine = s.engine := by
    obtain ⟨calls, hfirst, _, hengine, hall⟩ := hannounce
    rw [hengine, hall () rfl]
    split_ifs <;> rfl
  apply hannounce.andThen
  obtain ⟨hdetect, halerts⟩ := p.detect_advances trade s₁
  dsimp only
  rcases hdetected : p.detect trade s₁ with ⟨err | ⟨alerts, latencyUs⟩, s₂⟩
  · rw [hdetected] at hdetect
    exact hdetect.stopped _
  rw [hdetected] at hdetect halerts
  obtain rfl : returnedAlerts (s.engine.process trade).1 = alerts := by
    rw [← hengine]
    exact halerts alerts latencyUs rfl
  apply hdetect.andThen
  have hreport := p.report_advances trade s₂ (returnedAlerts (s.engine.process trade).1)
    latencyUs
  dsimp only
  rcases hreported : p.report trade (returnedAlerts (s.engine.process trade).1) latencyUs s₂ with
    ⟨err | ⟨⟩, s₃⟩
  · rw [hreported] at hreport
    exact hreport.stopped _
  rw [hreported] at hreport
  exact hreport.andThen (p.dispatchAll_advances trade s₃ _)

/-- The calls that a run makes for some trades when nothing stops it. -/
def callsFor (engine : DetectionEngine D F) (trades : List (Trade F)) : List (Call F) :=
  (trace DetectionEngine.process engine trades).flatMap
    (fun entry => p.callsOf entry.1 (returnedAlerts entry.2))

theorem consume_advances (trades : List (Trade F)) :
    Advances (p.callsFor s.engine trades) s (p.consume trades s) := by
  induction trades generalizing s with
  | nil => exact .stay ()
  | cons trade rest ih =>
      have hone := p.handleTrade_advances trade s
      rw [callsFor, trace_cons, List.flatMap_cons, consume]
      rcases hhandled : p.handleTrade trade s with ⟨err | ⟨⟩, s'⟩
      · rw [hhandled] at hone
        exact hone.stopped _
      rw [hhandled] at hone
      have hengine : s'.engine = (s.engine.process trade).2 := by
        obtain ⟨calls, _, _, hengine, hall⟩ := hone
        rw [hengine, hall () rfl, callsOf_processed]
        rfl
      have hrest := ih s'
      rw [hengine] at hrest
      exact hone.andThen hrest

theorem callsFor_processed (engine : DetectionEngine D F) (trades : List (Trade F)) :
    (p.callsFor engine trades).filterMap processed = trades := by
  rw [callsFor, List.filterMap_flatMap]
  simp only [callsOf_processed]
  rw [← List.map_eq_flatMap, trace_inputs]

theorem callsFor_handedTo {i : ℕ} (hi : i < p.sinks.length) (trades : List (Trade F)) :
    (p.callsFor p.engine trades).filterMap (handedTo i) = p.returned trades := by
  rw [callsFor, List.filterMap_flatMap]
  simp only [callsOf_handedTo p hi]
  rfl

theorem close_notMem_callsFor (engine : DetectionEngine D F) (trades : List (Trade F)) :
    .close ∉ p.callsFor engine trades := by
  rw [callsFor, List.mem_flatMap]
  rintro ⟨entry, _, hclose⟩
  exact close_notMem_callsOf p entry.1 (returnedAlerts entry.2) hclose

end Steps

/-- Where a run may stop: after some of its calls, with the source closed after them
and an engine that has processed the trades among them and no other. -/
structure StoppedAt (p : Pipeline D F W) (source : TradeSource F W) (calls : List (Call F))
    (outcome : Except Raised Unit) (s : Progress D F W) : Prop where
  first : calls <+: p.callsFor p.engine source.stream
  log : s.log = calls ++ [.close]
  closedOnce : .close ∉ calls
  toEngine : calls.filterMap processed <+: source.stream
  toSinks : ∀ i < p.sinks.length, calls.filterMap (handedTo i) <+: p.returned source.stream
  engine : s.engine = final DetectionEngine.process p.engine (calls.filterMap processed)
  stopped : s.running = false
  whole : outcome = .ok () → calls = p.callsFor p.engine source.stream ∧ source.ending = .ok ()

/-- Every run, whatever the hooks, the sinks and the source do and whenever the task
is cancelled: nothing is called out of turn or twice, the source is closed last, and
a run that returns has left nothing out. -/
theorem run_stops (p : Pipeline D F W) (source : TradeSource F W) (world : W) :
    ∃ calls, p.StoppedAt source calls (p.run source world).1 (p.run source world).2 := by
  obtain ⟨calls, hfirst, hlog, hengine, hall⟩ := p.consume_advances
    { engine := p.engine, world := world, running := true, log := [] } source.stream
  dsimp only at hfirst hengine hall
  rw [List.nil_append] at hlog
  refine ⟨calls, hfirst, ?_, ?_, ?_, ?_, ?_, ?_, ?_⟩
  · unfold run
    dsimp only
    rw [hlog]
    split <;> rfl
  · intro hclose
    exact p.close_notMem_callsFor p.engine source.stream (hfirst.subset hclose)
  · rw [← p.callsFor_processed p.engine source.stream]
    exact hfirst.filterMap processed
  · intro i hi
    rw [← p.callsFor_handedTo hi source.stream]
    exact hfirst.filterMap (handedTo i)
  · unfold run
    dsimp only
    rw [← hengine]
    split <;> rfl
  · unfold run
    dsimp only
    split <;> rfl
  · intro hok
    unfold run at hok
    dsimp only at hok
    rcases hclosed : (source.close (p.consume source.stream
        { engine := p.engine, world := world, running := true, log := [] }).2.world).1 with
      err | ⟨⟩
    · rw [hclosed] at hok
      cases hok
    rw [hclosed] at hok
    rcases hconsumed : (p.consume source.stream
        { engine := p.engine, world := world, running := true, log := [] }).1 with err | ⟨⟩
    · rw [hconsumed] at hok
      cases hok
    rw [hconsumed] at hok
    exact ⟨hall () hconsumed, hok⟩

end TradeWatch.Streaming.Pipeline
