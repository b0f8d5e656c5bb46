import TradeWatch.Engine
import TradeWatch.Lib.Transducer

/-!
The streaming pipeline with any list of sinks and any hooks. Sinks, hooks, clock
and source are foreign code: each may do anything to a world that they share,
and each may raise. The log of a run lists the calls that the pipeline makes, in
order, whether they raise or not.
-/

namespace TradeWatch.Streaming

open PyFloat Transducer

/-- What a call into foreign code may end in. A cancellation is not an
`Exception`, so `except Exception` lets it through. -/
inductive Raised
  | exception (err : PyError)
  | cancelled
  deriving DecidableEq

/-- A call into foreign code. -/
abbrev Effect (W : Type) := W → Except Raised Unit × W

/-- `except Exception: logger.exception(...)`. -/
def logged : Except Raised Unit → Except Raised Unit
  | .error (.exception _) => .ok ()
  | other => other

section Model

variable (D F W : Type) [PyFloat F]

structure AlertSink where
  emit : Trade F → Alert F → Effect W

/-- The trades that `stream` yields, and how the iteration ends after the last
of them. -/
structure TradeSource where
  stream : List (Trade F)
  ending : Except Raised Unit
  close : Effect W

structure Pipeline where
  engine : DetectionEngine D F
  sinks : List (AlertSink F W)
  onTrade : Option (Trade F → Effect W)
  onProcessed : Option (Trade F → List (Alert F) → F → Effect W)
  perfCounterNs : W → ℤ × W

/-- The calls that a pipeline makes. A sink goes by its place in the list. -/
inductive Call
  | onTrade (trade : Trade F)
  | process (trade : Trade F)
  | onProcessed (trade : Trade F) (alerts : List (Alert F))
  | emit (sink : ℕ) (trade : Trade F) (alert : Alert F)
  | close

/-- A run under way. -/
structure Progress where
  engine : DetectionEngine D F
  world : W
  running : Bool
  log : List (Call F)

end Model

namespace Pipeline

variable {D F W : Type} [PyFloat F]

/-- `_dispatch`, from the sink at place `i` on. -/
def dispatch (trade : Trade F) (alert : Alert F) :
    ℕ → List (AlertSink F W) → Progress D F W → Except Raised Unit × Progress D F W
  | _, [], s => (.ok (), s)
  | i, sink :: rest, s =>
      let (raised, world) := sink.emit trade alert s.world
      let s := { s with world := world, log := s.log ++ [.emit i trade alert] }
      match logged raised with
      | .error err => (.error err, s)
      | .ok () => dispatch trade alert (i + 1) rest s

/-- The loop over the alerts of one trade. -/
def dispatchAll (p : Pipeline D F W) (trade : Trade F) :
    List (Alert F) → Progress D F W → Except Raised Unit × Progress D F W
  | [], s => (.ok (), s)
  | alert :: rest, s =>
      match dispatch trade alert 0 p.sinks s with
      | (.error err, s) => (.error err, s)
      | (.ok (), s) => p.dispatchAll trade rest s

/-- The hook before detection. What it raises is not caught. -/
def announce (p : Pipeline D F W) (trade : Trade F) (s : Progress D F W) :
    Except Raised Unit × Progress D F W :=
  match p.onTrade with
  | none => (.ok (), s)
  | some hook =>
      let (raised, world) := hook trade s.world
      (raised, { s with world := world, log := s.log ++ [.onTrade trade] })

/-- The hook after detection. -/
def report (p : Pipeline D F W) (trade : Trade F) (alerts : List (Alert F)) (latencyUs : F)
    (s : Progress D F W) : Except Raised Unit × Progress D F W :=
  match p.onProcessed with
  | none => (.ok (), s)
  | some hook =>
      let (raised, world) := hook trade alerts latencyUs s.world
      (logged raised, { s with world := world, log := s.log ++ [.onProcessed trade alerts] })

variable [Detector D F]

/-- `engine.process` between two readings of the clock. What it raises is not
caught. -/
def detect (p : Pipeline D F W) (trade : Trade F) (s : Progress D F W) :
    Except Raised (List (Alert F) × F) × Progress D F W :=
  let (start, world) := p.perfCounterNs s.world
  let (returned, engine) := s.engine.process trade
  let s := { s with engine := engine, world := world, log := s.log ++ [.process trade] }
  match returned with
  | .error err => (.error (.exception err), s)
  | .ok alerts =>
      let (stop, world) := p.perfCounterNs s.world
      (.ok (alerts, div (ofRat ((stop - start : ℤ) : ℚ)) (ofRat 1000)), { s with world := world })

/-- `_handle_trade`. -/
def handleTrade (p : Pipeline D F W) (trade : Trade F) (s : Progress D F W) :
    Except Raised Unit × Progress D F W :=
  match p.announce trade s with
  | (.error err, s) => (.error err, s)
  | (.ok (), s) =>
      match p.detect trade s with
      | (.error err, s) => (.error err, s)
      | (.ok (alerts, latencyUs), s) =>
          match p.report trade alerts latencyUs s with
          | (.error err, s) => (.error err, s)
          | (.ok (), s) => p.dispatchAll trade alerts s

/-- The loop over the stream. -/
def consume (p : Pipeline D F W) :
    List (Trade F) → Progress D F W → Except Raised Unit × Progress D F W
  | [], s => (.ok (), s)
  | trade :: rest, s =>
      match p.handleTrade trade s with
      | (.error err, s) => (.error err, s)
      | (.ok (), s) => p.consume rest s

/-- `run`: the source is closed whichever way the loop ends, and what closing
raises takes the place of what the loop raised. -/
def run (p : Pipeline D F W) (source : TradeSource F W) (world : W) :
    Except Raised Unit × Progress D F W :=
  let s : Progress D F W := { engine := p.engine, world := world, running := true, log := [] }
  let (consumed, s) := p.consume source.stream s
  let ended := match consumed with
    | .error err => .error err
    | .ok () => source.ending
  let (closed, world) := source.close s.world
  let s := { s with world := world, running := false, log := s.log ++ [.close] }
  match closed with
  | .error err => (.error err, s)
  | .ok () => (ended, s)

/-- Foreign code raises nothing that gets past the pipeline's handlers: the hook
before detection nothing at all, the others nothing but an `Exception`. -/
structure Contained (p : Pipeline D F W) : Prop where
  onTrade : ∀ hook ∈ p.onTrade, ∀ trade world, (hook trade world).1 = .ok ()
  onProcessed : ∀ hook ∈ p.onProcessed, ∀ trade alerts latencyUs world,
    (hook trade alerts latencyUs world).1 ≠ .error .cancelled
  emit : ∀ sink ∈ p.sinks, ∀ trade alert world,
    (sink.emit trade alert world).1 ≠ .error .cancelled

omit [PyFloat F] in
theorem logged_eq_ok {raised : Except Raised Unit} (h : raised ≠ .error .cancelled) :
    logged raised = .ok () := by
  rcases raised with (err | _) | ⟨⟩
  · rfl
  · exact absurd rfl h
  · rfl

/-- One alert to every sink. -/
def fanOut (p : Pipeline D F W) (trade : Trade F) (alert : Alert F) : List (Call F) :=
  (List.range p.sinks.length).map fun i => .emit i trade alert

/-- Everything that is called for one trade. -/
def callsOf (p : Pipeline D F W) (trade : Trade F) (alerts : List (Alert F)) : List (Call F) :=
  (if p.onTrade.isSome then [Call.onTrade trade] else []) ++ [Call.process trade] ++
    (if p.onProcessed.isSome then [Call.onProcessed trade alerts] else []) ++
    alerts.flatMap (p.fanOut trade)

/-- The alerts of a call of the engine. -/
def returnedAlerts : Except PyError (List (Alert F)) → List (Alert F)
  | .ok alerts => alerts
  | .error _ => []

section Steps

variable {p : Pipeline D F W} (trade : Trade F) (s : Progress D F W)

omit [Detector D F] in
/-- No sink is passed over, whichever of them raise. -/
theorem dispatch_eq (alert : Alert F) (i : ℕ) (sinks : List (AlertSink F W))
    (hemit : ∀ sink ∈ sinks, ∀ trade alert world,
      (sink.emit trade alert world).1 ≠ .error .cancelled) :
    ∃ world, dispatch trade alert i sinks s =
      (.ok (), { s with
        world := world
        log := s.log ++ (List.range' i sinks.length).map fun k => .emit k trade alert }) := by
  induction sinks generalizing i s with
  | nil => exact ⟨s.world, by simp [dispatch]⟩
  | cons sink rest ih =>
      obtain ⟨hsink, hrest⟩ := List.forall_mem_cons.mp hemit
      have hcaught := logged_eq_ok (hsink trade alert s.world)
      obtain ⟨world, hnext⟩ := ih { s with
        world := (sink.emit trade alert s.world).2
        log := s.log ++ [.emit i trade alert] } (i + 1) hrest
      refine ⟨world, ?_⟩
      rw [dispatch]
      simp only [hcaught, hnext, List.length_cons, List.range'_succ, List.map_cons,
        List.append_assoc, List.singleton_append]

variable (hp : p.Contained)
include hp

omit [Detector D F] in
theorem dispatchAll_eq (alerts : List (Alert F)) :
    ∃ world, p.dispatchAll trade alerts s =
      (.ok (), { s with world := world, log := s.log ++ alerts.flatMap (p.fanOut trade) }) := by
  induction alerts generalizing s with
  | nil => exact ⟨s.world, by simp [dispatchAll]⟩
  | cons alert rest ih =>
      obtain ⟨world, hdispatch⟩ := dispatch_eq trade s alert 0 p.sinks hp.emit
      rw [← List.range_eq_range'] at hdispatch
      obtain ⟨next, hrest⟩ := ih { s with
        world := world
        log := s.log ++ p.fanOut trade alert }
      refine ⟨next, ?_⟩
      rw [dispatchAll, hdispatch]
      rw [fanOut] at hrest
      simp only [hrest, List.flatMap_cons, fanOut, List.append_assoc]

omit [Detector D F] in
theorem announce_eq :
    ∃ world, p.announce trade s =
      (.ok (), { s with
        world := world
        log := s.log ++ if p.onTrade.isSome then [.onTrade trade] else [] }) := by
  unfold announce
  cases hhook : p.onTrade with
  | none => exact ⟨s.world, by simp⟩
  | some hook => exact ⟨_, Prod.ext (hp.onTrade hook hhook trade s.world) rfl⟩

omit [Detector D F] in
theorem report_eq (alerts : List (Alert F)) (latencyUs : F) :
    ∃ world, p.report trade alerts latencyUs s =
      (.ok (), { s with
        world := world
        log := s.log ++ if p.onProcessed.isSome then [.onProcessed trade alerts] else [] }) := by
  unfold report
  cases hhook : p.onProcessed with
  | none => exact ⟨s.world, by simp⟩
  | some hook =>
      have hcaught := logged_eq_ok (hp.onProcessed hook hhook trade alerts latencyUs s.world)
      exact ⟨_, Prod.ext hcaught rfl⟩

omit hp in
theorem detect_eq {alerts : List (Alert F)} (hok : (s.engine.process trade).1 = .ok alerts) :
    ∃ latencyUs world, p.detect trade s =
      (.ok (alerts, latencyUs), { s with
        engine := (s.engine.process trade).2
        world := world
        log := s.log ++ [.process trade] }) := by
  unfold detect
  rcases hprocess : s.engine.process trade with ⟨returned, engine⟩
  rw [hprocess] at hok
  obtain rfl : returned = .ok alerts := hok
  exact ⟨_, _, rfl⟩

/-- One trade, handled to its end. -/
theorem handleTrade_eq {alerts : List (Alert F)} (hok : (s.engine.process trade).1 = .ok alerts) :
    ∃ world, p.handleTrade trade s =
      (.ok (), { s with
        engine := (s.engine.process trade).2
        world := world
        log := s.log ++ p.callsOf trade alerts }) := by
  obtain ⟨announced, hannounce⟩ := announce_eq trade s hp
  obtain ⟨latencyUs, detected, hdetect⟩ := detect_eq (p := p) trade
    { s with
      world := announced
      log := s.log ++ if p.onTrade.isSome then [.onTrade trade] else [] } hok
  obtain ⟨reported, hreport⟩ := report_eq trade
    { s with
      engine := (s.engine.process trade).2
      world := detected
      log := (s.log ++ if p.onTrade.isSome then [.onTrade trade] else []) ++ [.process trade] }
    hp alerts latencyUs
  obtain ⟨world, hdispatch⟩ := dispatchAll_eq trade
    { s with
      engine := (s.engine.process trade).2
      world := reported
      log := ((s.log ++ if p.onTrade.isSome then [.onTrade trade] else []) ++ [.process trade]) ++
        if p.onProcessed.isSome then [.onProcessed trade alerts] else [] } hp alerts
  refine ⟨world, ?_⟩
  unfold handleTrade
  simp only [hannounce, hdetect, hreport, hdispatch]
  simp only [callsOf, List.append_assoc]

omit trade in
/-- A whole stream whose trades the engine accepts. -/
theorem consume_eq (trades : List (Trade F))
    (hprocess : ∀ entry ∈ trace DetectionEngine.process s.engine trades,
      ∃ alerts, entry.2 = .ok alerts) :
    ∃ world, p.consume trades s =
      (.ok (), { s with
        engine := final DetectionEngine.process s.engine trades
        world := world
        log := s.log ++ (trace DetectionEngine.process s.engine trades).flatMap
          (fun entry => p.callsOf entry.1 (returnedAlerts entry.2)) }) := by
  induction trades generalizing s with
  | nil => exact ⟨s.world, by simp [consume]⟩
  | cons trade rest ih =>
      rw [trace_cons, List.forall_mem_cons] at hprocess
      obtain ⟨⟨alerts, hok⟩, hrest⟩ := hprocess
      obtain ⟨handled, hhandle⟩ := handleTrade_eq trade s hp hok
      obtain ⟨world, hconsume⟩ := ih
        { s with
          engine := (s.engine.process trade).2
          world := handled
          log := s.log ++ p.callsOf trade alerts } hrest
      refine ⟨world, ?_⟩
      rw [consume, hhandle]
      have halerts : returnedAlerts (s.engine.process trade).1 = alerts :=
        congrArg returnedAlerts hok
      simp only [hconsume, trace_cons, List.flatMap_cons, final_cons, halerts, List.append_assoc]

end Steps

section Calls

/-- The trade of a call to the engine. -/
def processed : Call F → Option (Trade F)
  | .process trade => some trade
  | _ => none

/-- What a call hands to the sink at place `i`. -/
def handedTo (i : ℕ) : Call F → Option (Trade F × Alert F)
  | .emit sink trade alert => if sink = i then some (trade, alert) else none
  | _ => none

omit [Detector D F] in
theorem callsOf_processed (p : Pipeline D F W) (trade : Trade F) (alerts : List (Alert F)) :
    (p.callsOf trade alerts).filterMap processed = [trade] := by
  have hnone : (alerts.flatMap (p.fanOut trade)).filterMap processed = [] := by
    apply List.filterMap_eq_nil_iff.mpr
    intro call hcall
    obtain ⟨alert, _, hmem⟩ := List.mem_flatMap.mp hcall
    obtain ⟨i, _, rfl⟩ := List.mem_map.mp hmem
    rfl
  unfold callsOf
  rw [List.filterMap_append, hnone]
  split_ifs <;> rfl

omit [Detector D F] in
/-- A sink of the pipeline is handed every alert once, in order. -/
theorem callsOf_handedTo (p : Pipeline D F W) {i : ℕ} (hi : i < p.sinks.length) (trade : Trade F)
    (alerts : List (Alert F)) :
    (p.callsOf trade alerts).filterMap (handedTo i) = alerts.map (trade, ·) := by
  have hone : ∀ alert, (p.fanOut trade alert).filterMap (handedTo i) = [(trade, alert)] := by
    intro alert
    have hrange : (List.range p.sinks.length).filter (· == i) = [i] := by
      rw [List.filter_beq, List.nodup_range.count, if_pos (List.mem_range.mpr hi)]
      rfl
    unfold fanOut
    rw [List.filterMap_map, ← List.map_singleton (f := fun _ => (trade, alert)) (a := i), ← hrange,
      ← List.filterMap_eq_map, List.filterMap_filter]
    apply List.filterMap_congr
    intro k _
    simp [handedTo]
  have hall : (alerts.flatMap (p.fanOut trade)).filterMap (handedTo i) =
      alerts.map (trade, ·) := by
    rw [List.filterMap_flatMap]
    simp only [hone]
    exact (List.map_eq_flatMap ..).symm
  unfold callsOf
  rw [List.filterMap_append, hall]
  split_ifs <;> simp [handedTo]

omit [Detector D F] in
theorem close_notMem_callsOf (p : Pipeline D F W) (trade : Trade F) (alerts : List (Alert F)) :
    .close ∉ p.callsOf trade alerts := by
  have hfan : .close ∉ alerts.flatMap (p.fanOut trade) := by
    intro hclose
    obtain ⟨alert, _, hmem⟩ := List.mem_flatMap.mp hclose
    obtain ⟨i, _, heq⟩ := List.mem_map.mp hmem
    cases heq
  unfold callsOf
  split_ifs <;> simp [hfan]

end Calls

/-- The alerts that the engine returns on the trades of a source, each with its trade. -/
def returned (p : Pipeline D F W) (trades : List (Trade F)) : List (Trade F × Alert F) :=
  (trace DetectionEngine.process p.engine trades).flatMap fun entry =>
    (returnedAlerts entry.2).map (entry.1, ·)

/-- A run that went through the whole source: every trade to the engine once,
every alert to every sink once, both in order, and the source closed last. -/
structure Completed (p : Pipeline D F W) (source : TradeSource F W)
    (outcome : Except Raised Unit) (s : Progress D F W) : Prop where
  toEngine : s.log.filterMap processed = source.stream
  toSinks : ∀ i < p.sinks.length, s.log.filterMap (handedTo i) = p.returned source.stream
  closedLast : ∃ body, s.log = body ++ [.close] ∧ .close ∉ body
  engine : s.engine = final DetectionEngine.process p.engine source.stream
  stopped : s.running = false
  outcome : outcome = source.ending ∨ ∃ world err, (source.close world).1 = .error err ∧
    outcome = .error err

section Run

variable {p : Pipeline D F W} (source : TradeSource F W) (world : W)

/-- A whole run over trades that the engine accepts. -/
theorem run_eq (hp : p.Contained)
    (hprocess : ∀ entry ∈ trace DetectionEngine.process p.engine source.stream,
      ∃ alerts, entry.2 = .ok alerts) :
    ∃ consumed, p.run source world =
      (match (source.close consumed).1 with
        | .error err => .error err
        | .ok () => source.ending,
      { engine := final DetectionEngine.process p.engine source.stream
        world := (source.close consumed).2
        running := false
        log := (trace DetectionEngine.process p.engine source.stream).flatMap
          (fun entry => p.callsOf entry.1 (returnedAlerts entry.2)) ++ [.close] }) := by
  obtain ⟨consumed, hconsume⟩ := consume_eq
    { engine := p.engine, world := world, running := true, log := [] } hp source.stream hprocess
  refine ⟨consumed, ?_⟩
  unfold run
  dsimp only
  rw [hconsume]
  dsimp only
  rw [List.nil_append]
  rcases (source.close consumed).1 with err | ⟨⟩ <;> rfl

end Run

/-- No failure of a sink or of the hook after detection keeps anything from the
engine or from another sink. -/
theorem run_completed (p : Pipeline D F W) (source : TradeSource F W) (world : W)
    (hp : p.Contained)
    (hprocess : ∀ entry ∈ trace DetectionEngine.process p.engine source.stream,
      ∃ alerts, entry.2 = .ok alerts) :
    p.Completed source (p.run source world).1 (p.run source world).2 := by
  obtain ⟨consumed, hrun⟩ := run_eq source world hp hprocess
  rw [hrun]
  constructor
  · rw [List.filterMap_append, List.filterMap_flatMap]
    simp only [callsOf_processed]
    rw [← List.map_eq_flatMap, trace_inputs]
    exact List.append_nil _
  · intro i hi
    rw [List.filterMap_append, List.filterMap_flatMap]
    simp only [callsOf_handedTo p hi]
    exact List.append_nil _
  · refine ⟨_, rfl, ?_⟩
    rw [List.mem_flatMap]
    rintro ⟨entry, _, hclose⟩
    exact close_notMem_callsOf p entry.1 (returnedAlerts entry.2) hclose
  · rfl
  · rfl
  · rcases hclose : (source.close consumed).1 with err | ⟨⟩
    · exact .inr ⟨consumed, err, hclose, rfl⟩
    · exact .inl rfl

/-- A pipeline whose first sink and whose hook after detection raise on every
call. The world counts the alerts that the second sink gets. -/
def firstSinkDown : Pipeline (ShippedDetector ℚ Unit) ℚ ℕ where
  engine := .init .missing {}
  sinks :=
    [⟨fun _ _ world => (.error (.exception (.runtimeError "disk full")), world)⟩,
      ⟨fun _ _ world => (.ok (), world + 1)⟩]
  onTrade := none
  onProcessed := some fun _ _ _ world => (.error (.exception .keyError), world)
  perfCounterNs world := (0, world)

def oneSelfTrade : TradeSource ℚ ℕ where
  stream := [selfTradeAt "a" 0]
  ending := .ok ()
  close world := (.ok (), world)

theorem run_completed_first_sink_down :
    firstSinkDown.Completed oneSelfTrade (firstSinkDown.run oneSelfTrade 0).1
        (firstSinkDown.run oneSelfTrade 0).2 ∧
      (firstSinkDown.run oneSelfTrade 0).2.world = 1 := by
  refine ⟨run_completed firstSinkDown oneSelfTrade 0 ⟨?_, ?_, ?_⟩ ?_, by decide +kernel⟩
  · intro hook hhook
    cases hhook
  · intro hook hhook trade alerts latencyUs world
    cases hhook
    simp
  · intro sink hsink trade alert world
    rcases List.mem_pair.mp hsink with rfl | rfl <;> simp
  · intro entry hentry
    obtain rfl := List.mem_singleton.mp hentry
    exact ⟨_, congrArg Prod.fst (DetectionEngine.process_of_ok firstSinkDown.engine
      (selfTradeAt "a" 0) (by decide +kernel))⟩

end Pipeline

end TradeWatch.Streaming
