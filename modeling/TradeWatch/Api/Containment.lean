import TradeWatch.Api.Admission
import TradeWatch.Lib.Transducer

/-!
Whole runs of the service. Over requests alone the engine tracks registered
symbols only, and as many as the guardrails allow. The pipeline hands its
trades on without asking the guardrails, so with it the bounds hold in exactly
the runs whose own trades keep to them.
-/

namespace TradeWatch

open PyFloat Transducer

variable {D F : Type} [PyFloat F]

namespace DetectionEngine

variable [Detector D F]

/-- Tracking one more symbol takes one more place, unless it is known. -/
theorem process_symbols_length (e : DetectionEngine D F) (trade : Trade F) :
    (e.process trade).2.windows.symbols.length =
      if trade.symbol ∈ e.windows.symbols then e.windows.symbols.length
      else e.windows.symbols.length + 1 := by
  have hset : (e.process trade).2.windows.symbols.toFinset =
      insert trade.symbol e.windows.symbols.toFinset := by
    ext symbol
    rw [Finset.mem_insert, List.mem_toFinset, List.mem_toFinset, e.process_symbols trade]
  have hcard : ∀ store : WindowStore F, store.symbols.toFinset.card = store.symbols.length :=
    fun store => List.toFinset_card_of_nodup store.windows.keys_nodup
  rw [← hcard, hset, ← hcard]
  split_ifs with hmem
  · rw [Finset.insert_eq_of_mem (List.mem_toFinset.mpr hmem)]
  · rw [Finset.card_insert_of_notMem (fun h => hmem (List.mem_toFinset.mp h))]

end DetectionEngine

/-- The pipeline's source has no part in the event. -/
def Event.unsourced : Event F → Bool
  | .post _ => true
  | .sourced _ _ _ => false
  | .emit => true
  | .stop => true
  | .subscribe _ => true
  | .unsubscribe _ _ => true
  | .receive _ _ => true

namespace AppState

variable [Detector D F]

section Requests

/-- What holds while only requests reach the engine. -/
structure Registered (s : AppState D F) (g : Guardrails F) : Prop where
  guardrails_eq : s.guardrails = some g
  cfg_eq : g.cfg = {}
  tracked_subset : ∀ symbol ∈ s.tracked, symbol ∈ g.symbols
  tracked_fullMatch : ∀ symbol ∈ s.tracked, SymbolFullMatch symbol

/-- A symbol that the guardrails let through matches to its end: the only text
that a match leaves over is a final line feed, and a validated trade has none. -/
theorem fullMatch_of_withinBounds {cases : CaseMap} {newId : String} {utcnow : ℚ}
    {payload : TradePayload F} {trade : Trade F}
    (hvalid : Trade.modelValidate cases newId utcnow payload = some trade)
    (hbounds : ({} : GuardrailConfig F).WithinBounds trade) : SymbolFullMatch trade.symbol := by
  apply fullMatch_of_symbolRe (hbounds.2.1 rfl)
  rw [Trade.modelValidate_symbol hvalid]
  exact upperSymbol_no_trailing_newline cases payload.symbol

omit [Detector D F] in
/-- Only the engine and the guardrails matter. -/
theorem Registered.of_eq {s s' : AppState D F} {g : Guardrails F} (h : Registered s g)
    (hengine : s'.engine = s.engine) (hguardrails : s'.guardrails = s.guardrails) :
    Registered s' g where
  guardrails_eq := hguardrails.trans h.guardrails_eq
  cfg_eq := h.cfg_eq
  tracked_subset := by
    rw [tracked, hengine]
    exact h.tracked_subset
  tracked_fullMatch := by
    rw [tracked, hengine]
    exact h.tracked_fullMatch

/-- A request keeps to the invariant: refused it moves neither side, let
through it registers the symbol before the engine tracks it. -/
theorem post_registered {cases : CaseMap} {s : AppState D F} {g : Guardrails F}
    (h : Registered s g) (req : Request F) :
    ∃ g', Registered (s.step cases (.post req)).2 g' := by
  have hengine := step_engine cases s (.post req)
  have hguardrails := step_guardrails cases s (.post req)
  rcases accept_guarded cases h.guardrails_eq req with
    ⟨response, haccept, hsame⟩ | ⟨trade, g', haccept, hnext, hverdict, hvalid⟩
  · rw [handed_of_error haccept] at hengine
    exact ⟨g, h.of_eq hengine (hguardrails.trans (hsame.trans h.guardrails_eq.symm))⟩
  · rw [handed_of_ok haccept] at hengine
    have hbounds : ({} : GuardrailConfig F).WithinBounds trade := by
      rw [← h.cfg_eq]
      exact hverdict.withinBounds
    have htracked : ∀ symbol, symbol ∈ (s.step cases (.post req)).2.tracked ↔
        symbol = trade.symbol ∨ symbol ∈ s.tracked := by
      intro symbol
      rw [tracked, hengine]
      exact s.engine.process_symbols trade symbol
    refine ⟨g', hguardrails.trans hnext, hverdict.cfg_eq.trans h.cfg_eq, ?_, ?_⟩
    · intro symbol hsymbol
      rw [hverdict.symbols_eq]
      rcases (htracked symbol).mp hsymbol with rfl | hold
      · exact Finset.mem_insert_self _ _
      · exact Finset.mem_insert_of_mem (h.tracked_subset symbol hold)
    · intro symbol hsymbol
      rcases (htracked symbol).mp hsymbol with rfl | hold
      · exact fullMatch_of_withinBounds hvalid hbounds
      · exact h.tracked_fullMatch symbol hold

theorem step_registered {cases : CaseMap} {s : AppState D F} {event : Event F}
    (hunsourced : event.unsourced) (h : ∃ g, Registered s g) :
    ∃ g, Registered (s.step cases event).2 g := by
  obtain ⟨g, hg⟩ := h
  have hengine := step_engine cases s event
  have hguardrails := step_guardrails cases s event
  cases event with
  | post req => exact post_registered hg req
  | sourced trade recordedAt latencyUs => cases hunsourced
  | emit => exact ⟨g, hg.of_eq hengine hguardrails⟩
  | stop => exact ⟨g, hg.of_eq hengine hguardrails⟩
  | subscribe kind => exact ⟨g, hg.of_eq hengine hguardrails⟩
  | unsubscribe kind queue => exact ⟨g, hg.of_eq hengine hguardrails⟩
  | receive kind queue => exact ⟨g, hg.of_eq hengine hguardrails⟩

omit [Detector D F] in
theorem startSource_frame (s : AppState D F) :
    s.startSource.engine = s.engine ∧ s.startSource.guardrails = s.guardrails := by
  unfold startSource
  rcases s.settings.source with _ | _
  · dsimp only
    split <;> exact ⟨rfl, rfl⟩
  · exact ⟨rfl, rfl⟩

end Requests

section Shipped

variable {M : Type} (cases : CaseMap) (sklearn : SkLearn F M) (settings : Settings)
  (cfg : DetectionConfig F) (startTime : ℚ)

theorem boot_registered (henabled : settings.guardrailsEnabled) :
    Registered (boot sklearn settings cfg startTime) (.init {}) := by
  obtain ⟨hengine, hguardrails⟩ := startSource_frame (init sklearn settings cfg startTime)
  have hinit : Registered (init sklearn settings cfg startTime) (.init {}) := by
    refine ⟨by simp only [init, henabled, if_true], rfl, ?_, ?_⟩
    · intro symbol hsymbol
      cases hsymbol
    · intro symbol hsymbol
      cases hsymbol
  exact hinit.of_eq hengine hguardrails

/-- A run without the source keeps registering before it tracks. -/
theorem final_registered (henabled : settings.guardrailsEnabled) (events : List (Event F))
    (hunsourced : ∀ event ∈ events, event.unsourced) :
    ∃ g, Registered (final (step cases) (boot sklearn settings cfg startTime) events) g := by
  have hguard : Along (step cases) (fun _ event => Event.unsourced event)
      (boot sklearn settings cfg startTime) events := by
    rintro before event after rfl
    exact hunsourced event (by simp)
  exact history_along (step cases) (P := fun _ s => ∃ g, Registered s g) _
    ⟨_, boot_registered sklearn settings cfg startTime henabled⟩
    (fun _ _ _ hevent h => step_registered hevent h) events hguard

/-- A refused request leaves the engine, the collector, the broadcaster and the
guardrails as they were and one audit record of its refusal; and as long as
the source has no part, the engine tracks registered symbols only, of which
there are no more than the cap, each in full of the pattern. -/
theorem rejected_post_changes_nothing :
    let start := boot sklearn settings cfg startTime
    (∀ events req action,
      let s := final (step cases) start events
      (s.post cases req).1.refusedAs = some action →
        Untouched s (s.post cases req).2 ∧
          (s.post cases req).2.guardrails = s.guardrails ∧
          ∃ record, record.action = action ∧
            (s.post cases req).2.audit.records = s.audit.records ++ [record]) ∧
      (settings.guardrailsEnabled → ∀ events, (∀ event ∈ events, Event.unsourced event) →
        let s := final (step cases) start events
        ∃ g, s.guardrails = some g ∧ (∀ symbol ∈ s.tracked, symbol ∈ g.symbols) ∧
          (g.symbols.card : ℤ) ≤ g.cfg.maxSymbolCardinality ∧
          ∀ symbol ∈ s.tracked, SymbolFullMatch symbol) := by
  constructor
  · intro events req action s haction
    have hadmission := accept_admission cases s req
    rcases haccept : (s.accept cases req).1 with response | trade
    · rw [post_of_error haccept] at haction ⊢
      rw [haccept] at hadmission
      have huntouched := hadmission.untouched
      generalize (s.accept cases req).2 = s' at hadmission huntouched ⊢
      cases hadmission with
      | refused response record rateLimiter hrecord =>
          exact ⟨huntouched, rfl, record, Option.some.inj (hrecord.symm.trans haction), rfl⟩
      | invalid => cases haction
    · rw [post_of_ok haccept, ingest_refusedAs] at haction
      cases haction
  · intro henabled events hunsourced s
    obtain ⟨g, hg⟩ :=
      final_registered cases sklearn settings cfg startTime henabled events hunsourced
    refine ⟨g, hg.guardrails_eq, hg.tracked_subset, ?_, hg.tracked_fullMatch⟩
    have hcapped := g.capped
    rw [hg.cfg_eq] at hcapped ⊢
    simpa using hcapped

end Shipped

/-- A request for a trade on ASCII text, without a key. -/
def postAt (symbol : String) (price : ℚ) (arrivedAt : ℚ) : Request ℚ where
  payload := { symbol := symbol, price := price, quantity := 1 }
  newId := "trd_1"
  utcnow := 0
  arrivedAt := arrivedAt
  recordedAt := arrivedAt
  latencyUs := 50

/-- With a key configured, a request without it; and two requests for one
symbol, one of them in lower case and padded with blanks. -/
theorem rejected_post_without_key :
    let start := boot SkLearn.missing { apiKey := some "secret" } ({} : DetectionConfig ℚ) 0
    let s := final (step .asciiOnly)
      (boot SkLearn.missing ({} : Settings) ({} : DetectionConfig ℚ) 0)
      [.post (postAt "ACME" 100 0), .post (postAt " acme " 100 1)]
    (∃ record, record.action = "auth_failure" ∧
      (start.post .asciiOnly (postAt "ACME" 100 0)).2.audit.records = [record]) ∧
      s.tracked = ["ACME"] ∧ ∀ symbol ∈ s.tracked, SymbolFullMatch symbol := by
  intro start s
  obtain ⟨hrefused, _⟩ := rejected_post_changes_nothing .asciiOnly SkLearn.missing
    { apiKey := some "secret" } ({} : DetectionConfig ℚ) 0
  obtain ⟨_, hrun⟩ := rejected_post_changes_nothing .asciiOnly SkLearn.missing
    {} ({} : DetectionConfig ℚ) 0
  constructor
  · obtain ⟨_, _, record, haction, haudit⟩ := hrefused [] (postAt "ACME" 100 0) "auth_failure" rfl
    exact ⟨record, haction, haudit⟩
  · obtain ⟨_, _, _, _, hmatch⟩ := hrun rfl
      [.post (postAt "ACME" 100 0), .post (postAt " acme " 100 1)] (by simp [Event.unsourced])
    exact ⟨by decide +kernel, hmatch⟩

section Pipeline

/-- The trade's symbol needs no new window, or there is room for one. -/
def HasRoom (s : AppState D F) (trade : Trade F) : Prop :=
  trade.symbol ∈ s.tracked ∨
    (s.tracked.length : ℤ) < ({} : GuardrailConfig F).maxSymbolCardinality

/-- An event hands the engine nothing past the guardrails and leaves it with no
more symbols than they allow. -/
def Contained (cases : CaseMap) (s : AppState D F) (event : Event F) : Prop :=
  (∀ trade, s.handed cases event = some trade →
      ({} : GuardrailConfig F).WithinBounds trade) ∧
    ((s.step cases event).2.tracked.length : ℤ) ≤
      ({} : GuardrailConfig F).maxSymbolCardinality

/-- What the guardrails do not see to themselves: a trade that the pipeline
takes is within bounds, and whatever is handed on finds room in the engine. -/
def Conforming (cases : CaseMap) (s : AppState D F) : Event F → Prop
  | .sourced trade _ _ =>
      s.takesTrade → ({} : GuardrailConfig F).WithinBounds trade ∧ s.HasRoom trade
  | .post req => ∀ trade, (s.accept cases req).1 = .ok trade → s.HasRoom trade
  | _ => True

/-- The guardrails are on, and the engine tracks no more symbols than they allow. -/
structure Capped (s : AppState D F) : Prop where
  guardrails : ∃ g : Guardrails F, s.guardrails = some g ∧ g.cfg = {}
  tracked_le : (s.tracked.length : ℤ) ≤ ({} : GuardrailConfig F).maxSymbolCardinality

theorem tracked_le_iff {cases : CaseMap} {s : AppState D F} (h : Capped s) {event : Event F}
    {trade : Trade F} (hhanded : s.handed cases event = some trade) :
    ((s.step cases event).2.tracked.length : ℤ) ≤
        ({} : GuardrailConfig F).maxSymbolCardinality ↔ s.HasRoom trade := by
  have hengine := step_engine cases s event
  have hlength := s.engine.process_symbols_length trade
  have hcap := h.tracked_le
  rw [hhanded] at hengine
  simp only [tracked, HasRoom, hengine, hlength] at hcap ⊢
  split_ifs with hmem
  · exact iff_of_true hcap (Or.inl hmem)
  · rw [or_iff_right hmem]
    push_cast
    omega

/-- An event that hands nothing on conforms to everything. -/
theorem contained_of_not_handed {cases : CaseMap} {s : AppState D F} (h : Capped s)
    {event : Event F} (hhanded : s.handed cases event = none) : Contained cases s event := by
  have hengine := step_engine cases s event
  have hcap := h.tracked_le
  rw [hhanded] at hengine
  constructor
  · intro trade htrade
    rw [hhanded] at htrade
    cases htrade
  · rw [tracked, hengine]
    exact hcap

theorem contained_iff_conforming {cases : CaseMap} {s : AppState D F} (h : Capped s)
    (event : Event F) : Contained cases s event ↔ Conforming cases s event := by
  cases event with
  | post req =>
      obtain ⟨g, hsome, hcfg⟩ := h.guardrails
      rcases accept_guarded cases hsome req with
        ⟨response, haccept, _⟩ | ⟨trade, g', haccept, _, hverdict, _⟩
      · refine iff_of_true (contained_of_not_handed h (handed_of_error haccept)) ?_
        intro trade htrade
        rw [haccept] at htrade
        cases htrade
      · have hhanded : s.handed cases (.post req) = some trade := handed_of_ok haccept
        have hbounds : ({} : GuardrailConfig F).WithinBounds trade := by
          rw [← hcfg]
          exact hverdict.withinBounds
        rw [Contained, tracked_le_iff h hhanded, Conforming, hhanded, haccept]
        simp only [Option.some.injEq, Except.ok.injEq, forall_eq']
        exact and_iff_right hbounds
  | sourced trade recordedAt latencyUs =>
      cases htakes : s.takesTrade with
      | false =>
          have hhanded : s.handed cases (.sourced trade recordedAt latencyUs) = none := by
            simp only [handed, htakes, Bool.false_eq_true, if_false]
          refine iff_of_true (contained_of_not_handed h hhanded) ?_
          intro hruns
          rw [htakes] at hruns
          cases hruns
      | true =>
          have hhanded : s.handed cases (.sourced trade recordedAt latencyUs) = some trade := by
            simp only [handed, htakes, if_true]
          rw [Contained, tracked_le_iff h hhanded, Conforming, hhanded, htakes]
          simp only [Option.some.injEq, forall_eq', forall_const]
  | emit => exact iff_of_true (contained_of_not_handed h rfl) trivial
  | stop => exact iff_of_true (contained_of_not_handed h rfl) trivial
  | subscribe kind => exact iff_of_true (contained_of_not_handed h rfl) trivial
  | unsubscribe kind queue => exact iff_of_true (contained_of_not_handed h rfl) trivial
  | receive kind queue => exact iff_of_true (contained_of_not_handed h rfl) trivial

/-- The guardrails stay on with their limits, whatever happens. -/
theorem step_guardrails_cfg {cases : CaseMap} {s : AppState D F}
    (h : ∃ g : Guardrails F, s.guardrails = some g ∧ g.cfg = {}) (event : Event F) :
    ∃ g : Guardrails F, (s.step cases event).2.guardrails = some g ∧ g.cfg = {} := by
  obtain ⟨g, hsome, hcfg⟩ := h
  have hguardrails := step_guardrails cases s event
  cases event with
  | post req =>
      rcases accept_guarded cases hsome req with
        ⟨_, _, hsame⟩ | ⟨_, g', _, hnext, hverdict, _⟩
      · exact ⟨g, hguardrails.trans hsame, hcfg⟩
      · exact ⟨g', hguardrails.trans hnext, hverdict.cfg_eq.trans hcfg⟩
  | sourced trade recordedAt latencyUs => exact ⟨g, hguardrails.trans hsome, hcfg⟩
  | emit => exact ⟨g, hguardrails.trans hsome, hcfg⟩
  | stop => exact ⟨g, hguardrails.trans hsome, hcfg⟩
  | subscribe kind => exact ⟨g, hguardrails.trans hsome, hcfg⟩
  | unsubscribe kind queue => exact ⟨g, hguardrails.trans hsome, hcfg⟩
  | receive kind queue => exact ⟨g, hguardrails.trans hsome, hcfg⟩

/-- Nothing reaches the engine past the guardrails in a run exactly when every
event of it conforms. -/
theorem contained_run_iff {M : Type} (cases : CaseMap) (sklearn : SkLearn F M)
    (settings : Settings) (cfg : DetectionConfig F) (startTime : ℚ)
    (henabled : settings.guardrailsEnabled) (events : List (Event F)) :
    Along (step cases) (Contained cases) (boot sklearn settings cfg startTime) events ↔
      Along (step cases) (Conforming cases) (boot sklearn settings cfg startTime) events := by
  have hboot := boot_registered sklearn settings cfg startTime henabled
  have hfresh : (boot sklearn settings cfg startTime).tracked = [] := by
    rw [tracked, boot, (startSource_frame _).1]
    rfl
  have hcapped : Capped (boot sklearn settings cfg startTime) := by
    refine ⟨⟨_, hboot.guardrails_eq, hboot.cfg_eq⟩, ?_⟩
    rw [hfresh]
    simp
  exact along_congr (step cases) (P := Capped)
    (fun _ event h => contained_iff_conforming h event)
    (fun _ event h hcontained => ⟨step_guardrails_cfg h.guardrails event, hcontained.2⟩)
    hcapped events

/-- A Kafka message within bounds stays within the guardrails. -/
theorem contained_run_kafka_trade :
    Along (step .asciiOnly) (Contained .asciiOnly)
      (boot SkLearn.missing { source := .kafka } ({} : DetectionConfig ℚ) 0)
      [.sourced (selfTradeAt "a" 0) 0 50] := by
  apply (contained_run_iff .asciiOnly SkLearn.missing { source := .kafka } {} 0 rfl _).mpr
  refine along_cons _ ?_ (along_nil _ _ _)
  intro _
  exact ⟨by decide +kernel, Or.inr (by decide)⟩

/-- A trade of one unit at two billion. -/
def hugeTrade : Trade ℚ :=
  { selfTradeAt "huge" 0 with
    price := 2000000000
    price_pos := by decide +kernel }

/-- A Kafka message with a price above the bound reaches the engine. -/
theorem pipeline_trade_not_contained :
    ({ source := .kafka } : Settings).guardrailsEnabled = true ∧
      ¬ Along (step .asciiOnly) (Contained .asciiOnly)
        (boot SkLearn.missing { source := .kafka } ({} : DetectionConfig ℚ) 0)
        [.sourced hugeTrade 0 50] := by
  refine ⟨rfl, ?_⟩
  intro h
  obtain ⟨hbounds, _⟩ := h [] _ [] rfl
  have hwithin := hbounds hugeTrade rfl
  exact absurd hwithin (by decide +kernel)

end Pipeline

end AppState

end TradeWatch
