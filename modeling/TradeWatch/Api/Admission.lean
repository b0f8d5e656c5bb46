import TradeWatch.Api.App

/-!
What one event can do to the shared state. A request is refused, leaving one
audit record, or its trade is handed on; and the engine moves exactly by the
trades that are handed on, whichever path they come by.
-/

namespace TradeWatch

open PyFloat

variable {D F : Type} [PyFloat F]

namespace AppState

/-- Everything that `accept` can do. -/
inductive Admission (cases : CaseMap) (s : AppState D F) (req : Request F) :
    Except (Response F) (Trade F) → AppState D F → Prop
  | refused (response : Response F) (record : AuditRecord) (rateLimiter : RateLimiter)
      (haction : response.refusedAs = some record.action) :
      Admission cases s req (.error response)
        { s with rateLimiter := rateLimiter, audit := ⟨s.audit.records ++ [record]⟩ }
  | invalid : Admission cases s req (.error .unprocessable) s
  | unguarded (trade : Trade F) (rateLimiter : RateLimiter) (hnone : s.guardrails = none)
      (hvalid : Trade.modelValidate cases req.newId req.utcnow req.payload = some trade) :
      Admission cases s req (.ok trade) { s with rateLimiter := rateLimiter }
  | checked (trade : Trade F) (rateLimiter : RateLimiter) (g g' : Guardrails F)
      (hsome : s.guardrails = some g) (hverdict : g.Verdict trade .ok g')
      (hvalid : Trade.modelValidate cases req.newId req.utcnow req.payload = some trade) :
      Admission cases s req (.ok trade)
        { s with rateLimiter := rateLimiter, guardrails := some g' }

theorem screen_admission {cases : CaseMap} (s : AppState D F) {req : Request F} {trade : Trade F}
    (hvalid : Trade.modelValidate cases req.newId req.utcnow req.payload = some trade) :
    Admission cases s req (s.screen req trade).1 (s.screen req trade).2 := by
  obtain ⟨settings, engine, broadcaster, metrics, guardrails, audit, limiter, pipeline⟩ := s
  unfold screen
  rcases limiter.allow req.client req.arrivedAt with ⟨_ | _, rateLimiter⟩
  · exact .refused .rateLimited _ rateLimiter rfl
  · rcases guardrails with _ | g
    · exact .unguarded trade rateLimiter rfl hvalid
    · have hverdict := g.check_verdict trade
      rcases hcheck : g.check trade with ⟨_ | ⟨reason, code⟩, g'⟩
      · rw [hcheck] at hverdict
        simp only [Bool.not_true, hcheck]
        exact .checked trade rateLimiter g g' rfl hverdict hvalid
      · rw [hcheck] at hverdict
        obtain rfl : g' = g := hverdict.eq_of_rejected
        simp only [Bool.not_true, hcheck]
        exact .refused (.guardrail reason) _ rateLimiter rfl

theorem accept_admission (cases : CaseMap) (s : AppState D F) (req : Request F) :
    Admission cases s req (s.accept cases req).1 (s.accept cases req).2 := by
  rcases requireApiKey_cases s.settings.apiKey req.xApiKey req.client req.path s.audit with
    hpass | ⟨record, haction, hdenied⟩
  · simp only [accept, hpass, Bool.not_true, Bool.false_eq_true, if_false]
    rcases hvalid : Trade.modelValidate cases req.newId req.utcnow req.payload with _ | trade
    · exact .invalid
    · exact s.screen_admission hvalid
  · simp only [accept, hdenied, Bool.not_false, if_true]
    exact .refused .unauthorized record s.rateLimiter (congrArg some haction.symm)

/-- What a request cannot change before its trade is handed on. -/
structure Untouched (s s' : AppState D F) : Prop where
  engine : s'.engine = s.engine
  metrics : s'.metrics = s.metrics
  broadcaster : s'.broadcaster = s.broadcaster

theorem Admission.untouched {cases : CaseMap} {s s' : AppState D F} {req : Request F}
    {result : Except (Response F) (Trade F)} (h : Admission cases s req result s') :
    Untouched s s' := by
  cases h <;> exact ⟨rfl, rfl, rfl⟩

/-- With guardrails a request is turned down and leaves them alone, or its
trade has passed them. -/
theorem accept_guarded (cases : CaseMap) {s : AppState D F} {g : Guardrails F}
    (hsome : s.guardrails = some g) (req : Request F) :
    (∃ response, (s.accept cases req).1 = .error response ∧
        (s.accept cases req).2.guardrails = some g) ∨
      ∃ trade g', (s.accept cases req).1 = .ok trade ∧
        (s.accept cases req).2.guardrails = some g' ∧ g.Verdict trade .ok g' ∧
        Trade.modelValidate cases req.newId req.utcnow req.payload = some trade := by
  have hadmission := accept_admission cases s req
  generalize (s.accept cases req).1 = result at hadmission ⊢
  generalize (s.accept cases req).2 = s' at hadmission ⊢
  cases hadmission with
  | refused response record rateLimiter haction => exact Or.inl ⟨response, rfl, hsome⟩
  | invalid => exact Or.inl ⟨_, rfl, hsome⟩
  | unguarded trade rateLimiter hnone hvalid =>
      rw [hsome] at hnone
      cases hnone
  | checked trade rateLimiter g₀ g' hg₀ hverdict hvalid =>
      obtain rfl : g = g₀ := Option.some.inj (hsome.symm.trans hg₀)
      exact Or.inr ⟨trade, g', rfl, rfl, hverdict, hvalid⟩

theorem handed_of_error {cases : CaseMap} {s : AppState D F} {req : Request F}
    {response : Response F} (h : (s.accept cases req).1 = .error response) :
    s.handed cases (.post req) = none := by
  rw [handed, h]
  rfl

theorem handed_of_ok {cases : CaseMap} {s : AppState D F} {req : Request F} {trade : Trade F}
    (h : (s.accept cases req).1 = .ok trade) : s.handed cases (.post req) = some trade := by
  rw [handed, h]
  rfl

theorem emit_frame (s : AppState D F) :
    s.emit.engine = s.engine ∧ s.emit.guardrails = s.guardrails := by
  unfold emit
  split <;> exact ⟨rfl, rfl⟩

section Step

variable [Detector D F]

theorem ingest_frame (s : AppState D F) (req : Request F) (trade : Trade F) :
    (s.ingest req trade).2.engine = (s.engine.process trade).2 ∧
      (s.ingest req trade).2.guardrails = s.guardrails := by
  dsimp only [ingest]
  rcases hprocess : s.engine.process trade with ⟨_ | _, engine⟩ <;> exact ⟨rfl, rfl⟩

/-- A trade that was handed on is not refused any more. -/
theorem ingest_refusedAs (s : AppState D F) (req : Request F) (trade : Trade F) :
    (s.ingest req trade).1.refusedAs = none := by
  dsimp only [ingest]
  rcases hprocess : s.engine.process trade with ⟨_ | _, engine⟩ <;> rfl

theorem handleTrade_frame (s : AppState D F) (trade : Trade F) (recordedAt : ℚ)
    (latencyUs : F) :
    (s.handleTrade trade recordedAt latencyUs).engine = (s.engine.process trade).2 ∧
      (s.handleTrade trade recordedAt latencyUs).guardrails = s.guardrails := by
  dsimp only [handleTrade]
  rcases hprocess : s.engine.process trade with ⟨_ | _, engine⟩ <;> exact ⟨rfl, rfl⟩

theorem post_of_error {cases : CaseMap} {s : AppState D F} {req : Request F}
    {response : Response F} (h : (s.accept cases req).1 = .error response) :
    s.post cases req = (response, (s.accept cases req).2) := by
  unfold post
  rcases haccept : s.accept cases req with ⟨_ | trade, s'⟩
  · rw [haccept] at h
    rw [Except.error.inj h]
  · rw [haccept] at h
    cases h

theorem post_of_ok {cases : CaseMap} {s : AppState D F} {req : Request F} {trade : Trade F}
    (h : (s.accept cases req).1 = .ok trade) :
    s.post cases req = (s.accept cases req).2.ingest req trade := by
  unfold post
  rcases haccept : s.accept cases req with ⟨_ | other, s'⟩
  · rw [haccept] at h
    cases h
  · rw [haccept] at h
    rw [Except.ok.inj h]

/-- The engine moves by one call of `process` for a trade that is handed on,
and not otherwise. -/
theorem step_engine (cases : CaseMap) (s : AppState D F) (event : Event F) :
    (s.step cases event).2.engine =
      match s.handed cases event with
      | none => s.engine
      | some trade => (s.engine.process trade).2 := by
  cases event with
  | post req =>
      have hengine := (accept_admission cases s req).untouched.engine
      rcases haccept : (s.accept cases req).1 with response | trade
      · simp only [step, post_of_error haccept, handed_of_error haccept, hengine]
      · simp only [step, post_of_ok haccept, handed_of_ok haccept, hengine,
          (ingest_frame _ req trade).1]
  | sourced trade recordedAt latencyUs =>
      cases htakes : s.takesTrade with
      | false => simp only [step, handed, htakes, Bool.false_eq_true, if_false]
      | true =>
          simp only [step, handed, htakes, if_true,
            (s.handleTrade_frame trade recordedAt latencyUs).1]
  | emit => exact s.emit_frame.1
  | stop => rfl
  | subscribe kind => rfl
  | unsubscribe kind queue => rfl
  | receive kind queue => rfl

/-- Only a request moves the guardrails. -/
theorem step_guardrails (cases : CaseMap) (s : AppState D F) (event : Event F) :
    (s.step cases event).2.guardrails =
      match event with
      | .post req => (s.accept cases req).2.guardrails
      | _ => s.guardrails := by
  cases event with
  | post req =>
      rcases haccept : (s.accept cases req).1 with response | trade
      · simp only [step, post_of_error haccept]
      · simp only [step, post_of_ok haccept, (ingest_frame _ req trade).2]
  | sourced trade recordedAt latencyUs =>
      cases htakes : s.takesTrade with
      | false => simp only [step, htakes, Bool.false_eq_true, if_false]
      | true =>
          simp only [step, htakes, if_true, (s.handleTrade_frame trade recordedAt latencyUs).2]
  | emit => exact s.emit_frame.2
  | stop => rfl
  | subscribe kind => rfl
  | unsubscribe kind queue => rfl
  | receive kind queue => rfl

end Step

end AppState

end TradeWatch
