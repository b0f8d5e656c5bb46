import TradeWatch.Api.Admission
import TradeWatch.Lib.Transducer

/-!
What the audit trail says of the requests. Every response that the program gives on
its own account leaves one record, which tells the response; a body that does not
validate and an engine that raises leave none.
-/

namespace TradeWatch

open PyFloat Transducer

variable {D F : Type} [PyFloat F]

/-- The response leaves a record. -/
def Response.audited : Response F → Bool
  | .ok _ _ _ => true
  | .unauthorized => true
  | .rateLimited => true
  | .guardrail _ => true
  | .unprocessable => false
  | .serverError => false

/-- What a record says of a request and its response. The symbol is the normalised
one, and the code the guardrail's. -/
inductive AuditRecord.Tells (req : Request F) : Response F → AuditRecord → Prop
  | ingested (tradeId symbol : String) (alerts : List (Alert F)) :
      Tells req (.ok tradeId alerts (!alerts.isEmpty))
        ⟨"trade_ingested", "ok",
          [("trade_id", .text tradeId), ("symbol", .text symbol),
            ("anomalous", .flag (!alerts.isEmpty)), ("alerts", .number alerts.length),
            ("client", .text req.client)]⟩
  | unauthorized :
      Tells req .unauthorized
        ⟨"auth_failure", "denied", [("client", .text req.client), ("path", .text req.path)]⟩
  | rateLimited :
      Tells req .rateLimited ⟨"rate_limited", "denied", [("client", .text req.client)]⟩
  | rejected (reason symbol code : String) :
      Tells req (.guardrail reason)
        ⟨"trade_rejected", "rejected",
          [("client", .text req.client), ("symbol", .text symbol), ("reason", .text reason),
            ("code", .text code)]⟩

theorem AuditRecord.Tells.audited {req : Request F} {response : Response F} {record : AuditRecord}
    (h : record.Tells req response) : response.audited = true := by
  cases h <;> rfl

namespace AppState

/-- The trail around one response: a record more that tells it, or no record. -/
inductive Audits (req : Request F) (before : AuditLogger) : Response F → AuditLogger → Prop
  | told {response : Response F} {record : AuditRecord} (h : record.Tells req response) :
      Audits req before response ⟨before.records ++ [record]⟩
  | silent {response : Response F} (h : response.audited = false) :
      Audits req before response before

/-- The trail around a request that is turned down, or is let through. -/
def Screened (req : Request F) (before : AuditLogger) :
    Except (Response F) (Trade F) → AuditLogger → Prop
  | .error response, after => Audits req before response after
  | .ok _, after => after = before

theorem screen_screened (s : AppState D F) (req : Request F) (trade : Trade F) :
    Screened req s.audit (s.screen req trade).1 (s.screen req trade).2.audit := by
  unfold screen
  rcases s.rateLimiter.allow req.client req.arrivedAt with ⟨_ | _, rateLimiter⟩
  · exact .told .rateLimited
  · rcases s.guardrails with _ | g
    · rfl
    · rcases hcheck : g.check trade with ⟨_ | ⟨reason, code⟩, g'⟩
      · simp only [Bool.not_true, Bool.false_eq_true, if_false, hcheck]
        rfl
      · simp only [Bool.not_true, Bool.false_eq_true, if_false, hcheck]
        exact .told (.rejected reason trade.symbol code)

theorem accept_screened (cases : CaseMap) (s : AppState D F) (req : Request F) :
    Screened req s.audit (s.accept cases req).1 (s.accept cases req).2.audit := by
  unfold accept requireApiKey
  split_ifs with hoff hkey
  · rcases Trade.modelValidate cases req.newId req.utcnow req.payload with _ | trade
    · exact .silent rfl
    · exact screen_screened _ req trade
  · exact .told .unauthorized
  · rcases Trade.modelValidate cases req.newId req.utcnow req.payload with _ | trade
    · exact .silent rfl
    · exact screen_screened _ req trade

variable [Detector D F]

theorem ingest_audits (s : AppState D F) (req : Request F) (trade : Trade F) :
    Audits req s.audit (s.ingest req trade).1 (s.ingest req trade).2.audit := by
  dsimp only [ingest]
  rcases s.engine.process trade with ⟨_ | raised, engine⟩
  · exact .silent rfl
  · exact .told (.ingested trade.tradeId trade.symbol raised)

theorem post_audits (cases : CaseMap) (s : AppState D F) (req : Request F) :
    Audits req s.audit (s.post cases req).1 (s.post cases req).2.audit := by
  have hscreened := accept_screened cases s req
  unfold post
  rcases haccept : s.accept cases req with ⟨response | trade, s'⟩ <;> rw [haccept] at hscreened
  · exact hscreened
  · have hsame : s'.audit = s.audit := hscreened
    rw [← hsame]
    exact ingest_audits s' req trade

/-- Only a request is audited. -/
theorem step_audit (cases : CaseMap) (s : AppState D F) {event : Event F}
    (h : (s.step cases event).1 = none) : (s.step cases event).2.audit = s.audit := by
  cases event with
  | post req => cases h
  | sourced trade recordedAt latencyUs =>
      dsimp only [step]
      split_ifs
      · dsimp only [handleTrade]
        rcases s.engine.process trade with ⟨_ | alerts, engine⟩ <;> rfl
      · rfl
  | emit =>
      dsimp only [step, emit]
      split <;> rfl
  | stop => rfl
  | subscribe kind => rfl
  | unsubscribe kind queue => rfl
  | receive kind queue => rfl

/-- The requests of a log, each with its response, in order. -/
def answered (log : List (Event F × Option (Response F))) : List (Request F × Response F) :=
  log.filterMap fun entry =>
    match entry with
    | (.post req, some response) => some (req, response)
    | _ => none

/-- What the trail is to hold after a log: a record for each audited response. -/
def Accounted (log : List (Event F × Option (Response F))) (audit : AuditLogger) : Prop :=
  List.Forall₂ (fun answer record => record.Tells answer.1 answer.2)
    ((answered log).filter (fun answer => answer.2.audited)) audit.records

theorem Accounted.step {log : List (Event F × Option (Response F))} {s : AppState D F}
    (h : Accounted log s.audit) (cases : CaseMap) (event : Event F) :
    Accounted (log ++ [(event, (s.step cases event).1)]) (s.step cases event).2.audit := by
  unfold Accounted answered at h ⊢
  rw [List.filterMap_append, List.filter_append]
  rcases hresponse : (s.step cases event).1 with _ | response
  · rw [step_audit cases s hresponse]
    cases event <;> simpa using h
  · cases event with
    | post req =>
        have hpost := post_audits cases s req
        have heq : (s.post cases req).1 = response := Option.some.inj hresponse
        rw [heq] at hpost
        change List.Forall₂ _ _ (s.post cases req).2.audit.records
        generalize (s.post cases req).2.audit = after at hpost ⊢
        cases hpost with
        | told htells =>
            have hone : List.Forall₂
                (fun (answer : Request F × Response F) (record : AuditRecord) =>
                  record.Tells answer.1 answer.2) [(req, response)] [_] := .cons htells .nil
            simpa [htells.audited] using List.rel_append h hone
        | silent hsilent => simpa [hsilent] using h
    | sourced trade recordedAt latencyUs => cases hresponse
    | emit => cases hresponse
    | stop => cases hresponse
    | subscribe kind => cases hresponse
    | unsubscribe kind queue => cases hresponse
    | receive kind queue => cases hresponse

section Shipped

variable {M : Type} (cases : CaseMap) (sklearn : SkLearn F M) (settings : Settings)
  (cfg : DetectionConfig F) (startTime : ℚ)

/-- At every point of every run the trail lists the audited responses, in the order
they were given, each as a record that tells it; nothing else is in it, whatever the
pipeline and the clients of the feeds do in between. -/
theorem trail_accounts (events : List (Event F)) :
    let start := boot sklearn settings cfg startTime
    Accounted (trace (step cases) start events) (final (step cases) start events).audit := by
  have hstart : Accounted ([] : List (Event F × Option (Response F)))
      (boot sklearn settings cfg startTime).audit := by
    have hempty : (boot sklearn settings cfg startTime).audit = .empty := by
      unfold boot startSource
      split
      · rfl
      · split_ifs <;> rfl
    rw [hempty]
    exact .nil
  exact history (step cases) (P := fun log s => Accounted log s.audit) hstart
    (fun _ _ event h => h.step cases event) events

end Shipped

end AppState

end TradeWatch
