import TradeWatch.Lib.OrderedDict
import TradeWatch.Models

/-!
What guards the write path before a trade is looked at: the API key, the rate
limit of every client, and the audit trail in which both leave a record of a
refusal.
-/

namespace TradeWatch

/-- A value in an audit record. -/
inductive AuditValue
  | text (s : String)
  | flag (b : Bool)
  | number (n : ℕ)
  deriving DecidableEq, Repr

structure AuditRecord where
  action : String
  outcome : String
  fields : List (String × AuditValue)
  deriving DecidableEq, Repr

/-- The append-only audit trail. -/
structure AuditLogger where
  records : List AuditRecord

def AuditLogger.empty : AuditLogger := ⟨[]⟩

def AuditLogger.record (audit : AuditLogger) (action outcome : String)
    (fields : List (String × AuditValue)) : AuditLogger :=
  ⟨audit.records ++ [⟨action, outcome, fields⟩]⟩

/-- The dependency of `make_api_key_dependency`: whether it lets the request
pass. No key, or an empty one, turns authentication off. -/
def requireApiKey (expectedKey xApiKey : Option String) (client path : String)
    (audit : AuditLogger) : Bool × AuditLogger :=
  if !truthy expectedKey then (true, audit)
  else if xApiKey ≠ expectedKey then
    (false, audit.record "auth_failure" "denied"
      [("client", .text client), ("path", .text path)])
  else (true, audit)

/-- A request without the key leaves one record, any other none. -/
theorem requireApiKey_cases (expectedKey xApiKey : Option String) (client path : String)
    (audit : AuditLogger) :
    requireApiKey expectedKey xApiKey client path audit = (true, audit) ∨
      ∃ record, record.action = "auth_failure" ∧
        requireApiKey expectedKey xApiKey client path audit =
          (false, ⟨audit.records ++ [record]⟩) := by
  unfold requireApiKey
  split_ifs with hoff hkey
  · exact Or.inl rfl
  · exact Or.inr ⟨_, rfl, rfl⟩
  · exact Or.inl rfl

structure RateLimiter where
  perMinute : ℤ
  hits : OrderedDict String (List ℚ)

namespace RateLimiter

def init (perMinute : ℤ) : RateLimiter := ⟨perMinute, .empty⟩

def allow (limiter : RateLimiter) (key : String) (now : ℚ) : Bool × RateLimiter :=
  if limiter.perMinute ≤ 0 then (true, limiter)
  else
    let cutoff := now - 60
    let dq := ((limiter.hits.get? key).getD []).dropWhile (fun hit => hit < cutoff)
    if limiter.perMinute ≤ dq.length then
      (false, { limiter with hits := limiter.hits.set key dq })
    else (true, { limiter with hits := limiter.hits.set key (dq ++ [now]) })

theorem allow_perMinute (limiter : RateLimiter) (key : String) (now : ℚ) :
    (limiter.allow key now).2.perMinute = limiter.perMinute := by
  unfold allow
  split_ifs
  · rfl
  · dsimp only
    split_ifs <;> rfl

/-- The calls of one client leave the record of every other client alone. -/
theorem allow_hits_ne (limiter : RateLimiter) {key other : String} (h : other ≠ key) (now : ℚ) :
    (limiter.allow key now).2.hits.get? other = limiter.hits.get? other := by
  unfold allow
  split_ifs with hoff
  · rfl
  · dsimp only
    split_ifs
    · exact OrderedDict.get?_set_ne _ h _
    · exact OrderedDict.get?_set_ne _ h _

end RateLimiter

end TradeWatch
