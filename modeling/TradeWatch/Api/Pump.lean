import TradeWatch.Broadcaster
import TradeWatch.Lib.Transducer

/-!
The WebSocket pumps. Every connected client is served by a `_pump` call of its
own; a call is at one of four await points, or has ended. The hub is the
broadcaster with all calls that were ever made. An event is a publication or
something that happens to one call: the await it is suspended at completes, or
is interrupted. What one call can do is said once, by `Pump.Move`.
-/

namespace TradeWatch

open Transducer

variable {F : Type} [PyFloat F]

/-- What an await of a pump can be interrupted by. -/
inductive Interruption
  | webSocketDisconnect
  | exception
  | cancelled
  deriving DecidableEq, Repr

/-- How a `_pump` call ends. -/
inductive PumpOutcome
  | returned
  | raised (cause : Interruption)
  deriving DecidableEq, Repr

/-- The await point of a `_pump` call. -/
inductive PumpPhase (F : Type) [PyFloat F]
  /-- `await ws.accept()`. -/
  | accepting
  /-- `await ws.send_json(...)` of a replayed alert, with those still to replay. -/
  | replaying (queue : ℕ) (item : Alert F) (rest : List (Alert F))
  /-- `await queue.get()`. -/
  | waiting (queue : ℕ)
  /-- `await ws.send_json(payload)`. -/
  | sending (queue : ℕ) (payload : Payload F)
  | ended (outcome : PumpOutcome)

namespace PumpPhase

/-- The phase after a replayed alert, or after the snapshot. -/
def replay (queue : ℕ) : List (Alert F) → PumpPhase F
  | [] => .waiting queue
  | item :: rest => .replaying queue item rest

/-- The queue that a running call has subscribed. -/
def queue? : PumpPhase F → Option ℕ
  | .accepting => none
  | .replaying queue _ _ => some queue
  | .waiting queue => some queue
  | .sending queue _ => some queue
  | .ended _ => none

/-- What a call has taken in hand and not sent yet. -/
def pending : PumpPhase F → List (Payload F)
  | .accepting => []
  | .replaying _ item rest => (item :: rest).map .alert
  | .waiting _ => []
  | .sending _ payload => [payload]
  | .ended _ => []

/-- Between the subscription and the `try` statement. -/
def isReplaying : PumpPhase F → Bool
  | .accepting => false
  | .replaying _ _ _ => true
  | .waiting _ => false
  | .sending _ _ => false
  | .ended _ => false

@[simp] theorem queue?_replay (queue : ℕ) (items : List (Alert F)) :
    (replay queue items).queue? = some queue := by
  cases items <;> rfl

@[simp] theorem pending_replay (queue : ℕ) (items : List (Alert F)) :
    (replay queue items).pending = items.map .alert := by
  cases items <;> rfl

theorem queue?_ne_none (phase : PumpPhase F) (h : phase.isReplaying = true) :
    phase.queue? ≠ none := by
  cases phase with
  | replaying queue item rest => exact Option.some_ne_none queue
  | _ => cases h

end PumpPhase

/-- A `_pump` call, with what it has sent so far. -/
structure Pump (F : Type) [PyFloat F] where
  kind : FeedKind
  phase : PumpPhase F
  sent : List (Payload F)

namespace Pump

/-- The await of a call completes, and it runs up to its next one. -/
def resume (pump : Pump F) (b : Broadcaster F) : Pump F × Broadcaster F :=
  match pump.phase with
  | .accepting =>
      let (queue, b) := b.subscribe pump.kind
      match pump.kind with
      | .alerts => ({ pump with phase := .replay queue (b.recentAlerts 50) }, b)
      | .trades => ({ pump with phase := .waiting queue }, b)
  | .replaying queue item rest =>
      ({ pump with phase := .replay queue rest, sent := pump.sent ++ [.alert item] }, b)
  | .waiting queue =>
      match b.receive pump.kind queue with
      | (some payload, b) => ({ pump with phase := .sending queue payload }, b)
      | (none, b) => (pump, b)
  | .sending queue payload =>
      ({ pump with phase := .waiting queue, sent := pump.sent ++ [payload] }, b)
  | .ended _ => (pump, b)

/-- How the `try` statement of a call ends when its loop is interrupted. -/
def caught : Interruption → PumpOutcome
  | .webSocketDisconnect => .returned
  | .exception => .returned
  | .cancelled => .raised .cancelled

/-- The await of a call is interrupted. The `try` statement only begins after
the replay. -/
def interrupt (pump : Pump F) (b : Broadcaster F) (cause : Interruption) :
    Pump F × Broadcaster F :=
  match pump.phase with
  | .accepting => ({ pump with phase := .ended (.raised cause) }, b)
  | .replaying _ _ _ => ({ pump with phase := .ended (.raised cause) }, b)
  | .waiting queue =>
      ({ pump with phase := .ended (caught cause) }, b.unsubscribe pump.kind queue)
  | .sending queue _ =>
      ({ pump with phase := .ended (caught cause) }, b.unsubscribe pump.kind queue)
  | .ended _ => (pump, b)

end Pump

structure Hub (F : Type) [PyFloat F] where
  broadcaster : Broadcaster F
  pumps : List (Pump F)

inductive HubEvent (F : Type) [PyFloat F]
  | publishAlert (alert : Alert F)
  | publishTrade (trade : Trade F)
  /-- A client connects: `_pump` is called. -/
  | connect (kind : FeedKind)
  | resume (i : ℕ)
  | interrupt (i : ℕ) (cause : Interruption)

namespace Hub

def init (history : ℕ) : Hub F := ⟨.init history, []⟩

/-- One call moves; the others do not notice. -/
def move (s : Hub F) (i : ℕ) (f : Pump F → Broadcaster F → Pump F × Broadcaster F) : Hub F :=
  match s.pumps[i]? with
  | none => s
  | some pump =>
      let (pump, b) := f pump s.broadcaster
      { broadcaster := b, pumps := s.pumps.set i pump }

/-- One event, with the alert that it publishes. -/
def step (s : Hub F) : HubEvent F → Option (Alert F) × Hub F
  | .publishAlert alert =>
      (some alert, { s with broadcaster := s.broadcaster.publishAlert alert })
  | .publishTrade trade => (none, { s with broadcaster := s.broadcaster.publishTrade trade })
  | .connect kind => (none, { s with pumps := s.pumps ++ [⟨kind, .accepting, []⟩] })
  | .resume i => (none, s.move i Pump.resume)
  | .interrupt i cause => (none, s.move i (fun pump b => pump.interrupt b cause))

end Hub

/-- Everything one call can do at an event of its own. -/
inductive Pump.Move (b : Broadcaster F) (pump : Pump F) : Pump F → Broadcaster F → Prop
  | idle : Move b pump pump b
  | refused (outcome : PumpOutcome) (hphase : pump.phase = .accepting) :
      Move b pump { pump with phase := .ended outcome } b
  | subscribed (items : List (Alert F)) (hphase : pump.phase = .accepting)
      (hitems : pump.kind = .alerts → items = b.recentAlerts 50) :
      Move b pump { pump with phase := .replay b.nextQueue items } (b.subscribe pump.kind).2
  | replayed (queue : ℕ) (item : Alert F) (rest : List (Alert F))
      (hphase : pump.phase = .replaying queue item rest) :
      Move b pump { pump with phase := .replay queue rest, sent := pump.sent ++ [.alert item] } b
  | taken (queue : ℕ) (payload : Payload F) (q rest : BoundedQueue (Payload F))
      (hphase : pump.phase = .waiting queue) (hq : (b.subs pump.kind).get? queue = some q)
      (hget : q.get = some (payload, rest)) :
      Move b pump { pump with phase := .sending queue payload }
        (b.withSubs pump.kind ((b.subs pump.kind).set queue rest))
  | sent (queue : ℕ) (payload : Payload F) (hphase : pump.phase = .sending queue payload) :
      Move b pump { pump with phase := .waiting queue, sent := pump.sent ++ [payload] } b
  | abandoned (queue : ℕ) (item : Alert F) (rest : List (Alert F)) (outcome : PumpOutcome)
      (hphase : pump.phase = .replaying queue item rest) :
      Move b pump { pump with phase := .ended outcome } b
  | closed (queue : ℕ) (outcome : PumpOutcome) (hqueue : pump.phase.queue? = some queue)
      (hloop : pump.phase.isReplaying = false) :
      Move b pump { pump with phase := .ended outcome } (b.unsubscribe pump.kind queue)

theorem Pump.resume_move (pump : Pump F) (b : Broadcaster F) :
    Pump.Move b pump (pump.resume b).1 (pump.resume b).2 := by
  obtain ⟨kind, phase, sent⟩ := pump
  cases phase with
  | accepting =>
      cases kind with
      | alerts => exact .subscribed (b.recentAlerts 50) rfl (fun _ => rfl)
      | trades => exact .subscribed [] rfl (fun h => by cases h)
  | replaying queue item rest => exact .replayed queue item rest rfl
  | waiting queue =>
      simp only [resume]
      rcases hreceive : b.receive kind queue with ⟨_ | payload, b'⟩
      · rw [b.receive_none hreceive]
        exact .idle
      · obtain ⟨q, rest, hq, hget, rfl⟩ := b.receive_some hreceive
        exact .taken queue payload q rest rfl hq hget
  | sending queue payload => exact .sent queue payload rfl
  | ended outcome => exact .idle

theorem Pump.interrupt_move (pump : Pump F) (b : Broadcaster F) (cause : Interruption) :
    Pump.Move b pump (pump.interrupt b cause).1 (pump.interrupt b cause).2 := by
  obtain ⟨kind, phase, sent⟩ := pump
  cases phase with
  | accepting => exact .refused _ rfl
  | replaying queue item rest => exact .abandoned queue item rest _ rfl
  | waiting queue => exact .closed queue _ rfl rfl
  | sending queue payload => exact .closed queue _ rfl rfl
  | ended outcome => exact .idle

/-- A replay that goes on keeps its queue. -/
theorem Pump.resume_queue? (pump : Pump F) (b : Broadcaster F)
    (h : pump.phase.isReplaying = true) : (pump.resume b).1.phase.queue? ≠ none := by
  obtain ⟨kind, phase, sent⟩ := pump
  cases phase with
  | replaying queue item rest => simp [resume]
  | _ => cases h

/-- An interrupted call holds no queue any more. -/
theorem Pump.interrupt_queue? (pump : Pump F) (b : Broadcaster F) (cause : Interruption) :
    (pump.interrupt b cause).1.phase.queue? = none := by
  obtain ⟨kind, phase, sent⟩ := pump
  cases phase <;> rfl

theorem Pump.interrupt_sent (pump : Pump F) (b : Broadcaster F) (cause : Interruption) :
    (pump.interrupt b cause).1.sent = pump.sent := by
  obtain ⟨kind, phase, sent⟩ := pump
  cases phase <;> rfl

/-- No call ever changes its kind. -/
theorem Pump.Move.kind_eq {b b' : Broadcaster F} {pump pump' : Pump F}
    (h : Pump.Move b pump pump' b') : pump'.kind = pump.kind := by
  cases h <;> rfl

namespace Hub

/-- The call `i` stands as `pump`. -/
abbrev At (s : Hub F) (i : ℕ) (pump : Pump F) : Prop := s.pumps[i]? = some pump

theorem at_set {s : Hub F} {i : ℕ} {pump : Pump F} (hat : s.At i pump) (b : Broadcaster F)
    (pump' : Pump F) (j : ℕ) (other : Pump F) :
    (Hub.mk b (s.pumps.set i pump')).At j other ↔
      (j = i ∧ other = pump') ∨ (j ≠ i ∧ s.At j other) := by
  have hlt : i < s.pumps.length := (List.getElem?_eq_some_iff.mp hat).1
  unfold At
  rw [List.getElem?_set]
  by_cases hj : i = j
  · subst hj
    simp [hlt, eq_comm]
  · simp [hj, Ne.symm hj]

end Hub

/-- What a move does to the subscriber sets and to the queue of the call. -/
inductive Pump.Ownership (b : Broadcaster F) (pump pump' : Pump F) (b' : Broadcaster F) : Prop
  | kept (hqueue : pump'.phase.queue? = pump.phase.queue?)
      (hkeys : ∀ kind queue, queue ∈ (b'.subs kind).keys ↔ queue ∈ (b.subs kind).keys)
  | dropped (hqueue : pump'.phase.queue? = none)
      (hcut : pump.phase.queue? = none ∨ pump.phase.isReplaying = true)
      (hkeys : ∀ kind queue, queue ∈ (b'.subs kind).keys ↔ queue ∈ (b.subs kind).keys)
  | opened (hbefore : pump.phase.queue? = none)
      (hqueue : pump'.phase.queue? = some b.nextQueue)
      (hkeys : ∀ kind queue, queue ∈ (b'.subs kind).keys ↔
        (kind = pump.kind ∧ queue = b.nextQueue) ∨ queue ∈ (b.subs kind).keys)
      (hnext : b'.nextQueue = b.nextQueue + 1)
  | released (held : ℕ) (hbefore : pump.phase.queue? = some held)
      (hloop : pump.phase.isReplaying = false) (hqueue : pump'.phase.queue? = none)
      (hkeys : ∀ kind queue, queue ∈ (b'.subs kind).keys ↔
        ¬ (kind = pump.kind ∧ queue = held) ∧ queue ∈ (b.subs kind).keys)

theorem subscribe_keys (b : Broadcaster F) (kind other : FeedKind) (queue : ℕ) :
    queue ∈ ((b.subscribe kind).2.subs other).keys ↔
      (other = kind ∧ queue = b.nextQueue) ∨ queue ∈ (b.subs other).keys := by
  rw [OrderedDict.mem_keys_iff, OrderedDict.mem_keys_iff, b.subscribe_get?]
  by_cases h : other = kind ∧ queue = b.nextQueue
  · simp [h]
  · rw [if_neg h]
    simp only [h, false_or]

theorem unsubscribe_keys (b : Broadcaster F) (kind other : FeedKind) (held queue : ℕ) :
    queue ∈ ((b.unsubscribe kind held).subs other).keys ↔
      ¬ (other = kind ∧ queue = held) ∧ queue ∈ (b.subs other).keys := by
  rw [OrderedDict.mem_keys_iff, OrderedDict.mem_keys_iff, b.unsubscribe_get?]
  by_cases h : other = kind ∧ queue = held
  · simp [h]
  · rw [if_neg h]
    simp only [h, not_false_eq_true, true_and]

theorem replace_keys (b : Broadcaster F) {kind : FeedKind} {held : ℕ}
    {q : BoundedQueue (Payload F)} (hq : (b.subs kind).get? held = some q)
    (rest : BoundedQueue (Payload F)) (other : FeedKind) (queue : ℕ) :
    queue ∈ ((b.withSubs kind ((b.subs kind).set held rest)).subs other).keys ↔
      queue ∈ (b.subs other).keys := by
  by_cases hkind : other = kind
  · subst hkind
    have hheld : held ∈ (b.subs other).keys := OrderedDict.mem_keys_iff.mpr ⟨q, hq⟩
    rw [b.subs_withSubs, OrderedDict.mem_keys_set]
    constructor
    · rintro (rfl | hmem)
      · exact hheld
      · exact hmem
    · exact Or.inr
  · rw [b.subs_withSubs_ne hkind]

theorem Pump.Move.ownership {b b' : Broadcaster F} {pump pump' : Pump F}
    (h : Pump.Move b pump pump' b') : Pump.Ownership b pump pump' b' := by
  cases h with
  | idle => exact .kept rfl (fun _ _ => Iff.rfl)
  | refused outcome hphase =>
      exact .dropped rfl (Or.inl (by rw [hphase]; rfl)) (fun _ _ => Iff.rfl)
  | subscribed items hphase hitems =>
      exact .opened (by rw [hphase]; rfl) (PumpPhase.queue?_replay _ _)
        (subscribe_keys b pump.kind) rfl
  | replayed queue item rest hphase =>
      exact .kept (by rw [hphase]; exact PumpPhase.queue?_replay _ _) (fun _ _ => Iff.rfl)
  | taken queue payload q rest hphase hq hget =>
      exact .kept (by rw [hphase]; rfl) (replace_keys b hq rest)
  | sent queue payload hphase => exact .kept (by rw [hphase]; rfl) (fun _ _ => Iff.rfl)
  | abandoned queue item rest outcome hphase =>
      exact .dropped rfl (Or.inr (by rw [hphase]; rfl)) (fun _ _ => Iff.rfl)
  | closed queue outcome hqueue hloop =>
      exact .released queue hqueue hloop rfl (unsubscribe_keys b pump.kind · queue)

theorem Pump.Move.nextQueue_le {b b' : Broadcaster F} {pump pump' : Pump F}
    (h : Pump.Move b pump pump' b') : b.nextQueue ≤ b'.nextQueue := by
  cases h with
  | subscribed items hphase hitems => exact Nat.le_succ _
  | taken queue payload q rest hphase hq hget => exact (b.nextQueue_withSubs _ _).ge
  | closed queue outcome hqueue hloop => exact (b.nextQueue_withSubs _ _).ge
  | _ => exact le_rfl

/-- No queue changes its size. -/
theorem Pump.Move.sized {b b' : Broadcaster F} {pump pump' : Pump F}
    (h : Pump.Move b pump pump' b')
    (hsized : ∀ kind queue q, (b.subs kind).get? queue = some q → q.maxsize = 1000) :
    ∀ kind queue q, (b'.subs kind).get? queue = some q → q.maxsize = 1000 := by
  cases h with
  | subscribed items hphase hitems =>
      intro kind queue q hq
      rw [b.subscribe_get?] at hq
      split at hq
      · rw [← Option.some.inj hq]
        rfl
      · exact hsized kind queue q hq
  | taken held payload q₀ rest hphase hq₀ hget =>
      intro kind queue q hq
      by_cases hkind : kind = pump.kind
      · subst hkind
        rw [b.subs_withSubs, OrderedDict.get?_set] at hq
        split at hq
        · rw [← Option.some.inj hq, (BoundedQueue.get_eq_some hget).2]
          exact hsized _ _ _ hq₀
        · exact hsized _ queue q hq
      · rw [b.subs_withSubs_ne hkind] at hq
        exact hsized kind queue q hq
  | closed held outcome hqueue hloop =>
      intro kind queue q hq
      rw [b.unsubscribe_get?] at hq
      split at hq
      · cases hq
      · exact hsized kind queue q hq
  | _ => exact hsized

end TradeWatch
