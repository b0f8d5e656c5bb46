import TradeWatch.Lib.Bounded
import TradeWatch.Lib.OrderedDict
import TradeWatch.Models

/-!
The in-process hub between the engine and the connected clients: a bounded
history of recent alerts and one bounded queue for every subscriber. A queue
that is full misses what is published meanwhile.
-/

namespace TradeWatch

variable {F : Type} [PyFloat F]

/-- `{"type": ..., "data": ...}`. -/
inductive Payload (F : Type) [PyFloat F]
  | alert (data : Alert F)
  | trade (data : Trade F)
  deriving DecidableEq

inductive FeedKind
  | alerts
  | trades
  deriving DecidableEq, Repr

/-- The data of an alert's payload. -/
def Payload.alert? : Payload F → Option (Alert F)
  | .alert data => some data
  | .trade _ => none

/-- `items[-limit:]`, where `-0` is zero and so keeps everything. -/
def sliceFromEnd {α : Type} (items : List α) (limit : ℤ) : List α :=
  if 0 < limit then items.rtake limit.toNat else items.drop (-limit).toNat

/-- The queues of one kind of subscriber, by an identity of their own. -/
abbrev Subscribers (F : Type) [PyFloat F] := OrderedDict ℕ (BoundedQueue (Payload F))

structure Broadcaster (F : Type) [PyFloat F] where
  alertSubs : Subscribers F
  tradeSubs : Subscribers F
  recent : BoundedDeque (Payload F)
  /-- The identity of the next queue. -/
  nextQueue : ℕ

namespace Broadcaster

def init (history : ℕ) : Broadcaster F := ⟨.empty, .empty, .empty history, 0⟩

def subs (b : Broadcaster F) : FeedKind → Subscribers F
  | .alerts => b.alertSubs
  | .trades => b.tradeSubs

def withSubs (b : Broadcaster F) : FeedKind → Subscribers F → Broadcaster F
  | .alerts, subs => { b with alertSubs := subs }
  | .trades, subs => { b with tradeSubs := subs }

/-- `subscribe_alerts` and `subscribe_trades`. -/
def subscribe (b : Broadcaster F) (kind : FeedKind) : ℕ × Broadcaster F :=
  let b' := b.withSubs kind ((b.subs kind).set b.nextQueue (.empty 1000))
  (b.nextQueue, { b' with nextQueue := b.nextQueue + 1 })

/-- `unsubscribe_alerts` and `unsubscribe_trades`. -/
def unsubscribe (b : Broadcaster F) (kind : FeedKind) (queue : ℕ) : Broadcaster F :=
  b.withSubs kind ((b.subs kind).erase queue)

/-- What a subscriber takes off its queue. -/
def receive (b : Broadcaster F) (kind : FeedKind) (queue : ℕ) :
    Option (Payload F) × Broadcaster F :=
  match ((b.subs kind).get? queue).bind BoundedQueue.get with
  | none => (none, b)
  | some (payload, rest) => (some payload, b.withSubs kind ((b.subs kind).set queue rest))

/-- `_fan_out`: dropped for slow consumers rather than block the hot path. -/
def fanOut (subs : Subscribers F) (payload : Payload F) : Subscribers F :=
  subs.mapValues (fun q => (q.putNowait payload).getD q)

def publishAlert (b : Broadcaster F) (alert : Alert F) : Broadcaster F :=
  let payload := .alert alert
  { b with
    recent := b.recent.append payload
    alertSubs := fanOut b.alertSubs payload }

def publishTrade (b : Broadcaster F) (trade : Trade F) : Broadcaster F :=
  { b with tradeSubs := fanOut b.tradeSubs (.trade trade) }

def publishAlerts (b : Broadcaster F) (alerts : List (Alert F)) : Broadcaster F :=
  alerts.foldl publishAlert b

/-- The data of the most recent alerts, in publish order. Only alerts are ever
remembered. -/
def recentAlerts (b : Broadcaster F) (limit : ℤ := 100) : List (Alert F) :=
  (sliceFromEnd b.recent.items limit).filterMap Payload.alert?

/-- What a queue holds that its subscriber has not taken yet. -/
def undelivered (b : Broadcaster F) (kind : FeedKind) (queue : ℕ) : List (Payload F) :=
  (((b.subs kind).get? queue).map BoundedQueue.items).getD []

/-- The history holds the last alerts that were published. -/
theorem publishAlerts_keeps {b : Broadcaster F} {stream : List (Payload F)}
    (h : b.recent.Keeps stream) (alerts : List (Alert F)) :
    (b.publishAlerts alerts).recent.Keeps (stream ++ alerts.map .alert) := by
  induction alerts generalizing b stream with
  | nil => simpa [publishAlerts] using h
  | cons alert rest ih =>
      have hrest := @ih (b.publishAlert alert) _ (h.append (.alert alert))
      rwa [List.append_assoc] at hrest

/-- Publishing subscribes nobody and drops nobody. -/
theorem publishAlert_keys (b : Broadcaster F) (alert : Alert F) (kind : FeedKind) :
    ((b.publishAlert alert).subs kind).keys = (b.subs kind).keys := by
  cases kind with
  | alerts => simp only [publishAlert, subs, fanOut, OrderedDict.keys_mapValues]
  | trades => rfl

theorem publishTrade_keys (b : Broadcaster F) (trade : Trade F) (kind : FeedKind) :
    ((b.publishTrade trade).subs kind).keys = (b.subs kind).keys := by
  cases kind with
  | alerts => rfl
  | trades => simp only [publishTrade, subs, fanOut, OrderedDict.keys_mapValues]

@[simp] theorem subs_withSubs (b : Broadcaster F) (kind : FeedKind) (subs : Subscribers F) :
    (b.withSubs kind subs).subs kind = subs := by
  cases kind <;> rfl

theorem subs_withSubs_ne (b : Broadcaster F) {kind other : FeedKind} (h : other ≠ kind)
    (subs : Subscribers F) : (b.withSubs kind subs).subs other = b.subs other := by
  cases kind <;> cases other <;> first | rfl | exact absurd rfl h

@[simp] theorem nextQueue_withSubs (b : Broadcaster F) (kind : FeedKind)
    (subs : Subscribers F) : (b.withSubs kind subs).nextQueue = b.nextQueue := by
  cases kind <;> rfl

@[simp] theorem recent_withSubs (b : Broadcaster F) (kind : FeedKind)
    (subs : Subscribers F) : (b.withSubs kind subs).recent = b.recent := by
  cases kind <;> rfl

@[simp] theorem subscribe_nextQueue (b : Broadcaster F) (kind : FeedKind) :
    (b.subscribe kind).2.nextQueue = b.nextQueue + 1 := rfl

@[simp] theorem subscribe_recent (b : Broadcaster F) (kind : FeedKind) :
    (b.subscribe kind).2.recent = b.recent := by
  cases kind <;> rfl

/-- A new subscriber has an empty queue; nobody else's changes. -/
theorem subscribe_get? (b : Broadcaster F) (kind other : FeedKind) (queue : ℕ) :
    ((b.subscribe kind).2.subs other).get? queue =
      if other = kind ∧ queue = b.nextQueue then some (.empty 1000)
      else (b.subs other).get? queue := by
  have hsubs : (b.subscribe kind).2.subs other =
      (b.withSubs kind ((b.subs kind).set b.nextQueue (.empty 1000))).subs other := by
    cases other <;> rfl
  rw [hsubs]
  by_cases hkind : other = kind
  · subst hkind
    simp [OrderedDict.get?_set]
  · simp [subs_withSubs_ne b hkind, hkind]

theorem unsubscribe_get? (b : Broadcaster F) (kind other : FeedKind) (queue queue' : ℕ) :
    ((b.unsubscribe kind queue).subs other).get? queue' =
      if other = kind ∧ queue' = queue then none else (b.subs other).get? queue' := by
  unfold unsubscribe
  by_cases hkind : other = kind
  · subst hkind
    simp [OrderedDict.get?_erase]
  · simp [subs_withSubs_ne b hkind, hkind]

/-- Taking an item off a queue changes that queue alone. -/
theorem receive_some {b b' : Broadcaster F} {kind : FeedKind} {queue : ℕ}
    {payload : Payload F} (h : b.receive kind queue = (some payload, b')) :
    ∃ q rest, (b.subs kind).get? queue = some q ∧ q.get = some (payload, rest) ∧
      b' = b.withSubs kind ((b.subs kind).set queue rest) := by
  unfold receive at h
  split at h
  · cases h
  · rename_i taken rest hget
    obtain ⟨hpayload, rfl⟩ := Prod.mk.inj h
    obtain rfl := Option.some.inj hpayload
    obtain ⟨q, hq, hrest⟩ := Option.bind_eq_some_iff.mp hget
    exact ⟨q, rest, hq, hrest, rfl⟩

theorem receive_none {b b' : Broadcaster F} {kind : FeedKind} {queue : ℕ}
    (h : b.receive kind queue = (none, b')) : b' = b := by
  unfold receive at h
  split at h
  · exact (Prod.mk.inj h).2.symm
  · cases h

theorem receive_recent (b : Broadcaster F) (kind : FeedKind) (queue : ℕ) :
    (b.receive kind queue).2.recent = b.recent := by
  unfold receive
  split
  · rfl
  · exact b.recent_withSubs _ _

/-- What publishing does to a subscriber's queue: an item more, or none where
the queue is full. -/
theorem publishAlert_get? (b : Broadcaster F) (alert : Alert F) (queue : ℕ) :
    ((b.publishAlert alert).subs .alerts).get? queue =
      ((b.subs .alerts).get? queue).map (fun q => (q.putNowait (.alert alert)).getD q) := by
  simp only [publishAlert, subs, fanOut, OrderedDict.get?_mapValues]

theorem publishTrade_get? (b : Broadcaster F) (trade : Trade F) (queue : ℕ) :
    ((b.publishTrade trade).subs .trades).get? queue =
      ((b.subs .trades).get? queue).map (fun q => (q.putNowait (.trade trade)).getD q) := by
  simp only [publishTrade, subs, fanOut, OrderedDict.get?_mapValues]

section History

/-- The last `limit` of the alerts that the history can still hold. -/
def newest (history : ℕ) (published : List (Alert F)) (limit : ℤ) : List (Alert F) :=
  published.rtake (min (max limit 0) (min history published.length)).toNat

/-- Only alerts are remembered, so none is lost on the way out. -/
theorem filterMap_alert (alerts : List (Alert F)) :
    (alerts.map Payload.alert).filterMap Payload.alert? = alerts := by
  rw [List.filterMap_map]
  exact List.filterMap_some

theorem publishAlerts_maxlen (b : Broadcaster F) (alerts : List (Alert F)) :
    (b.publishAlerts alerts).recent.maxlen = b.recent.maxlen := by
  induction alerts generalizing b with
  | nil => rfl
  | cons alert rest ih => exact ih (b.publishAlert alert)

/-- What the slice is taken of: the alerts that the history still holds. -/
theorem recentAlerts_publishAlerts (history : ℕ) (published : List (Alert F)) (limit : ℤ) :
    ((init history).publishAlerts published).recentAlerts limit =
      sliceFromEnd (published.rtake history) limit := by
  have hkeeps :=
    publishAlerts_keeps (b := init history) (BoundedDeque.keeps_empty history) published
  have hitems : ((init history).publishAlerts published).recent.items =
      (published.rtake history).map Payload.alert := by
    rw [hkeeps, publishAlerts_maxlen, List.nil_append, Suffix.rtake_map]
    rfl
  unfold recentAlerts sliceFromEnd
  rw [hitems]
  split
  · rw [Suffix.rtake_map, filterMap_alert]
  · rw [← List.map_drop, filterMap_alert]

/-- A limit counts from the end only when it is positive. Zero and below it count
from the front, where nothing is left once the limit covers all that is held. -/
theorem recentAlerts_newest_iff (history : ℕ) (published : List (Alert F)) (limit : ℤ) :
    ((init history).publishAlerts published).recentAlerts limit =
        newest history published limit ↔
      0 < limit ∨ min history published.length ≤ -limit := by
  rw [recentAlerts_publishAlerts, sliceFromEnd, newest]
  rcases lt_or_ge 0 limit with hpos | hneg
  · have hcount : (min (max limit 0) (min history published.length : ℤ)).toNat =
        min (min limit.toNat history) published.length := by omega
    rw [if_pos hpos, hcount, Suffix.rtake_min_length, Suffix.rtake_rtake]
    simp [hpos]
  · have hnone : (min (max limit 0) (min history published.length : ℤ)).toNat = 0 := by omega
    rw [if_neg (not_lt.mpr hneg), hnone, List.rtake_zero, List.drop_eq_nil_iff,
      Suffix.length_rtake]
    constructor
    · intro hlength
      exact Or.inr (by omega)
    · rintro (hpos | hcovers)
      · exact absurd hpos (not_lt.mpr hneg)
      · omega

/-- A limit of zero asks for no alert and gets the one that was published. -/
theorem recentAlerts_zero :
    ((init 500).publishAlerts [selfTradeAlert]).recentAlerts 0 ≠ newest 500 [selfTradeAlert] 0 := by
  decide +kernel

end History

end Broadcaster

end TradeWatch
