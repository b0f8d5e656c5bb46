import TradeWatch.Api.Subscriptions

/-!
What a subscriber of the alert feed is sent. From its subscription on, what a
call has sent, what it has in hand and what its queue holds make up, in this
order, the replayed alerts followed by all alerts that found room in the queue.
-/

namespace TradeWatch

open Transducer Suffix

variable {F : Type} [PyFloat F]

namespace Hub

/-- The alerts that a run publishes, in order. -/
def published (start : Hub F) (events : List (HubEvent F)) : List (Alert F) :=
  (trace Hub.step start events).filterMap Prod.snd

/-- The alert that an event adds to a queue of the alert feed: what it
publishes, unless the queue already holds 1000 undelivered items. -/
def admits (s : Hub F) (queue : ℕ) (event : HubEvent F) : List (Alert F) :=
  if (s.broadcaster.undelivered .alerts queue).length < 1000 then (s.step event).1.toList
  else []

/-- The alerts that a run adds to a queue of the alert feed. -/
def admitted (queue : ℕ) : Hub F → List (HubEvent F) → List (Alert F)
  | _, [] => []
  | s, event :: rest => s.admits queue event ++ admitted queue (s.step event).2 rest

/-- How far a call of the alert feed has come with what it is to send. -/
inductive Fed (s : Hub F) (pump : Pump F) (queue : ℕ) (expected : List (Payload F)) : Prop
  | running (hqueue : pump.phase.queue? = some queue)
      (hall : pump.sent ++ pump.phase.pending ++ s.broadcaster.undelivered .alerts queue =
        expected)
  | ended (outcome : PumpOutcome) (hphase : pump.phase = .ended outcome)
      (hsent : pump.sent <+: expected)

theorem Fed.prefix {s : Hub F} {pump : Pump F} {queue : ℕ} {expected : List (Payload F)}
    (h : s.Fed pump queue expected) : pump.sent <+: expected := by
  cases h with
  | running hqueue hall =>
      rw [← hall, List.append_assoc]
      exact List.prefix_append _ _
  | ended outcome hphase hsent => exact hsent

end Hub

theorem Pump.Move.recent_eq {b b' : Broadcaster F} {pump pump' : Pump F}
    (h : Pump.Move b pump pump' b') : b'.recent = b.recent := by
  cases h with
  | subscribed items hphase hitems => exact b.subscribe_recent pump.kind
  | taken queue payload q rest hphase hq hget => exact b.recent_withSubs _ _
  | closed queue outcome hqueue hloop => exact b.recent_withSubs _ _
  | _ => rfl

/-- A call that has ended stays as it is. -/
theorem Pump.Move.of_ended {b b' : Broadcaster F} {pump pump' : Pump F} {outcome : PumpOutcome}
    (h : Pump.Move b pump pump' b') (hended : pump.phase = .ended outcome) : pump' = pump := by
  obtain ⟨kind, phase, sent⟩ := pump
  obtain rfl : phase = .ended outcome := hended
  cases h with
  | idle => rfl
  | refused _ hphase => cases hphase
  | subscribed _ hphase _ => cases hphase
  | replayed _ _ _ hphase => cases hphase
  | taken _ _ _ _ hphase _ _ => cases hphase
  | sent _ _ hphase => cases hphase
  | abandoned _ _ _ _ hphase => cases hphase
  | closed _ _ hqueue _ => cases hqueue

/-- A call touches no queue but its own. -/
theorem Pump.Move.undelivered_eq {b b' : Broadcaster F} {pump pump' : Pump F}
    (h : Pump.Move b pump pump' b') {kind : FeedKind} {queue : ℕ}
    (hother : pump.phase.queue? ≠ some queue) (hold : queue < b.nextQueue) :
    b'.undelivered kind queue = b.undelivered kind queue := by
  unfold Broadcaster.undelivered
  cases h with
  | subscribed items hphase hitems =>
      rw [b.subscribe_get?, if_neg]
      rintro ⟨_, rfl⟩
      exact lt_irrefl _ hold
  | taken mine payload q rest hphase hq hget =>
      have hne : queue ≠ mine := by
        rintro rfl
        exact hother (by rw [hphase]; rfl)
      by_cases hkind : kind = pump.kind
      · subst hkind
        rw [b.subs_withSubs, OrderedDict.get?_set_ne _ hne]
      · rw [b.subs_withSubs_ne hkind]
  | closed mine outcome hqueue hloop =>
      rw [b.unsubscribe_get?, if_neg]
      rintro ⟨_, rfl⟩
      exact hother hqueue
  | _ => rfl

namespace Hub

/-- A move of the call itself hands an item on, or ends the call. -/
theorem Fed.own {s : Hub F} {i : ℕ} {pump pump' : Pump F} {b : Broadcaster F} {queue : ℕ}
    {expected : List (Payload F)} (hkind : pump.kind = .alerts)
    (hmove : Pump.Move s.broadcaster pump pump' b) (hfed : s.Fed pump queue expected) :
    (Hub.mk b (s.pumps.set i pump')).Fed pump' queue expected := by
  have hprefix := hfed.prefix
  cases hfed with
  | ended outcome hphase hsent =>
      rw [hmove.of_ended hphase]
      exact .ended outcome hphase hsent
  | running hqueue hall =>
      cases hmove with
      | idle => exact .running hqueue hall
      | refused outcome hphase =>
          rw [hphase] at hqueue
          cases hqueue
      | subscribed items hphase hitems =>
          rw [hphase] at hqueue
          cases hqueue
      | replayed mine item rest hphase =>
          rw [hphase] at hqueue hall
          obtain rfl := Option.some.inj hqueue
          refine .running (PumpPhase.queue?_replay _ _) ?_
          rw [← hall, PumpPhase.pending_replay]
          simp [PumpPhase.pending]
      | taken mine payload q rest hphase hq hget =>
          rw [hphase] at hqueue hall
          obtain rfl := Option.some.inj hqueue
          obtain ⟨hitems, _⟩ := BoundedQueue.get_eq_some hget
          rw [hkind] at hq ⊢
          refine .running rfl ?_
          rw [← hall]
          simp [PumpPhase.pending, Broadcaster.undelivered, hq, hitems]
      | sent mine payload hphase =>
          rw [hphase] at hqueue hall
          obtain rfl := Option.some.inj hqueue
          refine .running rfl ?_
          rw [← hall]
          simp [PumpPhase.pending]
      | abandoned mine item rest outcome hphase => exact .ended outcome rfl hprefix
      | closed mine outcome hmine hloop => exact .ended outcome rfl hprefix

/-- A move of any call keeps every call of the alert feed fed. -/
theorem Fed.move {s : Hub F} (hs : s.Sound) {i j : ℕ} {pump mover mover' : Pump F}
    {b : Broadcaster F} {queue : ℕ} {expected : List (Payload F)} (hat : s.At i pump)
    (hkind : pump.kind = .alerts) (hmover : s.At j mover)
    (hmove : Pump.Move s.broadcaster mover mover' b) (hfed : s.Fed pump queue expected) :
    ∃ pump', (Hub.mk b (s.pumps.set j mover')).At i pump' ∧ pump'.kind = .alerts ∧
      (Hub.mk b (s.pumps.set j mover')).Fed pump' queue expected := by
  by_cases hij : i = j
  · subst hij
    obtain rfl := Option.some.inj (hat.symm.trans hmover)
    exact ⟨mover', (at_set hat b mover' i mover').mpr (Or.inl ⟨rfl, rfl⟩),
      hmove.kind_eq.trans hkind, hfed.own hkind hmove⟩
  · refine ⟨pump, (at_set hmover b mover' i pump).mpr (Or.inr ⟨hij, hat⟩), hkind, ?_⟩
    cases hfed with
    | ended outcome hphase hsent => exact .ended outcome hphase hsent
    | running hqueue hall =>
        refine .running hqueue ?_
        have hother : mover.phase.queue? ≠ some queue :=
          fun hsame => hij (hs.own i j pump mover queue hat hmover hqueue hsame)
        have hold := hs.fresh _ queue (hs.held i pump queue hat hqueue)
        exact (congrArg _ (hmove.undelivered_eq hother hold)).trans hall

/-- What publishing an alert adds to a subscribed queue. -/
theorem Sound.undelivered_publishAlert {s : Hub F} (hs : s.Sound) {queue : ℕ}
    (hmem : queue ∈ (s.broadcaster.subs .alerts).keys) (alert : Alert F) :
    (s.broadcaster.publishAlert alert).undelivered .alerts queue =
      s.broadcaster.undelivered .alerts queue ++
        (s.admits queue (.publishAlert alert)).map .alert := by
  obtain ⟨q, hq⟩ := OrderedDict.mem_keys_iff.mp hmem
  have hsize := hs.sized .alerts queue q hq
  simp only [admits, Broadcaster.undelivered, s.broadcaster.publishAlert_get?, hq,
    Option.map_some, Option.getD_some, q.items_offered, hsize, Hub.step]
  split
  · rfl
  · simp

theorem Fed.step {s : Hub F} (hs : s.Sound) {i : ℕ} {pump : Pump F} {queue : ℕ}
    {expected : List (Payload F)} (hat : s.At i pump) (hkind : pump.kind = .alerts)
    (hfed : s.Fed pump queue expected) (event : HubEvent F) :
    ∃ pump', (s.step event).2.At i pump' ∧ pump'.kind = .alerts ∧
      (s.step event).2.Fed pump' queue
        (expected ++ (s.admits queue event).map .alert) := by
  cases event with
  | publishAlert alert =>
      refine ⟨pump, hat, hkind, ?_⟩
      cases hfed with
      | ended outcome hphase hsent =>
          exact .ended outcome hphase (hsent.trans (List.prefix_append _ _))
      | running hqueue hall =>
          have hmem := hs.held i pump queue hat hqueue
          rw [hkind] at hmem
          refine .running hqueue ?_
          simp only [Hub.step, hs.undelivered_publishAlert hmem, ← hall, List.append_assoc]
  | publishTrade trade =>
      refine ⟨pump, hat, hkind, ?_⟩
      have hnone : s.admits queue (.publishTrade trade) = [] := ite_self _
      rw [hnone, List.map_nil, List.append_nil]
      cases hfed with
      | ended outcome hphase hsent => exact .ended outcome hphase hsent
      | running hqueue hall => exact .running hqueue hall
  | connect kind =>
      have hlt := (List.getElem?_eq_some_iff.mp hat).1
      refine ⟨pump, (List.getElem?_append_left hlt).trans hat, hkind, ?_⟩
      have hnone : s.admits queue (.connect kind) = [] := ite_self _
      rw [hnone, List.map_nil, List.append_nil]
      cases hfed with
      | ended outcome hphase hsent => exact .ended outcome hphase hsent
      | running hqueue hall => exact .running hqueue hall
  | resume j =>
      have hnone : s.admits queue (.resume j) = [] := ite_self _
      rw [hnone, List.map_nil, List.append_nil]
      apply move_rule
        (P := fun s' => ∃ pump', s'.At i pump' ∧ pump'.kind = .alerts ∧ s'.Fed pump' queue expected)
      · exact fun _ => ⟨pump, hat, hkind, hfed⟩
      · exact fun mover hmover =>
          hfed.move hs hat hkind hmover (mover.resume_move s.broadcaster)
  | interrupt j cause =>
      have hnone : s.admits queue (.interrupt j cause) = [] := ite_self _
      rw [hnone, List.map_nil, List.append_nil]
      apply move_rule (f := fun pump b => pump.interrupt b cause)
        (P := fun s' => ∃ pump', s'.At i pump' ∧ pump'.kind = .alerts ∧ s'.Fed pump' queue expected)
      · exact fun _ => ⟨pump, hat, hkind, hfed⟩
      · exact fun mover hmover =>
          hfed.move hs hat hkind hmover (mover.interrupt_move s.broadcaster cause)

theorem Fed.run {s : Hub F} (hs : s.Sound) {i : ℕ} {pump : Pump F} {queue : ℕ}
    {expected : List (Payload F)} (hat : s.At i pump) (hkind : pump.kind = .alerts)
    (hfed : s.Fed pump queue expected) (events : List (HubEvent F)) :
    ∃ pump', (final Hub.step s events).At i pump' ∧
      (final Hub.step s events).Fed pump' queue
        (expected ++ (admitted queue s events).map .alert) := by
  induction events generalizing s pump expected with
  | nil => exact ⟨pump, hat, by simpa [admitted] using hfed⟩
  | cons event rest ih =>
      obtain ⟨pump', hat', hkind', hfed'⟩ := hfed.step hs hat hkind event
      obtain ⟨last, hlast, hall⟩ := ih (hs.step event) hat' hkind' hfed'
      refine ⟨last, hlast, ?_⟩
      simpa [admitted, List.append_assoc] using hall

/-- Only a published alert is remembered. -/
theorem step_recent (s : Hub F) (event : HubEvent F) :
    (s.step event).2.broadcaster.recent =
      match (s.step event).1 with
      | none => s.broadcaster.recent
      | some alert => s.broadcaster.recent.append (.alert alert) := by
  cases event with
  | publishAlert alert => rfl
  | publishTrade trade => rfl
  | connect kind => rfl
  | resume i =>
      exact move_rule (P := fun s' => s'.broadcaster.recent = s.broadcaster.recent)
        (fun _ => rfl) (fun pump _ => (pump.resume_move s.broadcaster).recent_eq)
  | interrupt i cause =>
      exact move_rule (f := fun pump b => pump.interrupt b cause)
        (P := fun s' => s'.broadcaster.recent = s.broadcaster.recent)
        (fun _ => rfl) (fun pump _ => (pump.interrupt_move s.broadcaster cause).recent_eq)

/-- The history keeps the most recent alerts. -/
theorem final_recent (history : ℕ) (events : List (HubEvent F)) :
    let recent := (final Hub.step (init history) events).broadcaster.recent
    recent.maxlen = history ∧
      recent.Keeps ((published (init history : Hub F) events).map Payload.alert) := by
  refine Transducer.history Hub.step
    (P := fun log s => s.broadcaster.recent.maxlen = history ∧
      s.broadcaster.recent.Keeps ((log.filterMap Prod.snd).map Payload.alert))
    ⟨rfl, BoundedDeque.keeps_empty history⟩ ?_ events
  rintro log s event ⟨hmax, hkeeps⟩
  rw [step_recent, List.filterMap_append, List.map_append]
  cases (s.step event).1 with
  | none => simpa using ⟨hmax, hkeeps⟩
  | some alert => exact ⟨hmax, hkeeps.append (.alert alert)⟩

/-- What a replay sends: the most recent alerts, at most fifty. -/
theorem final_recentAlerts (history : ℕ) (events : List (HubEvent F)) :
    (final Hub.step (init history) events).broadcaster.recentAlerts 50 =
      (published (init history) events).rtake
        (min 50 (min history (published (init history : Hub F) events).length)) := by
  obtain ⟨hmax, hkeeps⟩ := final_recent (F := F) history events
  have hfifty : Int.toNat 50 = 50 := rfl
  unfold Broadcaster.recentAlerts sliceFromEnd
  rw [if_pos (by norm_num), hkeeps, hmax, hfifty, rtake_map, rtake_map,
    Broadcaster.filterMap_alert, rtake_rtake, ← min_assoc, rtake_min_length]

/-- Where a call after an event comes from: it is a new one, or it was there
before the event and the event was none of its own or is one of these two. -/
def CameFrom (s : Hub F) (event : HubEvent F) (j : ℕ) (pump' : Pump F) : Prop :=
  (∃ kind, pump' = ⟨kind, .accepting, []⟩) ∨
    ∃ pump, s.At j pump ∧
      (pump' = pump ∨ (event = .resume j ∧ pump' = (pump.resume s.broadcaster).1) ∨
        ∃ cause, event = .interrupt j cause ∧
          pump' = (pump.interrupt s.broadcaster cause).1)

theorem cameFrom_old {s : Hub F} {j : ℕ} {pump : Pump F} (h : s.At j pump)
    (event : HubEvent F) : s.CameFrom event j pump :=
  Or.inr ⟨pump, h, Or.inl rfl⟩

theorem step_cameFrom {s : Hub F} {event : HubEvent F} {j : ℕ} {pump' : Pump F}
    (h : (s.step event).2.At j pump') : s.CameFrom event j pump' := by
  cases event with
  | publishAlert alert => exact cameFrom_old (s := s) h _
  | publishTrade trade => exact cameFrom_old (s := s) h _
  | connect kind =>
      rcases at_connect h with hold | hnew
      · exact cameFrom_old hold _
      · exact Or.inl ⟨kind, hnew⟩
  | resume i =>
      refine move_rule (f := Pump.resume)
        (P := fun s' => s'.At j pump' → s.CameFrom (.resume i) j pump') ?_ ?_ h
      · exact fun _ hold => cameFrom_old hold _
      · intro mover hmover hnew
        rcases (at_set hmover _ _ j pump').mp hnew with ⟨rfl, hpump⟩ | ⟨_, hold⟩
        · exact Or.inr ⟨mover, hmover, Or.inr (Or.inl ⟨rfl, hpump⟩)⟩
        · exact cameFrom_old hold _
  | interrupt i cause =>
      refine move_rule (f := fun pump b => pump.interrupt b cause)
        (P := fun s' => s'.At j pump' → s.CameFrom (.interrupt i cause) j pump') ?_ ?_ h
      · exact fun _ hold => cameFrom_old hold _
      · intro mover hmover hnew
        rcases (at_set hmover _ _ j pump').mp hnew with ⟨rfl, hpump⟩ | ⟨_, hold⟩
        · exact Or.inr ⟨mover, hmover, Or.inr (Or.inr ⟨cause, rfl, hpump⟩)⟩
        · exact cameFrom_old hold _

/-- What the call `i` is to send that accepts its client and subscribes between
`before` and `after`: the replayed alerts, then what its queue has room for. -/
def toSend (history : ℕ) (before : List (HubEvent F)) (i : ℕ) (after : List (HubEvent F)) :
    List (Payload F) :=
  let earlier := published (init history) before
  let s := final Hub.step (init history) before
  (earlier.rtake (min 50 (min history earlier.length)) ++
    admitted s.broadcaster.nextQueue (s.step (.resume i)).2 after).map .alert

/-- The event `resume i` between `before` and `after` is the subscription of
the call `i` to the alert feed. -/
def Subscribes (history : ℕ) (events before : List (HubEvent F)) (i : ℕ)
    (after : List (HubEvent F)) : Prop :=
  events = before ++ .resume i :: after ∧
    (final Hub.step (init history) before).At i ⟨.alerts, .accepting, []⟩

/-- From its subscription on a call is fed. -/
theorem Subscribes.fed {history : ℕ} {events before : List (HubEvent F)} {i : ℕ}
    {after : List (HubEvent F)} (h : Subscribes history events before i after) :
    ∃ pump, (final Hub.step (init history) events).At i pump ∧
      (final Hub.step (init history) events).Fed pump
        (final Hub.step (init history) before).broadcaster.nextQueue
        (toSend history before i after) := by
  obtain ⟨rfl, hat⟩ := h
  have hrecent := final_recentAlerts (F := F) history before
  have hs := final_sound (F := F) history before
  unfold toSend
  generalize hstate : final Hub.step (init history) before = s at hat hrecent hs ⊢
  -- The call right after the subscription, before anything was replayed.
  let opened : Pump F :=
    ⟨.alerts, .replay s.broadcaster.nextQueue (s.broadcaster.recentAlerts 50), []⟩
  have hstep : (s.step (.resume i)).2 =
      ⟨(s.broadcaster.subscribe .alerts).2, s.pumps.set i opened⟩ := by
    have hi : s.pumps[i]? = some ⟨.alerts, .accepting, []⟩ := hat
    simp only [Hub.step, move, hi]
    rfl
  have hopened : (s.step (.resume i)).2.At i opened := by
    rw [hstep]
    exact (at_set hat _ opened i opened).mpr (Or.inl ⟨rfl, rfl⟩)
  have hfed : (s.step (.resume i)).2.Fed opened s.broadcaster.nextQueue
      ((s.broadcaster.recentAlerts 50).map .alert) := by
    refine .running (PumpPhase.queue?_replay _ _) ?_
    have hempty : (s.step (.resume i)).2.broadcaster.undelivered .alerts
        s.broadcaster.nextQueue = [] := by
      rw [hstep]
      simp [Broadcaster.undelivered, s.broadcaster.subscribe_get?, BoundedQueue.empty]
    rw [hempty, PumpPhase.pending_replay, List.nil_append, List.append_nil]
  obtain ⟨pump, hpump, hall⟩ := hfed.run (hs.step (.resume i)) hopened rfl after
  rw [final_append, hstate, final_cons]
  refine ⟨pump, hpump, ?_⟩
  rwa [List.map_append, ← hrecent]

/-- Every call of the alert feed, at every point of every run: it has sent
nothing, or it has subscribed and has sent the first of what it is to send
from then on, in order and each once. -/
theorem alerts_exactly_once (history : ℕ) (events : List (HubEvent F)) (i : ℕ) (pump : Pump F)
    (hat : (final Hub.step (init history) events).At i pump) (hkind : pump.kind = .alerts) :
    pump.sent = [] ∨
      ∃ before after, Subscribes history events before i after ∧
        pump.sent <+: toSend history before i after := by
  -- A call that holds no queue and has sent nothing may still subscribe.
  have hinv : (pump.phase.queue? = none ∧ pump.sent = []) ∨
      ∃ before after, Subscribes history events before i after := by
    induction events using List.reverseRecOn generalizing pump with
    | nil => cases hat
    | append_singleton rest event ih =>
        rw [final_append, final_cons, final_nil] at hat
        have hlater : (∃ before after, Subscribes history rest before i after) →
            ∃ before after, Subscribes history (rest ++ [event]) before i after := by
          rintro ⟨before, after, rfl, hopen⟩
          exact ⟨before, after ++ [event], by simp, hopen⟩
        rcases step_cameFrom hat with
          ⟨kind, rfl⟩ | ⟨old, hold, rfl | ⟨rfl, rfl⟩ | ⟨cause, rfl, rfl⟩⟩
        · exact Or.inl ⟨rfl, rfl⟩
        · exact (ih pump hold hkind).imp_right hlater
        · have holdKind := (old.resume_move
            (final Hub.step (init history) rest).broadcaster).kind_eq.symm.trans hkind
          rcases ih old hold holdKind with ⟨hnone, hnothing⟩ | hsub
          · obtain ⟨kind, phase, sent⟩ := old
            obtain rfl : kind = .alerts := holdKind
            obtain rfl : sent = [] := hnothing
            cases phase with
            | accepting => exact Or.inr ⟨rest, [], rfl, hold⟩
            | ended outcome => exact Or.inl ⟨rfl, rfl⟩
            | _ => cases hnone
          · exact Or.inr (hlater hsub)
        · have holdKind := (old.interrupt_move
            (final Hub.step (init history) rest).broadcaster cause).kind_eq.symm.trans hkind
          refine (ih old hold holdKind).imp ?_ hlater
          rintro ⟨_, hnothing⟩
          exact ⟨old.interrupt_queue? _ cause, (old.interrupt_sent _ cause).trans hnothing⟩
  refine hinv.imp And.right ?_
  rintro ⟨before, after, hsub⟩
  obtain ⟨other, hother, hfed⟩ := hsub.fed
  obtain rfl := Option.some.inj (hat.symm.trans hother)
  exact ⟨before, after, hsub, hfed.prefix⟩

theorem alerts_exactly_once_replayed :
    let events : List (HubEvent ℚ) :=
      [.publishAlert selfTradeAlert, .connect .alerts, .resume 0, .resume 0]
    ∃ before after, Subscribes 500 events before 0 after ∧
      [Payload.alert selfTradeAlert] <+: toSend 500 before 0 after :=
  (alerts_exactly_once 500
    [.publishAlert selfTradeAlert, .connect .alerts, .resume 0, .resume 0] 0
    ⟨.alerts, .waiting 0, [.alert selfTradeAlert]⟩ rfl rfl).resolve_left (List.cons_ne_nil _ _)

end Hub

end TradeWatch
