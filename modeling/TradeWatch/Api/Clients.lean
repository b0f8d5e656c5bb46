import TradeWatch.Api.Delivery

/-!
A client on its own. What one `_pump` call sends depends on the publications and
on the awaits of this call; `Alone` is the machine of that one client, where
the queue of the call is no longer one of many. The hub shows every client the
run of that machine, so a slow, a stuck or a lost client costs nobody else an
item.
-/

namespace TradeWatch

open Transducer

variable {F : Type} [PyFloat F]

/-- The await point of a call, without the identity of its queue. -/
inductive Stage (F : Type) [PyFloat F]
  | accepting
  | replaying (item : Alert F) (rest : List (Alert F))
  | waiting
  | sending (payload : Payload F)
  | ended (outcome : PumpOutcome)

namespace Stage

def replay : List (Alert F) → Stage F
  | [] => .waiting
  | item :: rest => .replaying item rest

/-- The call has subscribed and has not ended. -/
def isSubscribed : Stage F → Bool
  | .accepting => false
  | .replaying _ _ => true
  | .waiting => true
  | .sending _ => true
  | .ended _ => false

end Stage

/-- One call with the content of its own queue. -/
structure Session (F : Type) [PyFloat F] where
  kind : FeedKind
  stage : Stage F
  inbox : List (Payload F)
  sent : List (Payload F)

namespace Session

/-- A publication reaches the clients of its kind that have room for it. -/
def offer (session : Session F) (kind : FeedKind) (payload : Payload F) : Session F :=
  if session.kind = kind ∧ session.stage.isSubscribed = true ∧ session.inbox.length < 1000 then
    { session with inbox := session.inbox ++ [payload] }
  else session

/-- The await of the call completes. -/
def resume (session : Session F) (recent : BoundedDeque (Payload F)) : Session F :=
  match session.stage with
  | .accepting =>
      match session.kind with
      | .alerts =>
          { session with
            stage := .replay ((sliceFromEnd recent.items 50).filterMap Payload.alert?) }
      | .trades => { session with stage := .waiting }
  | .replaying item rest =>
      { session with stage := .replay rest, sent := session.sent ++ [.alert item] }
  | .waiting =>
      match session.inbox with
      | [] => session
      | payload :: rest => { session with stage := .sending payload, inbox := rest }
  | .sending payload =>
      { session with stage := .waiting, sent := session.sent ++ [payload] }
  | .ended _ => session

/-- The await of the call is interrupted. -/
def interrupt (session : Session F) (cause : Interruption) : Session F :=
  match session.stage with
  | .accepting => { session with stage := .ended (.raised cause), inbox := [] }
  | .replaying _ _ => { session with stage := .ended (.raised cause), inbox := [] }
  | .waiting => { session with stage := .ended (Pump.caught cause), inbox := [] }
  | .sending _ => { session with stage := .ended (Pump.caught cause), inbox := [] }
  | .ended _ => session

end Session

/-- The history of alerts, how many clients have connected, and one of them. -/
structure Alone (F : Type) [PyFloat F] where
  recent : BoundedDeque (Payload F)
  calls : ℕ
  session : Option (Session F)

namespace Alone

/-- What an event means to the client `i`. -/
def step (i : ℕ) (s : Alone F) : HubEvent F → Alone F
  | .publishAlert alert =>
      { s with
        recent := s.recent.append (.alert alert)
        session := s.session.map (Session.offer · .alerts (.alert alert)) }
  | .publishTrade trade =>
      { s with session := s.session.map (Session.offer · .trades (.trade trade)) }
  | .connect kind =>
      { s with
        calls := s.calls + 1
        session := if s.calls = i then some ⟨kind, .accepting, [], []⟩ else s.session }
  | .resume j => if j = i then { s with session := s.session.map (·.resume s.recent) } else s
  | .interrupt j cause =>
      if j = i then { s with session := s.session.map (·.interrupt cause) } else s

end Alone

namespace PumpPhase

/-- The phase of a call, up to the identity of its queue. -/
def stage : PumpPhase F → Stage F
  | .accepting => .accepting
  | .replaying _ item rest => .replaying item rest
  | .waiting _ => .waiting
  | .sending _ payload => .sending payload
  | .ended outcome => .ended outcome

@[simp] theorem stage_replay (queue : ℕ) (items : List (Alert F)) :
    (replay queue items).stage = .replay items := by
  cases items <;> rfl

theorem isSubscribed_stage (phase : PumpPhase F) :
    phase.stage.isSubscribed = phase.queue?.isSome := by
  cases phase <;> rfl

end PumpPhase

namespace Broadcaster

/-- What the queue of a call holds; nothing where the call has none. -/
def inbox (b : Broadcaster F) (pump : Pump F) : List (Payload F) :=
  match pump.phase.queue? with
  | none => []
  | some queue => b.undelivered pump.kind queue

/-- A call of the hub as a client on its own. -/
def session (b : Broadcaster F) (pump : Pump F) : Session F :=
  ⟨pump.kind, pump.phase.stage, b.inbox pump, pump.sent⟩

end Broadcaster

namespace Hub

/-- What the hub shows the client `i`. -/
def alone (s : Hub F) (i : ℕ) : Alone F :=
  ⟨s.broadcaster.recent, s.pumps.length, s.pumps[i]?.map s.broadcaster.session⟩

section Publish

variable {s : Hub F} (hs : s.Sound) {i : ℕ} {pump : Pump F} (hat : s.At i pump)
include hs hat

/-- The queue of a running call is there, of its full size. -/
theorem Sound.queue_of {queue : ℕ} (hqueue : pump.phase.queue? = some queue) :
    ∃ q, (s.broadcaster.subs pump.kind).get? queue = some q ∧ q.maxsize = 1000 := by
  obtain ⟨q, hq⟩ := OrderedDict.mem_keys_iff.mp (hs.held i pump queue hat hqueue)
  exact ⟨q, hq, hs.sized pump.kind queue q hq⟩

theorem Sound.session_publishAlert (alert : Alert F) :
    (s.broadcaster.publishAlert alert).session pump =
      (s.broadcaster.session pump).offer .alerts (.alert alert) := by
  unfold Session.offer Broadcaster.session Broadcaster.inbox
  rw [pump.phase.isSubscribed_stage]
  cases hqueue : pump.phase.queue? with
  | none => simp
  | some queue =>
      obtain ⟨q, hq, hsize⟩ := hs.queue_of hat hqueue
      cases hkind : pump.kind with
      | alerts =>
          rw [hkind] at hq
          simp only [Broadcaster.undelivered, s.broadcaster.publishAlert_get?, hq,
            Option.map_some, Option.getD_some, q.items_offered, hsize, Option.isSome_some,
            true_and]
          split <;> rfl
      | trades => exact (if_neg (fun h => by cases h.1)).symm

theorem Sound.session_publishTrade (trade : Trade F) :
    (s.broadcaster.publishTrade trade).session pump =
      (s.broadcaster.session pump).offer .trades (.trade trade) := by
  unfold Session.offer Broadcaster.session Broadcaster.inbox
  rw [pump.phase.isSubscribed_stage]
  cases hqueue : pump.phase.queue? with
  | none => simp
  | some queue =>
      obtain ⟨q, hq, hsize⟩ := hs.queue_of hat hqueue
      cases hkind : pump.kind with
      | alerts => exact (if_neg (fun h => by cases h.1)).symm
      | trades =>
          rw [hkind] at hq
          simp only [Broadcaster.undelivered, s.broadcaster.publishTrade_get?, hq,
            Option.map_some, Option.getD_some, q.items_offered, hsize, Option.isSome_some,
            true_and]
          split <;> rfl

end Publish

section Own

variable {s : Hub F} (hs : s.Sound) {i : ℕ} {pump : Pump F} (hat : s.At i pump)
include hs hat

/-- The await of a call completes the way it does for the client alone. -/
theorem Sound.session_resume :
    (pump.resume s.broadcaster).2.session (pump.resume s.broadcaster).1 =
      (s.broadcaster.session pump).resume s.broadcaster.recent := by
  obtain ⟨kind, phase, sent⟩ := pump
  cases phase with
  | accepting =>
      have hempty : (s.broadcaster.subscribe kind).2.undelivered kind
          s.broadcaster.nextQueue = [] := by
        simp [Broadcaster.undelivered, s.broadcaster.subscribe_get?, BoundedQueue.empty]
      have hrecent := s.broadcaster.subscribe_recent kind
      cases kind with
      | alerts =>
          simp only [Pump.resume, Broadcaster.session, Session.resume, Broadcaster.inbox]
          rw [PumpPhase.queue?_replay, PumpPhase.stage_replay, Broadcaster.recentAlerts, hrecent]
          exact congrArg (Session.mk _ _ · _) hempty
      | trades => exact congrArg (Session.mk _ _ · _) hempty
  | replaying queue item rest =>
      simp only [Pump.resume, Broadcaster.session, Session.resume, Broadcaster.inbox]
      rw [PumpPhase.queue?_replay, PumpPhase.stage_replay]
      rfl
  | waiting queue =>
      obtain ⟨q, hq, _⟩ := hs.queue_of hat rfl
      have hinbox : s.broadcaster.undelivered kind queue = q.items := by
        simp [Broadcaster.undelivered, hq]
      simp only [Pump.resume, Broadcaster.receive, Broadcaster.session, Session.resume,
        Broadcaster.inbox, PumpPhase.queue?, PumpPhase.stage, hinbox, hq, Option.bind_some]
      cases hget : q.get with
      | none => simp only [BoundedQueue.get_eq_none hget, hinbox]
      | some taken =>
          obtain ⟨payload, rest⟩ := taken
          simp only [(BoundedQueue.get_eq_some hget).1, Broadcaster.undelivered,
            Broadcaster.subs_withSubs, OrderedDict.get?_set_self, Option.map_some,
            Option.getD_some]
  | sending queue payload => rfl
  | ended outcome => rfl

end Own

/-- The call ends the way it does for the client alone. -/
theorem session_interrupt (b : Broadcaster F) (pump : Pump F) (cause : Interruption) :
    (pump.interrupt b cause).2.session (pump.interrupt b cause).1 =
      (b.session pump).interrupt cause := by
  obtain ⟨kind, phase, sent⟩ := pump
  cases phase <;> rfl

/-- A move of another call changes nothing for this one. -/
theorem Sound.session_other {s : Hub F} (hs : s.Sound) {i j : ℕ} {pump mover mover' : Pump F}
    {b : Broadcaster F} (hat : s.At i pump) (hmover : s.At j mover) (hij : i ≠ j)
    (hmove : Pump.Move s.broadcaster mover mover' b) :
    b.session pump = s.broadcaster.session pump := by
  have hinbox : b.inbox pump = s.broadcaster.inbox pump := by
    unfold Broadcaster.inbox
    cases hqueue : pump.phase.queue? with
    | none => rfl
    | some queue =>
        have hother : mover.phase.queue? ≠ some queue :=
          fun hsame => hij (hs.own i j pump mover queue hat hmover hqueue hsame)
        have hold := hs.fresh _ queue (hs.held i pump queue hat hqueue)
        exact hmove.undelivered_eq hother hold
  exact congrArg (Session.mk _ _ · _) hinbox

/-- A client that connects is the client `i` if `i` came before it. -/
theorem alone_connect (s : Hub F) (kind : FeedKind) (i : ℕ) :
    (s.step (.connect kind)).2.alone i = (s.alone i).step i (.connect kind) := by
  have hsession : (s.pumps ++ [⟨kind, .accepting, []⟩])[i]?.map s.broadcaster.session =
      if s.pumps.length = i then some ⟨kind, .accepting, [], []⟩
      else s.pumps[i]?.map s.broadcaster.session := by
    rcases lt_trichotomy s.pumps.length i with hlt | rfl | hgt
    · rw [if_neg hlt.ne, List.getElem?_eq_none (by simp; omega),
        List.getElem?_eq_none hlt.le]
    · rw [if_pos rfl, List.getElem?_concat_length]
      rfl
    · rw [if_neg hgt.ne', List.getElem?_append_left hgt]
  simp only [Hub.step, alone, hsession, List.length_append]
  rfl

/-- An event of one call is a move of the client whose call it is. -/
theorem Sound.alone_move {s : Hub F} (hs : s.Sound) {i : ℕ} (j : ℕ)
    (f : Pump F → Broadcaster F → Pump F × Broadcaster F) (own : Session F → Session F)
    (hmove : ∀ pump b, Pump.Move b pump (f pump b).1 (f pump b).2)
    (hown : ∀ pump, s.At i pump →
      (f pump s.broadcaster).2.session (f pump s.broadcaster).1 =
        own (s.broadcaster.session pump)) :
    (s.move j f).alone i =
      if j = i then { s.alone i with session := (s.alone i).session.map own } else s.alone i := by
  unfold Hub.move
  cases hmover : s.pumps[j]? with
  | none =>
      by_cases hij : j = i
      · subst hij
        simp [alone, hmover]
      · rw [if_neg hij]
  | some mover =>
      have hrecent := (hmove mover s.broadcaster).recent_eq
      simp only [alone, hrecent, List.length_set]
      by_cases hij : j = i
      · subst hij
        have hlt := (List.getElem?_eq_some_iff.mp hmover).1
        simp [List.getElem?_set_self hlt, hmover, hown mover hmover]
      · rw [if_neg hij, List.getElem?_set_ne hij]
        exact congrArg (Alone.mk _ _) (Option.map_congr
          (fun pump hat => hs.session_other hat hmover (Ne.symm hij) (hmove mover _)))

/-- One event means to the client `i` what it means to it alone. -/
theorem Sound.alone_step {s : Hub F} (hs : s.Sound) (i : ℕ) (event : HubEvent F) :
    (s.step event).2.alone i = (s.alone i).step i event := by
  cases event with
  | publishAlert alert =>
      have hsession : s.pumps[i]?.map (s.broadcaster.publishAlert alert).session =
          (s.pumps[i]?.map s.broadcaster.session).map
            (Session.offer · .alerts (.alert alert)) := by
        rw [Option.map_map]
        exact Option.map_congr (fun pump hat => hs.session_publishAlert hat alert)
      exact congrArg (Alone.mk _ _) hsession
  | publishTrade trade =>
      have hsession : s.pumps[i]?.map (s.broadcaster.publishTrade trade).session =
          (s.pumps[i]?.map s.broadcaster.session).map
            (Session.offer · .trades (.trade trade)) := by
        rw [Option.map_map]
        exact Option.map_congr (fun pump hat => hs.session_publishTrade hat trade)
      exact congrArg (Alone.mk _ _) hsession
  | connect kind => exact s.alone_connect kind i
  | resume j =>
      exact hs.alone_move j Pump.resume (·.resume s.broadcaster.recent)
        (fun pump b => pump.resume_move b) (fun pump hat => hs.session_resume hat)
  | interrupt j cause =>
      exact hs.alone_move j (fun pump b => pump.interrupt b cause) (·.interrupt cause)
        (fun pump b => pump.interrupt_move b cause)
        (fun pump _ => session_interrupt s.broadcaster pump cause)

/-- Every client sees a run of the hub as its own run. -/
theorem served_alone (history : ℕ) (events : List (HubEvent F)) (i : ℕ) :
    (final Hub.step (init history) events).alone i =
      events.foldl (Alone.step i) ⟨.empty history, 0, none⟩ :=
  final_view Hub.step (P := Sound) (fun s => s.alone i) (Alone.step i)
    (fun _ event hs => ⟨hs.step event, hs.alone_step i event⟩) (init_sound history) events

/-- What the client `i` can tell from: publications, the arrival of clients and
what happens to its own call. -/
def concerns (i : ℕ) : HubEvent F → Bool
  | .publishAlert _ => true
  | .publishTrade _ => true
  | .connect _ => true
  | .resume j => decide (j = i)
  | .interrupt j _ => decide (j = i)

theorem step_unconcerned {i : ℕ} {event : HubEvent F} (h : concerns i event = false)
    (s : Alone F) : Alone.step i s event = s := by
  cases event with
  | resume j => exact if_neg (of_decide_eq_false h)
  | interrupt j cause => exact if_neg (of_decide_eq_false h)
  | _ => cases h

/-- In every run and for every client: had no other client ever taken an item,
fallen behind or been lost, this client would stand where it stands. -/
theorem others_unnoticed (history : ℕ) (events : List (HubEvent F)) (i : ℕ) :
    (final Hub.step (init history) (events.filter (concerns i))).alone i =
      (final Hub.step (init history) events).alone i := by
  rw [served_alone, served_alone, List.foldl_filter]
  congr 1
  funext s event
  split
  · rfl
  · rename_i hnot
    exact (step_unconcerned (Bool.eq_false_of_not_eq_true hnot) s).symm

end Hub

end TradeWatch
