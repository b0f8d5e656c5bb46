import TradeWatch.Api.Pump

/-!
Who is subscribed. Every running call finds its queue in the subscriber sets;
the converse, that the sets hold nothing else, survives every event except an
interruption of a replay, which ends the call outside its `try` statement.
-/

namespace TradeWatch

open Transducer

variable {F : Type} [PyFloat F]

namespace Hub

/-- Some running call of this kind has subscribed this queue. -/
def Running (s : Hub F) (kind : FeedKind) (queue : ℕ) : Prop :=
  ∃ i pump, s.At i pump ∧ pump.kind = kind ∧ pump.phase.queue? = some queue

/-- The subscriber sets are exactly the queues of the running calls. -/
def NoLeak (s : Hub F) : Prop :=
  ∀ kind queue, queue ∈ (s.broadcaster.subs kind).keys ↔ s.Running kind queue

/-- The queues of the running calls are subscribed, of their full size, and
belong to one call each. -/
structure Sound (s : Hub F) : Prop where
  fresh : ∀ kind, ∀ queue ∈ (s.broadcaster.subs kind).keys, queue < s.broadcaster.nextQueue
  sized : ∀ kind queue q, (s.broadcaster.subs kind).get? queue = some q → q.maxsize = 1000
  held : ∀ i pump queue, s.At i pump → pump.phase.queue? = some queue →
    queue ∈ (s.broadcaster.subs pump.kind).keys
  own : ∀ i j pump other queue, s.At i pump → s.At j other →
    pump.phase.queue? = some queue → other.phase.queue? = some queue → i = j
  unsent : ∀ i pump, s.At i pump → pump.phase = .accepting → pump.sent = []

section Move

variable {s : Hub F} (hs : s.Sound) {i : ℕ} {pump pump' : Pump F} {b : Broadcaster F}
  (hat : s.At i pump) (hmove : Pump.Move s.broadcaster pump pump' b)
include hs hat hmove

omit hat in
theorem Sound.fresh_move (kind : FeedKind) (queue : ℕ) (hqueue : queue ∈ (b.subs kind).keys) :
    queue < b.nextQueue := by
  have hnext := hmove.nextQueue_le
  cases hmove.ownership with
  | kept _ hkeys => exact (hs.fresh kind queue ((hkeys kind queue).mp hqueue)).trans_le hnext
  | dropped _ _ hkeys => exact (hs.fresh kind queue ((hkeys kind queue).mp hqueue)).trans_le hnext
  | opened _ _ hkeys hsucc =>
      rcases (hkeys kind queue).mp hqueue with ⟨_, rfl⟩ | hold
      · exact hsucc ▸ Nat.lt_succ_self _
      · exact (hs.fresh kind queue hold).trans_le hnext
  | released held _ _ _ hkeys =>
      exact (hs.fresh kind queue ((hkeys kind queue).mp hqueue).2).trans_le hnext

/-- The queue that the moving call ends up with is subscribed. -/
theorem Sound.held_own (queue : ℕ) (hqueue : pump'.phase.queue? = some queue) :
    queue ∈ (b.subs pump.kind).keys := by
  cases hmove.ownership with
  | kept heq hkeys => exact (hkeys _ queue).mpr (hs.held i pump queue hat (heq ▸ hqueue))
  | dropped hnone _ _ =>
      rw [hnone] at hqueue
      cases hqueue
  | opened _ hnew hkeys _ =>
      rw [hnew] at hqueue
      exact (hkeys _ queue).mpr (Or.inl ⟨rfl, (Option.some.inj hqueue).symm⟩)
  | released held _ _ hnone _ =>
      rw [hnone] at hqueue
      cases hqueue

/-- The queues of the other calls stay subscribed. -/
theorem Sound.held_other {j : ℕ} {other : Pump F} (hj : j ≠ i) (hother : s.At j other)
    (queue : ℕ) (hqueue : other.phase.queue? = some queue) :
    queue ∈ (b.subs other.kind).keys := by
  have hold := hs.held j other queue hother hqueue
  cases hmove.ownership with
  | kept _ hkeys => exact (hkeys _ queue).mpr hold
  | dropped _ _ hkeys => exact (hkeys _ queue).mpr hold
  | opened _ _ hkeys _ => exact (hkeys _ queue).mpr (Or.inr hold)
  | released held hbefore _ _ hkeys =>
      refine (hkeys _ queue).mpr ⟨?_, hold⟩
      rintro ⟨_, rfl⟩
      exact hj (hs.own j i other pump queue hother hat hqueue hbefore)

/-- A queue that the moving call ends up with is its own or a fresh one. -/
theorem Sound.own_other {j : ℕ} {other : Pump F} (hj : j ≠ i) (hother : s.At j other)
    (queue : ℕ) (hqueue : other.phase.queue? = some queue) : pump'.phase.queue? ≠ some queue := by
  intro hsame
  cases hmove.ownership with
  | kept heq _ => exact hj (hs.own j i other pump queue hother hat hqueue (heq ▸ hsame))
  | dropped hnone _ _ =>
      rw [hnone] at hsame
      cases hsame
  | opened _ hnew _ _ =>
      rw [hnew] at hsame
      have hlt := hs.fresh _ queue (hs.held j other queue hother hqueue)
      exact absurd (Option.some.inj hsame) hlt.ne'
  | released held _ _ hnone _ =>
      rw [hnone] at hsame
      cases hsame

/-- A call that is still to be accepted has not moved, so it has sent nothing. -/
theorem Sound.unsent_own (hphase : pump'.phase = .accepting) : pump'.sent = [] := by
  cases hmove with
  | idle => exact hs.unsent i _ hat hphase
  | subscribed items _ _ => cases items <;> cases hphase
  | replayed queue item rest _ => cases rest <;> cases hphase
  | _ => cases hphase

theorem Sound.move : (Hub.mk b (s.pumps.set i pump')).Sound where
  fresh := hs.fresh_move hmove
  sized := hmove.sized hs.sized
  held j other queue hother hqueue := by
    rcases (at_set hat b pump' j other).mp hother with ⟨rfl, rfl⟩ | ⟨hj, hother⟩
    · rw [hmove.kind_eq]
      exact hs.held_own hat hmove queue hqueue
    · exact hs.held_other hat hmove hj hother queue hqueue
  own j k one two queue hone htwo hqone hqtwo := by
    rcases (at_set hat b pump' j one).mp hone with ⟨hj, hone⟩ | ⟨hj, hone⟩
    · rcases (at_set hat b pump' k two).mp htwo with ⟨hk, htwo⟩ | ⟨hk, htwo⟩
      · rw [hj, hk]
      · exact absurd (hone ▸ hqone) (hs.own_other hat hmove hk htwo queue hqtwo)
    · rcases (at_set hat b pump' k two).mp htwo with ⟨hk, htwo⟩ | ⟨hk, htwo⟩
      · exact absurd (htwo ▸ hqtwo) (hs.own_other hat hmove hj hone queue hqone)
      · exact hs.own j k one two queue hone htwo hqone hqtwo
  unsent j other hother hphase := by
    rcases (at_set hat b pump' j other).mp hother with ⟨rfl, rfl⟩ | ⟨_, hother⟩
    · exact hs.unsent_own hat hmove hphase
    · exact hs.unsent j other hother hphase

end Move

/-- Publishing keeps subscriptions, sizes and calls. -/
theorem Sound.publish {s : Hub F} (hs : s.Sound) {b : Broadcaster F}
    (hkeys : ∀ kind, (b.subs kind).keys = (s.broadcaster.subs kind).keys)
    (hnext : b.nextQueue = s.broadcaster.nextQueue)
    (hsized : ∀ kind queue q, (b.subs kind).get? queue = some q → q.maxsize = 1000) :
    Sound { s with broadcaster := b } where
  fresh kind queue hqueue := by
    rw [hkeys] at hqueue
    exact hnext ▸ hs.fresh kind queue hqueue
  sized := hsized
  held i pump queue hat hqueue := (hkeys pump.kind).symm ▸ hs.held i pump queue hat hqueue
  own := hs.own
  unsent := hs.unsent

theorem at_connect {s : Hub F} {kind : FeedKind} {i : ℕ} {pump : Pump F}
    (h : (Hub.mk s.broadcaster (s.pumps ++ [⟨kind, .accepting, []⟩])).At i pump) :
    s.At i pump ∨ pump = ⟨kind, .accepting, []⟩ := by
  unfold At at h
  rw [List.getElem?_append] at h
  split at h
  · exact Or.inl h
  · right
    have hmem := List.mem_of_getElem? h
    exact List.mem_singleton.mp hmem

theorem Sound.connect {s : Hub F} (hs : s.Sound) (kind : FeedKind) :
    Sound { s with pumps := s.pumps ++ [⟨kind, .accepting, []⟩] } where
  fresh := hs.fresh
  sized := hs.sized
  held i pump queue hat hqueue := by
    rcases at_connect hat with hold | rfl
    · exact hs.held i pump queue hold hqueue
    · cases hqueue
  own i j pump other queue hpump hother hqueue hqueue' := by
    rcases at_connect hpump with hone | rfl
    · rcases at_connect hother with htwo | rfl
      · exact hs.own i j pump other queue hone htwo hqueue hqueue'
      · cases hqueue'
    · cases hqueue
  unsent i pump hat hphase := by
    rcases at_connect hat with hold | rfl
    · exact hs.unsent i pump hold hphase
    · rfl

theorem publishAlert_sized {b : Broadcaster F}
    (hsized : ∀ kind queue q, (b.subs kind).get? queue = some q → q.maxsize = 1000)
    (alert : Alert F) :
    ∀ kind queue q, ((b.publishAlert alert).subs kind).get? queue = some q →
      q.maxsize = 1000 := by
  intro kind queue q hq
  cases kind with
  | alerts =>
      rw [b.publishAlert_get?, Option.map_eq_some_iff] at hq
      obtain ⟨old, hold, rfl⟩ := hq
      rw [old.maxsize_offered]
      exact hsized .alerts queue old hold
  | trades => exact hsized .trades queue q hq

theorem publishTrade_sized {b : Broadcaster F}
    (hsized : ∀ kind queue q, (b.subs kind).get? queue = some q → q.maxsize = 1000)
    (trade : Trade F) :
    ∀ kind queue q, ((b.publishTrade trade).subs kind).get? queue = some q →
      q.maxsize = 1000 := by
  intro kind queue q hq
  cases kind with
  | alerts => exact hsized .alerts queue q hq
  | trades =>
      rw [b.publishTrade_get?, Option.map_eq_some_iff] at hq
      obtain ⟨old, hold, rfl⟩ := hq
      rw [old.maxsize_offered]
      exact hsized .trades queue old hold

/-- An event of one call leaves everything alone, or is a move of that call. -/
theorem move_rule {P : Hub F → Prop} {s : Hub F} {i : ℕ}
    {f : Pump F → Broadcaster F → Pump F × Broadcaster F} (hidle : s.pumps[i]? = none → P s)
    (hmove : ∀ pump, s.At i pump →
      P ⟨(f pump s.broadcaster).2, s.pumps.set i (f pump s.broadcaster).1⟩) :
    P (s.move i f) := by
  unfold move
  cases hat : s.pumps[i]? with
  | none => exact hidle hat
  | some pump => exact hmove pump hat

theorem Sound.step {s : Hub F} (hs : s.Sound) (event : HubEvent F) : (s.step event).2.Sound := by
  cases event with
  | publishAlert alert =>
      exact hs.publish (s.broadcaster.publishAlert_keys alert) rfl
        (publishAlert_sized hs.sized alert)
  | publishTrade trade =>
      exact hs.publish (s.broadcaster.publishTrade_keys trade) rfl
        (publishTrade_sized hs.sized trade)
  | connect kind => exact hs.connect kind
  | resume i =>
      exact move_rule (fun _ => hs)
        (fun pump hat => hs.move hat (pump.resume_move s.broadcaster))
  | interrupt i cause =>
      exact move_rule (f := fun pump b => pump.interrupt b cause) (fun _ => hs)
        (fun pump hat => hs.move hat (pump.interrupt_move s.broadcaster cause))

theorem init_sound (history : ℕ) : (init history : Hub F).Sound where
  fresh kind queue hqueue := by
    cases kind <;> exact absurd hqueue List.not_mem_nil
  sized kind queue q hq := by
    cases kind <;> cases hq
  held i pump queue hat _ := by cases hat
  own i j pump other queue hat _ _ _ := by cases hat
  unsent i pump hat _ := by cases hat

/-- The event interrupts a call after its subscription and before its `try`
statement. -/
def CutsReplay (s : Hub F) : HubEvent F → Prop
  | .interrupt i _ => ∃ pump, s.At i pump ∧ pump.phase.isReplaying = true
  | .resume _ => False
  | .connect _ => False
  | .publishAlert _ => False
  | .publishTrade _ => False

theorem Sound.noLeak_iff {s : Hub F} (hs : s.Sound) :
    s.NoLeak ↔ ∀ kind, ∀ queue ∈ (s.broadcaster.subs kind).keys, s.Running kind queue := by
  constructor
  · exact fun h kind queue hqueue => (h kind queue).mp hqueue
  · intro h kind queue
    refine ⟨h kind queue, ?_⟩
    rintro ⟨i, pump, hat, rfl, hqueue⟩
    exact hs.held i pump queue hat hqueue

/-- Which queues have a running call after one call has moved. -/
theorem Sound.running_move {s : Hub F} (hs : s.Sound) {i : ℕ} {pump pump' : Pump F}
    {b : Broadcaster F} (hat : s.At i pump) (hmove : Pump.Move s.broadcaster pump pump' b)
    (kind : FeedKind) (queue : ℕ) :
    (Hub.mk b (s.pumps.set i pump')).Running kind queue ↔
      (kind = pump.kind ∧ pump'.phase.queue? = some queue) ∨
        (pump.phase.queue? ≠ some queue ∧ s.Running kind queue) := by
  constructor
  · rintro ⟨j, other, hother, hkind, hqueue⟩
    rcases (at_set hat b pump' j other).mp hother with ⟨_, rfl⟩ | ⟨hj, hother⟩
    · exact Or.inl ⟨hkind.symm.trans hmove.kind_eq, hqueue⟩
    · refine Or.inr ⟨?_, j, other, hother, hkind, hqueue⟩
      exact fun hsame => hj (hs.own j i other pump queue hother hat hqueue hsame)
  · rintro (⟨hkind, hqueue⟩ | ⟨hne, j, other, hother, hkind, hqueue⟩)
    · exact ⟨i, pump', (at_set hat b pump' i pump').mpr (Or.inl ⟨rfl, rfl⟩),
        hmove.kind_eq.trans hkind.symm, hqueue⟩
    · have hj : j ≠ i := by
        rintro rfl
        obtain rfl := Option.some.inj (hother.symm.trans hat)
        exact hne hqueue
      exact ⟨j, other, (at_set hat b pump' j other).mpr (Or.inr ⟨hj, hother⟩), hkind, hqueue⟩

theorem Sound.running_own {s : Hub F} (hs : s.Sound) {i : ℕ} {pump : Pump F} {queue : ℕ}
    (hat : s.At i pump) (hqueue : pump.phase.queue? = some queue) (kind : FeedKind) :
    s.Running kind queue ↔ kind = pump.kind := by
  constructor
  · rintro ⟨j, other, hother, rfl, hsame⟩
    obtain rfl := hs.own j i other pump queue hother hat hsame hqueue
    rw [Option.some.inj (hother.symm.trans hat)]
  · rintro rfl
    exact ⟨i, pump, hat, rfl, hqueue⟩

/-- A move leaks a queue exactly when it ends a call that was replaying. -/
theorem Sound.noLeak_move {s : Hub F} (hs : s.Sound) {i : ℕ} {pump pump' : Pump F}
    {b : Broadcaster F} (hat : s.At i pump) (hmove : Pump.Move s.broadcaster pump pump' b) :
    (Hub.mk b (s.pumps.set i pump')).NoLeak ↔
      s.NoLeak ∧ ¬ (pump.phase.isReplaying = true ∧ pump'.phase.queue? = none) := by
  rw [(hs.move hat hmove).noLeak_iff, hs.noLeak_iff]
  simp only [hs.running_move hat hmove]
  cases hmove.ownership with
  | kept hqueue hkeys =>
      have hsafe : ¬ (pump.phase.isReplaying = true ∧ pump'.phase.queue? = none) := by
        rintro ⟨hreplaying, hnone⟩
        exact pump.phase.queue?_ne_none hreplaying (hqueue.symm.trans hnone)
      have hsame : ∀ kind queue,
          (kind = pump.kind ∧ pump'.phase.queue? = some queue ∨
            pump.phase.queue? ≠ some queue ∧ s.Running kind queue) ↔ s.Running kind queue := by
        intro kind queue
        rw [hqueue]
        by_cases hown : pump.phase.queue? = some queue
        · simp [hown, hs.running_own hat hown]
        · simp [hown]
      simp only [hsame, hkeys, hsafe, not_false_eq_true, and_true]
  | dropped hnone hcut hkeys =>
      simp only [hnone, hkeys, reduceCtorEq, and_false, false_or, and_true]
      rcases hcut with hidle | hreplaying
      · have hnot : pump.phase.isReplaying ≠ true := fun h => pump.phase.queue?_ne_none h hidle
        simp only [hidle, hnot, ne_eq, reduceCtorEq, not_false_eq_true, true_and, and_true]
      · -- The queue of the call stays behind, and no other call has it.
        obtain ⟨queue, hqueue⟩ :=
          Option.ne_none_iff_exists'.mp (pump.phase.queue?_ne_none hreplaying)
        have hheld := hs.held i pump queue hat hqueue
        constructor
        · intro h
          exact absurd hqueue (h pump.kind queue hheld).1
        · exact fun h => absurd hreplaying h.2
  | opened hbefore hqueue hkeys hnext =>
      simp only [hbefore, hqueue, hkeys, ne_eq, reduceCtorEq, not_false_eq_true, true_and,
        and_false, and_true, Option.some.injEq]
      constructor
      · intro h kind queue hold
        rcases h kind queue (Or.inr hold) with ⟨_, rfl⟩ | hrunning
        · exact absurd (hs.fresh kind _ hold) (lt_irrefl _)
        · exact hrunning
      · rintro h kind queue (⟨rfl, rfl⟩ | hold)
        · exact Or.inl ⟨rfl, rfl⟩
        · exact Or.inr (h kind queue hold)
  | released held hbefore hloop hqueue hkeys =>
      simp only [hbefore, hloop, hqueue, hkeys, Bool.false_eq_true, reduceCtorEq, and_false,
        false_or, not_false_eq_true, and_true, ne_eq, Option.some.injEq]
      constructor
      · intro h kind queue hold
        by_cases hown : kind = pump.kind ∧ queue = held
        · obtain ⟨rfl, rfl⟩ := hown
          exact (hs.running_own hat hbefore _).mpr rfl
        · exact (h kind queue ⟨hown, hold⟩).2
      · rintro h kind queue ⟨hnot, hold⟩
        refine ⟨?_, h kind queue hold⟩
        rintro rfl
        exact hnot ⟨(hs.running_own hat hbefore kind).mp (h kind _ hold), rfl⟩

theorem noLeak_publish {s : Hub F} {b : Broadcaster F}
    (hkeys : ∀ kind, (b.subs kind).keys = (s.broadcaster.subs kind).keys) :
    NoLeak { s with broadcaster := b } ↔ s.NoLeak := by
  unfold NoLeak
  simp only [hkeys]
  exact Iff.rfl

theorem running_connect (s : Hub F) (opening kind : FeedKind) (queue : ℕ) :
    (Hub.mk s.broadcaster (s.pumps ++ [⟨opening, .accepting, []⟩])).Running kind queue ↔
      s.Running kind queue := by
  constructor
  · rintro ⟨i, pump, hat, hkind, hqueue⟩
    rcases at_connect hat with hold | rfl
    · exact ⟨i, pump, hold, hkind, hqueue⟩
    · cases hqueue
  · rintro ⟨i, pump, hat, hkind, hqueue⟩
    refine ⟨i, pump, ?_, hkind, hqueue⟩
    have hlt := (List.getElem?_eq_some_iff.mp hat).1
    exact (List.getElem?_append_left hlt).trans hat

/-- One event keeps the subscriber sets exact unless it cuts a replay. -/
theorem Sound.noLeak_step {s : Hub F} (hs : s.Sound) (event : HubEvent F) :
    (s.step event).2.NoLeak ↔ s.NoLeak ∧ ¬ s.CutsReplay event := by
  cases event with
  | publishAlert alert =>
      simp only [CutsReplay, not_false_eq_true, and_true]
      exact noLeak_publish (s.broadcaster.publishAlert_keys alert)
  | publishTrade trade =>
      simp only [CutsReplay, not_false_eq_true, and_true]
      exact noLeak_publish (s.broadcaster.publishTrade_keys trade)
  | connect kind =>
      simp only [Hub.step, NoLeak, running_connect, CutsReplay, not_false_eq_true, and_true]
  | resume i =>
      simp only [CutsReplay, not_false_eq_true, and_true]
      apply move_rule (P := fun s' => s'.NoLeak ↔ s.NoLeak)
      · exact fun _ => Iff.rfl
      · intro pump hat
        rw [hs.noLeak_move hat (pump.resume_move s.broadcaster), and_iff_left_iff_imp]
        rintro _ ⟨hreplaying, hnone⟩
        exact pump.resume_queue? s.broadcaster hreplaying hnone
  | interrupt i cause =>
      apply move_rule (P := fun s' => s'.NoLeak ↔ s.NoLeak ∧ ¬ s.CutsReplay (.interrupt i cause))
        (f := fun pump b => pump.interrupt b cause)
      · intro hnobody
        simp [CutsReplay, hnobody]
      · intro pump hat
        have hcuts : s.CutsReplay (.interrupt i cause) ↔ pump.phase.isReplaying = true := by
          constructor
          · rintro ⟨other, hother, hreplaying⟩
            rwa [Option.some.inj (hat.symm.trans hother)]
          · exact fun hreplaying => ⟨pump, hat, hreplaying⟩
        have hended := pump.interrupt_queue? s.broadcaster cause
        rw [hs.noLeak_move hat (pump.interrupt_move s.broadcaster cause), hcuts]
        simp only [hended, and_true]

theorem final_sound (history : ℕ) (events : List (HubEvent F)) :
    (final Hub.step (init history) events).Sound :=
  final_invariant Hub.step (init_sound history) (fun _ event hs => hs.step event) events

theorem init_noLeak (history : ℕ) : (init history : Hub F).NoLeak := by
  rw [(init_sound history).noLeak_iff]
  intro kind queue hqueue
  cases kind <;> exact absurd hqueue List.not_mem_nil

/-- The subscriber sets are exact at every point of a run if and only if no
event of the run cuts a replay. -/
theorem no_leak_iff (history : ℕ) (events : List (HubEvent F)) :
    (∀ before after, events = before ++ after → (final Hub.step (init history) before).NoLeak) ↔
      Along Hub.step (fun s event => ¬ s.CutsReplay event) (init history) events := by
  constructor
  · rintro h before event after rfl
    have hsound := final_sound (F := F) history before
    have hleak := h (before ++ [event]) after (by simp)
    rw [final_append, final_cons, final_nil, hsound.noLeak_step] at hleak
    exact hleak.2
  · rintro h before after rfl
    induction before using List.reverseRecOn generalizing after with
    | nil => exact init_noLeak history
    | append_singleton before event ih =>
        have hbefore := ih (event :: after) (by simpa using h)
        rw [final_append, final_cons, final_nil, (final_sound history before).noLeak_step]
        exact ⟨hbefore, h before event after (by simp)⟩

/-- A client that is gone before its replay is leaves its queue behind. -/
theorem replay_leaks :
    ¬ ∀ (history : ℕ) (events : List (HubEvent ℚ)),
      (final Hub.step (init history) events).NoLeak := by
  intro h
  have hleft := h 500 [.publishAlert selfTradeAlert, .connect .alerts, .resume 0,
    .interrupt 0 .webSocketDisconnect]
  obtain ⟨i, pump, hat, _, hqueue⟩ := (hleft .alerts 0).mp List.mem_cons_self
  cases i with
  | zero =>
      obtain rfl := Option.some.inj hat
      cases hqueue
  | succ i => cases hat

end Hub

end TradeWatch
