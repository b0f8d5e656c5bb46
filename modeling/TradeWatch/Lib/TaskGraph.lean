import Mathlib.Algebra.BigOperators.Group.Finset.Basic
import Mathlib.Data.Fintype.Basic
import Mathlib.Order.WellFounded
import Mathlib.Tactic

/-!
Tasks with dependencies, run by a scheduler: a task is started when all tasks
before it have succeeded, a failed attempt is repeated a limited number of times,
and a failure is passed on to the tasks behind it. Independent tasks run in any
order, so the results are about every sequence of events that the rules allow.
-/

namespace TaskGraph

structure Plan (τ : Type) where
  upstream : τ → List τ
  retries : ℕ

inductive Status
  | waiting
  | running
  | upForRetry
  | success
  | failed
  | upstreamFailed
  deriving DecidableEq, Repr

/-- Nothing more happens to the task. -/
def Status.settled : Status → Bool
  | .waiting | .running | .upForRetry => false
  | .success | .failed | .upstreamFailed => true

structure Instance where
  status : Status
  tries : ℕ
  deriving DecidableEq, Repr

abbrev Run (τ : Type) := τ → Instance

inductive Event (τ : Type)
  | start (task : τ)
  | finish (task : τ) (ok : Bool)
  /-- A task is given up because one before it has failed. -/
  | giveUp (task : τ)
  deriving DecidableEq, Repr

def Run.initial {τ : Type} : Run τ := fun _ => ⟨.waiting, 0⟩

variable {τ : Type} [DecidableEq τ] (plan : Plan τ)

/-- All tasks before it have succeeded. -/
def Ready (run : Run τ) (task : τ) : Prop :=
  ∀ before ∈ plan.upstream task, (run before).status = .success

instance (run : Run τ) (task : τ) : Decidable (Ready plan run task) :=
  inferInstanceAs (Decidable (∀ before ∈ plan.upstream task, (run before).status = .success))

/-- One before it has failed for good. -/
def Blocked (run : Run τ) (task : τ) : Prop :=
  ∃ before ∈ plan.upstream task,
    (run before).status = .failed ∨ (run before).status = .upstreamFailed

instance (run : Run τ) (task : τ) : Decidable (Blocked plan run task) :=
  inferInstanceAs (Decidable (∃ before ∈ plan.upstream task,
    (run before).status = .failed ∨ (run before).status = .upstreamFailed))

/-- What a failed attempt leads to. -/
def afterFailure (tries : ℕ) : Status := if tries ≤ plan.retries then .upForRetry else .failed

/-- One event, where the rules allow it. -/
def step (run : Run τ) : Event τ → Option (Run τ)
  | .start task =>
      if ((run task).status = .waiting ∨ (run task).status = .upForRetry) ∧ Ready plan run task then
        some (Function.update run task ⟨.running, (run task).tries + 1⟩)
      else none
  | .finish task ok =>
      if (run task).status = .running then
        some (Function.update run task
          ⟨if ok then .success else afterFailure plan (run task).tries, (run task).tries⟩)
      else none
  | .giveUp task =>
      if (run task).status = .waiting ∧ Blocked plan run task then
        some (Function.update run task ⟨.upstreamFailed, (run task).tries⟩)
      else none

/-- A sequence of events. -/
def steps : Run τ → List (Event τ) → Option (Run τ)
  | run, [] => some run
  | run, event :: rest => (step plan run event).bind (steps · rest)

theorem steps_append (run : Run τ) (first second : List (Event τ)) :
    steps plan run (first ++ second) =
      (steps plan run first).bind (fun run' => steps plan run' second) := by
  induction first generalizing run with
  | nil => rfl
  | cons event rest ih =>
      rw [List.cons_append, steps, steps, Option.bind_assoc]
      congr 1
      funext next
      exact ih next

theorem steps_snoc {run run' : Run τ} {events : List (Event τ)} {event : Event τ}
    (h : steps plan run (events ++ [event]) = some run') :
    ∃ middle, steps plan run events = some middle ∧ step plan middle event = some run' := by
  rw [steps_append] at h
  obtain ⟨middle, hmiddle, hlast⟩ := Option.bind_eq_some_iff.mp h
  refine ⟨middle, hmiddle, ?_⟩
  rw [steps] at hlast
  obtain ⟨next, hnext, hdone⟩ := Option.bind_eq_some_iff.mp hlast
  cases hdone
  exact hnext

/-- Everything that an event can do. -/
theorem step_cases {run run' : Run τ} {event : Event τ} (h : step plan run event = some run') :
    (∃ task, event = .start task ∧
        ((run task).status = .waiting ∨ (run task).status = .upForRetry) ∧ Ready plan run task ∧
        run' = Function.update run task ⟨.running, (run task).tries + 1⟩) ∨
      (∃ task ok, event = .finish task ok ∧ (run task).status = .running ∧
        run' = Function.update run task
          ⟨if ok then .success else afterFailure plan (run task).tries, (run task).tries⟩) ∨
      (∃ task, event = .giveUp task ∧ (run task).status = .waiting ∧ Blocked plan run task ∧
        run' = Function.update run task ⟨.upstreamFailed, (run task).tries⟩) := by
  cases event with
  | start task =>
      obtain ⟨hstart, h⟩ := Option.ite_none_right_eq_some.mp h
      exact Or.inl ⟨task, rfl, hstart.1, hstart.2, (Option.some.inj h).symm⟩
  | finish task ok =>
      obtain ⟨hrunning, h⟩ := Option.ite_none_right_eq_some.mp h
      exact Or.inr (Or.inl ⟨task, ok, rfl, hrunning, (Option.some.inj h).symm⟩)
  | giveUp task =>
      obtain ⟨hblocked, h⟩ := Option.ite_none_right_eq_some.mp h
      exact Or.inr (Or.inr ⟨task, rfl, hblocked.1, hblocked.2, (Option.some.inj h).symm⟩)

/-- The rule of invariants. -/
theorem steps_invariant {P : Run τ → Prop} {run run' : Run τ} (hstart : P run)
    (hstep : ∀ {middle next event}, P middle → step plan middle event = some next → P next)
    {events : List (Event τ)} (h : steps plan run events = some run') : P run' := by
  induction events generalizing run with
  | nil =>
      cases h
      exact hstart
  | cons event rest ih =>
      obtain ⟨next, hnext, hrest⟩ := Option.bind_eq_some_iff.mp h
      exact ih (hstep hstart hnext) hrest

/-- A task that is settled stays as it is. -/
theorem settled_of_step {run run' : Run τ} {event : Event τ}
    (h : step plan run event = some run') {task : τ} (hsettled : (run task).status.settled = true) :
    run' task = run task := by
  rcases step_cases plan h with ⟨other, -, hstatus, -, rfl⟩ | ⟨other, ok, -, hstatus, rfl⟩ |
    ⟨other, -, hstatus, -, rfl⟩
  · apply Function.update_of_ne
    rintro rfl
    rcases hstatus with hstatus | hstatus <;> rw [hstatus] at hsettled <;> cases hsettled
  · apply Function.update_of_ne
    rintro rfl
    rw [hstatus] at hsettled
    cases hsettled
  · apply Function.update_of_ne
    rintro rfl
    rw [hstatus] at hsettled
    cases hsettled

/-- What has succeeded before a step has succeeded after it. -/
theorem ready_of_step {run run' : Run τ} {event : Event τ} (h : step plan run event = some run')
    {task : τ} (hready : Ready plan run task) : Ready plan run' task := by
  intro before hbefore
  have hsuccess := hready before hbefore
  rw [settled_of_step plan h (by rw [hsuccess]; rfl)]
  exact hsuccess

/-- And a failure stays in the way. -/
theorem blocked_of_step {run run' : Run τ} {event : Event τ} (h : step plan run event = some run')
    {task : τ} (hblocked : Blocked plan run task) : Blocked plan run' task := by
  obtain ⟨before, hbefore, hfailed⟩ := hblocked
  refine ⟨before, hbefore, ?_⟩
  rw [settled_of_step plan h (by rcases hfailed with hfailed | hfailed <;> rw [hfailed] <;> rfl)]
  exact hfailed

/-- What holds of a task at any time. -/
structure Instance.Sound (retries : ℕ) (i : Instance) : Prop where
  tries_le : i.tries ≤ retries + 1
  retry : i.status = .upForRetry → i.tries ≤ retries
  tried : i.status ≠ .waiting → i.status ≠ .upstreamFailed → 1 ≤ i.tries
  untouched : i.status = .waiting ∨ i.status = .upstreamFailed → i.tries = 0
  exhausted : i.status = .failed → i.tries = retries + 1

theorem Instance.Sound.started {retries : ℕ} {i : Instance} (h : i.Sound retries)
    (hstatus : i.status = .waiting ∨ i.status = .upForRetry) :
    (⟨.running, i.tries + 1⟩ : Instance).Sound retries := by
  have htries : i.tries ≤ retries := by
    rcases hstatus with hwaiting | hretry
    · have hzero := h.untouched (Or.inl hwaiting)
      omega
    · exact h.retry hretry
  exact ⟨Nat.succ_le_succ htries, by simp, by simp, by simp, by simp⟩

omit [DecidableEq τ] in
theorem Instance.Sound.finished {i : Instance} (h : i.Sound plan.retries)
    (hstatus : i.status = .running) (ok : Bool) :
    (⟨if ok then .success else afterFailure plan i.tries, i.tries⟩ : Instance).Sound
      plan.retries := by
  have hone := h.tried (by simp [hstatus]) (by simp [hstatus])
  cases ok with
  | true => exact ⟨h.tries_le, by simp, fun _ _ => hone, by simp, by simp⟩
  | false =>
      rw [if_neg Bool.false_ne_true, afterFailure]
      split_ifs with htries
      · exact ⟨h.tries_le, fun _ => htries, fun _ _ => hone, by simp, by simp⟩
      · exact ⟨h.tries_le, by simp, fun _ _ => hone, by simp,
          fun _ => Nat.le_antisymm h.tries_le (Nat.lt_of_not_le htries)⟩

theorem Instance.Sound.givenUp {retries : ℕ} {i : Instance} (h : i.Sound retries)
    (hstatus : i.status = .waiting) :
    (⟨.upstreamFailed, i.tries⟩ : Instance).Sound retries :=
  ⟨h.tries_le, by simp, by simp, fun _ => h.untouched (Or.inl hstatus), by simp⟩

/-- What holds of every run from the start. -/
structure Sound (run : Run τ) : Prop where
  tasks : ∀ task, (run task).Sound plan.retries
  begun : ∀ task, 1 ≤ (run task).tries → Ready plan run task
  blocked : ∀ task, (run task).status = .upstreamFailed → Blocked plan run task

omit [DecidableEq τ] in
theorem sound_initial : Sound plan (Run.initial : Run τ) where
  tasks task :=
    ⟨Nat.zero_le _, by simp [Run.initial], by simp [Run.initial], fun _ => rfl,
      by simp [Run.initial]⟩
  begun task h := absurd h (by simp [Run.initial])
  blocked task h := by cases h

theorem sound_step {run run' : Run τ} {event : Event τ} (hsound : Sound plan run)
    (h : step plan run event = some run') : Sound plan run' := by
  -- only one task changes
  have hupdate : ∀ task i, run' = Function.update run task i → i.Sound plan.retries →
      (1 ≤ i.tries → Ready plan run task) →
      (i.status = .upstreamFailed → Blocked plan run task) → Sound plan run' := by
    intro task i hrun htask htried hgivenUp
    constructor <;> intro other <;> by_cases hother : other = task
    · rw [hrun, hother, Function.update_self]
      exact htask
    · rw [hrun, Function.update_of_ne hother]
      exact hsound.tasks other
    · intro hone
      rw [hrun, hother, Function.update_self] at hone
      exact ready_of_step plan h (hother ▸ htried hone)
    · intro hone
      rw [hrun, Function.update_of_ne hother] at hone
      exact ready_of_step plan h (hsound.begun other hone)
    · intro hstatus
      rw [hrun, hother, Function.update_self] at hstatus
      exact blocked_of_step plan h (hother ▸ hgivenUp hstatus)
    · intro hstatus
      rw [hrun, Function.update_of_ne hother] at hstatus
      exact blocked_of_step plan h (hsound.blocked other hstatus)
  rcases step_cases plan h with ⟨task, -, hstatus, htask, hrun⟩ | ⟨task, ok, -, hstatus, hrun⟩ |
    ⟨task, -, hstatus, hblocked, hrun⟩
  · exact hupdate task _ hrun ((hsound.tasks task).started hstatus) (fun _ => htask) (by simp)
  · refine hupdate task _ hrun ((hsound.tasks task).finished plan hstatus ok)
      (hsound.begun task) ?_
    intro hgivenUp
    dsimp only at hgivenUp
    unfold afterFailure at hgivenUp
    split_ifs at hgivenUp
  · exact hupdate task _ hrun ((hsound.tasks task).givenUp hstatus) (hsound.begun task)
      (fun _ => hblocked)

theorem sound_steps {run run' : Run τ} (hsound : Sound plan run) {events : List (Event τ)}
    (h : steps plan run events = some run') : Sound plan run' :=
  steps_invariant plan hsound (fun hmiddle hstep => sound_step plan hmiddle hstep) h

section Length

variable [Fintype τ]

/-- How many events a task has seen. -/
def Instance.spent (i : Instance) : ℕ :=
  match i.status with
  | .running => 2 * i.tries - 1
  | .upstreamFailed => 2 * i.tries + 1
  | _ => 2 * i.tries

def spent (run : Run τ) : ℕ := ∑ task, (run task).spent

omit [DecidableEq τ] in
theorem spent_initial : spent (Run.initial : Run τ) = 0 := by
  simp [spent, Run.initial, Instance.spent]

theorem Instance.spent_le {retries : ℕ} {i : Instance} (h : i.Sound retries) :
    i.spent ≤ 2 * (retries + 1) := by
  have htries := h.tries_le
  have huntouched := h.untouched
  unfold spent
  cases hstatus : i.status <;> rw [hstatus] at huntouched <;> dsimp only
  case upstreamFailed =>
    rw [huntouched (Or.inr rfl)]
    omega
  all_goals omega

theorem spent_update (run : Run τ) {task : τ} {i : Instance}
    (h : i.spent = (run task).spent + 1) :
    spent (Function.update run task i) = spent run + 1 := by
  have hrest : ∀ other ∈ Finset.univ.erase task,
      (Function.update run task i other).spent = (run other).spent := by
    intro other hother
    rw [Function.update_of_ne (Finset.ne_of_mem_erase hother)]
  have hmem : task ∈ Finset.univ := Finset.mem_univ task
  rw [spent, spent, ← Finset.add_sum_erase _ _ hmem, ← Finset.add_sum_erase _ _ hmem,
    Finset.sum_congr rfl hrest, Function.update_self, h]
  omega

/-- An event is spent on one task. -/
theorem spent_step {run run' : Run τ} {event : Event τ} (hsound : Sound plan run)
    (h : step plan run event = some run') : spent run' = spent run + 1 := by
  rcases step_cases plan h with ⟨task, -, hstatus, -, rfl⟩ | ⟨task, ok, -, hstatus, rfl⟩ |
    ⟨task, -, hstatus, -, rfl⟩
  · apply spent_update
    rcases hstatus with hstatus | hstatus <;> simp only [Instance.spent, hstatus] <;> omega
  · apply spent_update
    have hone := (hsound.tasks task).tried (by simp [hstatus]) (by simp [hstatus])
    cases ok with
    | true =>
        simp only [Instance.spent, hstatus, if_true]
        omega
    | false =>
        simp only [Instance.spent, hstatus, Bool.false_eq_true, if_false, afterFailure]
        split_ifs <;> dsimp only <;> omega
  · apply spent_update
    simp only [Instance.spent, hstatus]

theorem length_eq_spent {run : Run τ} {events : List (Event τ)}
    (h : steps plan .initial events = some run) : events.length = spent run := by
  induction events using List.reverseRecOn generalizing run with
  | nil =>
      cases h
      exact spent_initial.symm
  | append_singleton rest event ih =>
      obtain ⟨middle, hmiddle, hlast⟩ := steps_snoc plan h
      have hsound := sound_steps plan (sound_initial plan) hmiddle
      rw [List.length_append, ih hmiddle, spent_step plan hsound hlast]
      rfl

/-- A run ends: two events for every attempt are all there can be. -/
theorem length_le {run : Run τ} {events : List (Event τ)}
    (h : steps plan .initial events = some run) :
    events.length ≤ 2 * (plan.retries + 1) * Fintype.card τ := by
  have hsound := sound_steps plan (sound_initial plan) h
  calc events.length = ∑ task, (run task).spent := length_eq_spent plan h
    _ ≤ ∑ _task : τ, 2 * (plan.retries + 1) :=
      Finset.sum_le_sum fun task _ => Instance.spent_le (hsound.tasks task)
    _ = 2 * (plan.retries + 1) * Fintype.card τ := by
      rw [Finset.sum_const, smul_eq_mul, Finset.card_univ, Nat.mul_comm]

end Length

section Stuck

variable (hwf : WellFounded fun before task => before ∈ plan.upstream task) {run : Run τ}
  (hsound : Sound plan run) (hstuck : ∀ event, step plan run event = none)

include hwf hsound hstuck

/-- A run that can go no further has settled every task, when no task comes before
itself. -/
theorem settled_of_stuck (task : τ) : (run task).status.settled = true := by
  induction task using hwf.induction with
  | _ task ih =>
      have hupstream : Ready plan run task ∨ Blocked plan run task := by
        by_cases hready : Ready plan run task
        · exact Or.inl hready
        · right
          unfold Ready at hready
          push Not at hready
          obtain ⟨before, hbefore, hne⟩ := hready
          have hdone := ih before hbefore
          refine ⟨before, hbefore, ?_⟩
          cases hstatus : (run before).status <;> rw [hstatus] at hdone hne
          case success => exact absurd rfl hne
          case failed => exact Or.inl rfl
          case upstreamFailed => exact Or.inr rfl
          all_goals cases hdone
      have hstart := hstuck (.start task)
      have hfinish := hstuck (.finish task true)
      have hgiveUp := hstuck (.giveUp task)
      simp only [step, ite_eq_right_iff, reduceCtorEq, imp_false, not_and] at hstart hfinish hgiveUp
      cases hstatus : (run task).status with
      | waiting =>
          rcases hupstream with hready | hblocked
          · exact absurd hready (hstart (Or.inl hstatus))
          · exact absurd hblocked (hgiveUp hstatus)
      | running => exact absurd hstatus hfinish
      | upForRetry =>
          have hone := (hsound.tasks task).tried (by simp [hstatus]) (by simp [hstatus])
          exact absurd (hsound.begun task hone) (hstart (Or.inr hstatus))
      | success => rfl
      | failed => rfl
      | upstreamFailed => rfl

/-- A run that can go no further has succeeded in all of its tasks, or some task
that could be started has failed in every one of its tries. -/
theorem success_or_failed_of_stuck :
    (∀ task, (run task).status = .success) ∨
      ∃ task, (run task).status = .failed ∧ (run task).tries = plan.retries + 1 := by
  by_cases hall : ∀ task, (run task).status = .success
  · exact Or.inl hall
  · right
    push Not at hall
    -- the first task on its way that has not succeeded
    obtain ⟨task, hne, hfirst⟩ := hwf.has_min {task | (run task).status ≠ .success} hall
    have hready : Ready plan run task := by
      intro before hbefore
      by_contra hnot
      exact hfirst before hnot hbefore
    refine ⟨task, ?_⟩
    have hdone := settled_of_stuck plan hwf hsound hstuck task
    cases hstatus : (run task).status <;> rw [hstatus] at hdone
    case success => exact absurd hstatus hne
    case failed => exact ⟨rfl, (hsound.tasks task).exhausted hstatus⟩
    case upstreamFailed =>
      obtain ⟨before, hbefore, hfailed⟩ := hsound.blocked task hstatus
      rw [hready before hbefore] at hfailed
      rcases hfailed with hfailed | hfailed <;> cases hfailed
    all_goals cases hdone

end Stuck

end TaskGraph
