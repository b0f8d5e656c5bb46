import Mathlib.Data.List.Basic
import Mathlib.Tactic

/-!
Runs of a deterministic machine that answers every input with an output. A
step returns the output and the next state. The rules below are the ways a
development reasons about runs of any length: splitting a run at an input,
carrying an invariant that may mention the whole log, and relating two runs
one of which only sees the inputs that pass a filter.
-/

namespace Transducer

variable {σ τ ι ω ω' α : Type*}

section Run

variable (step : σ → ι → ω × σ)

/-- The state after all inputs. -/
def final (start : σ) (inputs : List ι) : σ :=
  inputs.foldl (fun s i => (step s i).2) start

/-- Every input with the output it was answered by, in order. -/
def trace : σ → List ι → List (ι × ω)
  | _, [] => []
  | s, i :: rest => (i, (step s i).1) :: trace (step s i).2 rest

/-- Every step of the run is taken in a state and with an input that `guard`
allows. -/
def Along (guard : σ → ι → Prop) (start : σ) (inputs : List ι) : Prop :=
  ∀ before i after, inputs = before ++ i :: after → guard (final step start before) i

/-- What `observe` sees at each step of the run, in order. -/
def gather (observe : σ → ι → List α) : σ → List ι → List α
  | _, [] => []
  | s, i :: rest => observe s i ++ gather observe (step s i).2 rest

@[simp] theorem final_nil (s : σ) : final step s [] = s := rfl

@[simp] theorem final_cons (s : σ) (i : ι) (rest : List ι) :
    final step s (i :: rest) = final step (step s i).2 rest := rfl

@[simp] theorem final_append (s : σ) (first second : List ι) :
    final step s (first ++ second) = final step (final step s first) second := by
  simp [final]

@[simp] theorem trace_nil (s : σ) : trace step s [] = [] := rfl

@[simp] theorem trace_cons (s : σ) (i : ι) (rest : List ι) :
    trace step s (i :: rest) = (i, (step s i).1) :: trace step (step s i).2 rest := rfl

@[simp] theorem trace_append (s : σ) (first second : List ι) :
    trace step s (first ++ second) =
      trace step s first ++ trace step (final step s first) second := by
  induction first generalizing s with
  | nil => rfl
  | cons i rest ih => simp [ih]

@[simp] theorem gather_nil (observe : σ → ι → List α) (s : σ) : gather step observe s [] = [] :=
  rfl

@[simp] theorem gather_append (observe : σ → ι → List α) (s : σ) (first second : List ι) :
    gather step observe s (first ++ second) =
      gather step observe s first ++ gather step observe (final step s first) second := by
  induction first generalizing s with
  | nil => rfl
  | cons i rest ih => simp [gather, ih]

@[simp] theorem gather_singleton (observe : σ → ι → List α) (s : σ) (i : ι) :
    gather step observe s [i] = observe s i := by
  simp [gather]

/-- The log lists the inputs in order, so nothing is skipped or repeated. -/
@[simp] theorem trace_inputs (s : σ) (inputs : List ι) :
    (trace step s inputs).map Prod.fst = inputs := by
  induction inputs generalizing s with
  | nil => rfl
  | cons i rest ih => simp [ih]

/-- An entry of the log is a step of the run taken after some prefix. -/
theorem mem_trace_iff (s : σ) (inputs : List ι) (i : ι) (o : ω) :
    (i, o) ∈ trace step s inputs ↔
      ∃ before after, inputs = before ++ i :: after ∧
        o = (step (final step s before) i).1 := by
  induction inputs generalizing s with
  | nil => simp
  | cons j rest ih =>
      rw [trace_cons, List.mem_cons, ih]
      constructor
      · rintro (heq | ⟨before, after, rfl, rfl⟩)
        · obtain ⟨rfl, rfl⟩ := Prod.mk.inj heq
          exact ⟨[], rest, rfl, rfl⟩
        · exact ⟨j :: before, after, rfl, rfl⟩
      · rintro ⟨before, after, hsplit, rfl⟩
        cases before with
        | nil =>
            obtain ⟨rfl, rfl⟩ := List.cons.inj hsplit
            exact Or.inl rfl
        | cons k before =>
            obtain ⟨rfl, rfl⟩ := List.cons.inj hsplit
            exact Or.inr ⟨before, after, rfl, rfl⟩

theorem along_nil (guard : σ → ι → Prop) (s : σ) : Along step guard s [] := by
  intro before i after h
  simp at h

theorem along_cons_iff {guard : σ → ι → Prop} {s : σ} {i : ι} {rest : List ι} :
    Along step guard s (i :: rest) ↔ guard s i ∧ Along step guard (step s i).2 rest := by
  constructor
  · intro h
    refine ⟨h [] i rest rfl, ?_⟩
    rintro before j after rfl
    exact h (i :: before) j after rfl
  · rintro ⟨hi, hrest⟩ before j after hsplit
    cases before with
    | nil =>
        obtain ⟨rfl, _⟩ := List.cons.inj hsplit
        exact hi
    | cons k before =>
        obtain ⟨rfl, htail⟩ := List.cons.inj hsplit
        exact hrest before j after htail

theorem along_cons {guard : σ → ι → Prop} {s : σ} {i : ι} {rest : List ι} (hi : guard s i)
    (hrest : Along step guard (step s i).2 rest) : Along step guard s (i :: rest) :=
  (along_cons_iff step).mpr ⟨hi, hrest⟩

theorem along_snoc {guard : σ → ι → Prop} {s : σ} {inputs : List ι} {i : ι}
    (h : Along step guard s (inputs ++ [i])) :
    Along step guard s inputs ∧ guard (final step s inputs) i := by
  constructor
  · rintro before j after rfl
    exact h before j (after ++ [i]) (by simp)
  · exact h inputs i [] rfl

/-- The invariant rule of a run whose steps meet `guard`. The invariant may
speak about the log so far, so it can relate the state to the whole history. -/
theorem history_along {P : List (ι × ω) → σ → Prop} (guard : σ → ι → Prop)
    {start : σ} (hstart : P [] start)
    (hstep : ∀ log s i, guard s i → P log s →
      P (log ++ [(i, (step s i).1)]) (step s i).2)
    (inputs : List ι) (hguard : Along step guard start inputs) :
    P (trace step start inputs) (final step start inputs) := by
  induction inputs using List.reverseRecOn with
  | nil => exact hstart
  | append_singleton rest i ih =>
      obtain ⟨hrest, hi⟩ := along_snoc step hguard
      simpa using hstep _ _ i hi (ih hrest)

/-- The invariant rule of an arbitrary run. -/
theorem history {P : List (ι × ω) → σ → Prop} {start : σ} (hstart : P [] start)
    (hstep : ∀ log s i, P log s → P (log ++ [(i, (step s i).1)]) (step s i).2)
    (inputs : List ι) : P (trace step start inputs) (final step start inputs) :=
  history_along step (fun _ _ => True) hstart
    (fun log s i _ h => hstep log s i h) inputs (fun _ _ _ _ => trivial)

/-- The invariant rule for a property of the state alone. -/
theorem final_invariant {P : σ → Prop} {start : σ} (hstart : P start)
    (hstep : ∀ s i, P s → P (step s i).2) (inputs : List ι) :
    P (final step start inputs) :=
  history step (P := fun _ s => P s) hstart (fun _ s i h => hstep s i h) inputs

/-- A view that every step turns into the next one, where an invariant holds, is
turned by a run into what the same inputs make of it. -/
theorem final_view {P : σ → Prop} (view : σ → τ) (stepView : τ → ι → τ)
    (hstep : ∀ s i, P s → P (step s i).2 ∧ view (step s i).2 = stepView (view s) i)
    {start : σ} (hstart : P start) (inputs : List ι) :
    view (final step start inputs) = inputs.foldl stepView (view start) := by
  induction inputs generalizing start with
  | nil => rfl
  | cons i rest ih =>
      obtain ⟨hnext, hview⟩ := hstep start i hstart
      rw [final_cons, ih hnext, hview, List.foldl_cons]

/-- Two guards that agree where an invariant holds, which either of them keeps,
allow the same runs. -/
theorem along_congr {guard guard' : σ → ι → Prop} {P : σ → Prop}
    (hiff : ∀ s i, P s → (guard s i ↔ guard' s i))
    (hstep : ∀ s i, P s → guard s i → P (step s i).2) {start : σ} (hstart : P start)
    (inputs : List ι) : Along step guard start inputs ↔ Along step guard' start inputs := by
  induction inputs generalizing start with
  | nil => exact iff_of_true (along_nil step guard start) (along_nil step guard' start)
  | cons i rest ih =>
      rw [along_cons_iff, along_cons_iff, ← hiff start i hstart]
      constructor
      · rintro ⟨hi, hrest⟩
        exact ⟨hi, (ih (hstep start i hstart hi)).mp hrest⟩
      · rintro ⟨hi, hrest⟩
        exact ⟨hi, (ih (hstep start i hstart hi)).mpr hrest⟩

end Run

/-- Two machines in lockstep on the visible inputs: where the first machine's
other steps show nothing and leave the relation intact, it shows what the
second machine shows when that is fed the visible inputs alone. -/
theorem trace_flatMap_eq {step : σ → ι → ω × σ} {step' : τ → ι → ω' × τ}
    (related : σ → τ → Prop) (visible : ι → Bool) (view : ι → ω → List α)
    (view' : ι → ω' → List α)
    (hvisible : ∀ s t i, related s t → visible i = true →
      view i (step s i).1 = view' i (step' t i).1 ∧ related (step s i).2 (step' t i).2)
    (hhidden : ∀ s t i, related s t → visible i = false →
      view i (step s i).1 = [] ∧ related (step s i).2 t)
    (s : σ) (t : τ) (inputs : List ι) (h : related s t) :
    (trace step s inputs).flatMap (fun entry => view entry.1 entry.2) =
      (trace step' t (inputs.filter visible)).flatMap
        (fun entry => view' entry.1 entry.2) := by
  induction inputs generalizing s t with
  | nil => rfl
  | cons i rest ih =>
      cases hi : visible i with
      | true =>
          obtain ⟨hview, hnext⟩ := hvisible s t i h hi
          simp [hi, hview, ih _ _ hnext]
      | false =>
          obtain ⟨hview, hnext⟩ := hhidden s t i h hi
          simp [hi, hview, ih _ _ hnext]

/-- Two machines in lockstep, the second on a translation of the first's inputs:
where a step shows the same and keeps the relation, so does a run. -/
theorem trace_translated {ι' : Type*} {step : σ → ι → ω × σ} {step' : τ → ι' → ω' × τ}
    (related : σ → τ → Prop) (translate : ι → ι') (view : ω → α) (view' : ω' → α)
    (hstep : ∀ s t i, related s t → view (step s i).1 = view' (step' t (translate i)).1 ∧
      related (step s i).2 (step' t (translate i)).2)
    (s : σ) (t : τ) (inputs : List ι) (h : related s t) :
    (trace step s inputs).map (fun entry => view entry.2) =
        (trace step' t (inputs.map translate)).map (fun entry => view' entry.2) ∧
      related (final step s inputs) (final step' t (inputs.map translate)) := by
  induction inputs generalizing s t with
  | nil => exact ⟨rfl, h⟩
  | cons i rest ih =>
      obtain ⟨hview, hnext⟩ := hstep s t i h
      obtain ⟨hrest, hfinal⟩ := ih _ _ hnext
      exact ⟨by simp [hview, hrest], hfinal⟩

end Transducer
