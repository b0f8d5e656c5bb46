import Mathlib.Tactic

/-!
Partial correctness of methods that change a state and may raise. `Returns m p`
says that whatever `m` returns, from whatever state, has the property `p`; an
exception returns nothing. There is one rule for each way of building a method.
`Keeps` says so of the states in which an invariant holds, and that it is kept.
`Foretells` compares a method with another that only looks ahead.
-/

namespace StateExcept

variable {σ ε α β : Type}

def Returns (action : StateT σ (Except ε) α) (post : α → Prop) : Prop :=
  ∀ s result, action s = .ok result → post result.1

/-- A computation that returns has returned at every step. -/
theorem exists_of_bind_eq_ok {x : Except ε α} {next : α → Except ε β} {result : β}
    (h : x >>= next = .ok result) : ∃ a, x = .ok a ∧ next a = .ok result := by
  cases x with
  | error err => cases h
  | ok a => exact ⟨a, rfl, h⟩

/-- Answers that are collected have all returned. -/
theorem mapM_id_eq_ok_iff {answers : List (Except ε α)} {xs : List α} :
    answers.mapM id = .ok xs ↔ answers = xs.map .ok := by
  induction answers generalizing xs with
  | nil =>
      constructor
      · rintro h
        cases h
        rfl
      · intro h
        rw [List.map_eq_nil_iff.mp h.symm]
        rfl
  | cons answer rest ih =>
      rw [List.mapM_cons]
      constructor
      · intro h
        obtain ⟨x, hx, h⟩ := exists_of_bind_eq_ok h
        obtain ⟨ys, hys, h⟩ := exists_of_bind_eq_ok h
        cases h
        rw [id_eq] at hx
        rw [hx, ih.mp hys, List.map_cons]
      · intro h
        obtain ⟨x, ys, rfl, rfl, hys⟩ := List.map_eq_cons_iff.mp h.symm
        rw [ih.mpr hys.symm]
        rfl

theorem bind_apply (action : StateT σ (Except ε) α) (next : α → StateT σ (Except ε) β) (s : σ) :
    (action >>= next) s =
      match action s with
      | .error err => .error err
      | .ok (x, s) => next x s := by
  simp only [Bind.bind, StateT.bind]
  cases action s <;> rfl

theorem bind_of_ok {action : StateT σ (Except ε) α} {s s' : σ} {x : α}
    (h : action s = .ok (x, s')) (next : α → StateT σ (Except ε) β) :
    (action >>= next) s = next x s' := by
  rw [bind_apply, h]

namespace Returns

variable {action : StateT σ (Except ε) α} {next : α → StateT σ (Except ε) β} {post : β → Prop}

theorem pure {x : β} (h : post x) :
    Returns (Pure.pure x : StateT σ (Except ε) β) post := by
  intro s result hresult
  cases hresult
  exact h

theorem throw (err : ε) (post : β → Prop) :
    Returns (MonadExcept.throw err : StateT σ (Except ε) β) post := by
  intro s result hresult
  cases hresult

theorem bind {mid : α → Prop} (haction : Returns action mid)
    (hnext : ∀ x, mid x → Returns (next x) post) : Returns (action >>= next) post := by
  intro s result hresult
  rw [bind_apply] at hresult
  cases hrun : action s with
  | error err =>
      rw [hrun] at hresult
      cases hresult
  | ok middle =>
      obtain ⟨x, s'⟩ := middle
      rw [hrun] at hresult
      exact hnext x (haction s (x, s') hrun) s' result hresult

/-- Nothing is asked of what the first method returns. -/
theorem after (hnext : ∀ x, Returns (next x) post) : Returns (action >>= next) post := by
  have hany : Returns action (fun _ => True) := fun _ _ _ => trivial
  exact hany.bind (fun x _ => hnext x)

theorem mono {post' : β → Prop} {action : StateT σ (Except ε) β} (h : Returns action post)
    (himp : ∀ x, post x → post' x) : Returns action post' :=
  fun s result hresult => himp _ (h s result hresult)

theorem ite {p : Prop} [Decidable p] {first second : StateT σ (Except ε) β}
    (hfirst : Returns first post) (hsecond : Returns second post) :
    Returns (if p then first else second) post := by
  split
  · exact hfirst
  · exact hsecond

end Returns

/-- From a state in which `inv` holds, `action` returns to one in which it holds, and
what it returns has the property `post`. -/
def Keeps (inv : σ → Prop) (action : StateT σ (Except ε) α) (post : α → Prop) : Prop :=
  ∀ s result, inv s → action s = .ok result → inv result.2 ∧ post result.1

namespace Keeps

variable {inv : σ → Prop} {action : StateT σ (Except ε) α}
  {next : α → StateT σ (Except ε) β} {post : β → Prop}

theorem pure {x : β} (h : post x) :
    Keeps inv (Pure.pure x : StateT σ (Except ε) β) post := by
  intro s result hs hresult
  cases hresult
  exact ⟨hs, h⟩

theorem throw (err : ε) (post : β → Prop) :
    Keeps inv (MonadExcept.throw err : StateT σ (Except ε) β) post := by
  intro s result hs hresult
  cases hresult

/-- What reads the state finds the invariant. -/
theorem get : Keeps inv (MonadState.get : StateT σ (Except ε) σ) inv := by
  intro s result hs hresult
  cases hresult
  exact ⟨hs, hs⟩

theorem update {f : σ → σ} (h : ∀ s, inv s → inv (f s)) :
    Keeps inv (modify f : StateT σ (Except ε) PUnit) (fun _ => True) := by
  intro s result hs hresult
  cases hresult
  exact ⟨h s hs, trivial⟩

theorem bind {mid : α → Prop} (haction : Keeps inv action mid)
    (hnext : ∀ x, mid x → Keeps inv (next x) post) : Keeps inv (action >>= next) post := by
  intro s result hs hresult
  rw [bind_apply] at hresult
  cases hrun : action s with
  | error err =>
      rw [hrun] at hresult
      cases hresult
  | ok middle =>
      obtain ⟨x, s'⟩ := middle
      rw [hrun] at hresult
      obtain ⟨hs', hx⟩ := haction s (x, s') hs hrun
      exact hnext x hx s' result hs' hresult

/-- Nothing is asked of what the first method returns. -/
theorem after {mid : α → Prop} (haction : Keeps inv action mid)
    (hnext : ∀ x, Keeps inv (next x) post) : Keeps inv (action >>= next) post :=
  haction.bind (fun x _ => hnext x)

theorem mono {post' : α → Prop} {mid : α → Prop} (h : Keeps inv action mid)
    (himp : ∀ x, mid x → post' x) : Keeps inv action post' := by
  intro s result hs hresult
  obtain ⟨hs', hx⟩ := h s result hs hresult
  exact ⟨hs', himp _ hx⟩

/-- What an action returns from any state it returns from this one. -/
theorem and_returns {mid post' : α → Prop} (h : Keeps inv action mid)
    (hreturns : Returns action post') : Keeps inv action (fun x => mid x ∧ post' x) := by
  intro s result hs hresult
  obtain ⟨hs', hx⟩ := h s result hs hresult
  exact ⟨hs', hx, hreturns s result hresult⟩

theorem ite {p : Prop} [Decidable p] {first second : StateT σ (Except ε) β}
    (hfirst : Keeps inv first post) (hsecond : Keeps inv second post) :
    Keeps inv (if p then first else second) post := by
  split
  · exact hfirst
  · exact hsecond

end Keeps

/-- Where `action` returns, `peek` returns the measure of its result from the same
state. -/
def Foretells {γ : Type} (peek : StateT σ (Except ε) γ) (action : StateT σ (Except ε) β)
    (measure : β → γ) : Prop :=
  ∀ s result, action s = .ok result → ∃ s', peek s = .ok (measure result.1, s')

namespace Foretells

variable {γ : Type} {measure : β → γ}

/-- The look ahead is over: what is left to do has the measure that was seen. -/
theorem pure {action : StateT σ (Except ε) β} {seen : γ}
    (h : Returns action (fun result => measure result = seen)) :
    Foretells (Pure.pure seen) action measure := by
  intro s result hresult
  rw [h s result hresult]
  exact ⟨s, rfl⟩

theorem throw (peek : StateT σ (Except ε) γ) (err : ε) :
    Foretells peek (MonadExcept.throw err) measure := by
  intro s result hresult
  cases hresult

/-- Both begin alike. -/
theorem bind {first : StateT σ (Except ε) α} {peek : α → StateT σ (Except ε) γ}
    {next : α → StateT σ (Except ε) β} (h : ∀ x, Foretells (peek x) (next x) measure) :
    Foretells (first >>= peek) (first >>= next) measure := by
  intro s result hresult
  rw [bind_apply] at hresult ⊢
  cases hfirst : first s with
  | error err =>
      rw [hfirst] at hresult
      cases hresult
  | ok middle =>
      obtain ⟨x, s'⟩ := middle
      rw [hfirst] at hresult
      exact h x s' result hresult

/-- What follows keeps the measure. -/
theorem followed {peek : StateT σ (Except ε) γ} {action : StateT σ (Except ε) α}
    {next : α → StateT σ (Except ε) β} {before : α → γ} (h : Foretells peek action before)
    (hnext : ∀ x, Returns (next x) (fun result => measure result = before x)) :
    Foretells peek (action >>= next) measure := by
  intro s result hresult
  rw [bind_apply] at hresult
  cases haction : action s with
  | error err =>
      rw [haction] at hresult
      cases hresult
  | ok middle =>
      obtain ⟨x, s'⟩ := middle
      rw [haction] at hresult
      rw [hnext x s' result hresult]
      exact h s (x, s') haction

theorem ite {p : Prop} [Decidable p] {peek peek' : StateT σ (Except ε) γ}
    {action action' : StateT σ (Except ε) β} (h : Foretells peek action measure)
    (h' : Foretells peek' action' measure) :
    Foretells (if p then peek else peek') (if p then action else action') measure := by
  split
  · exact h
  · exact h'

end Foretells

end StateExcept
