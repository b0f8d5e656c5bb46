import TradeWatch.Lib.Returns

/-!
Triples of methods that change a state. `Keeps` asks that an invariant survives;
`Ensures` says of the state at the end whatever the state at the start decides.
-/

namespace StateExcept

variable {σ ε α β : Type}

/-- From a state with `pre`, what `action` returns and the state it ends in have `post`. -/
def Ensures (pre : σ → Prop) (action : StateT σ (Except ε) α) (post : α → σ → Prop) : Prop :=
  ∀ s result, pre s → action s = .ok result → post result.1 result.2

namespace Ensures

variable {pre : σ → Prop} {action : StateT σ (Except ε) α}
  {next : α → StateT σ (Except ε) β} {post : β → σ → Prop}

theorem pure {x : β} (h : ∀ s, pre s → post x s) :
    Ensures pre (Pure.pure x : StateT σ (Except ε) β) post := by
  intro s result hs hresult
  cases hresult
  exact h s hs

theorem throw (err : ε) (post : β → σ → Prop) :
    Ensures pre (MonadExcept.throw err : StateT σ (Except ε) β) post := by
  intro s result hs hresult
  cases hresult

theorem get : Ensures pre (MonadState.get : StateT σ (Except ε) σ) (fun x s => x = s ∧ pre s) := by
  intro s result hs hresult
  cases hresult
  exact ⟨rfl, hs⟩

theorem update {f : σ → σ} {after : σ → Prop} (h : ∀ s, pre s → after (f s)) :
    Ensures pre (modify f : StateT σ (Except ε) PUnit) (fun _ s => after s) := by
  intro s result hs hresult
  cases hresult
  exact h s hs

theorem bind {mid : α → σ → Prop} (haction : Ensures pre action mid)
    (hnext : ∀ x, Ensures (mid x) (next x) post) : Ensures pre (action >>= next) post := by
  intro s result hs hresult
  rw [bind_apply] at hresult
  cases hrun : action s with
  | error err =>
      rw [hrun] at hresult
      cases hresult
  | ok middle =>
      obtain ⟨x, s'⟩ := middle
      rw [hrun] at hresult
      exact hnext x s' result (haction s (x, s') hs hrun) hresult

theorem mono {pre' : σ → Prop} {mid post' : α → σ → Prop} (h : Ensures pre action mid)
    (hpre : ∀ s, pre' s → pre s) (hpost : ∀ x s, mid x s → post' x s) :
    Ensures pre' action post' :=
  fun s result hs hresult => hpost _ _ (h s result (hpre s hs) hresult)

theorem and {mid post' : α → σ → Prop} (h : Ensures pre action mid)
    (h' : Ensures pre action post') : Ensures pre action (fun x s => mid x s ∧ post' x s) :=
  fun s result hs hresult => ⟨h s result hs hresult, h' s result hs hresult⟩

/-- The state at the start has a name. -/
theorem named {post : α → σ → Prop} (h : ∀ s₀, pre s₀ → Ensures (· = s₀) action post) :
    Ensures pre action post :=
  fun s result hs hresult => h s hs s result rfl hresult

/-- A precondition that says nothing of the state is assumed. -/
theorem assume {p : Prop} {post : α → σ → Prop} (h : p → Ensures pre action post) :
    Ensures (fun s => pre s ∧ p) action post :=
  fun s result hs hresult => h hs.2 s result hs.1 hresult

theorem ite {p : Prop} [Decidable p] {first second : StateT σ (Except ε) β}
    (hfirst : Ensures pre first post) (hsecond : Ensures pre second post) :
    Ensures pre (if p then first else second) post := by
  split
  · exact hfirst
  · exact hsecond

end Ensures

/-- A method that keeps the precondition. -/
theorem Keeps.followed {inv : σ → Prop} {action : StateT σ (Except ε) α} {mid : α → Prop}
    (haction : Keeps inv action mid) {next : α → StateT σ (Except ε) β} {post : β → σ → Prop}
    (hnext : ∀ x, mid x → Ensures inv (next x) post) : Ensures inv (action >>= next) post := by
  have htriple : Ensures inv action (fun x s => inv s ∧ mid x) := haction
  refine htriple.bind fun x => ?_
  intro s result hs hresult
  exact hnext x hs.2 s result hs.1 hresult

theorem Returns.ensures {pre : σ → Prop} {action : StateT σ (Except ε) α} {post : α → Prop}
    (h : Returns action post) : Ensures pre action (fun x _ => post x) :=
  fun s result _ hresult => h s result hresult

theorem Keeps.ensures {inv : σ → Prop} {action : StateT σ (Except ε) α} {post : α → Prop}
    (h : Keeps inv action post) : Ensures inv action (fun x _ => post x) :=
  fun s result hs hresult => (h s result hs hresult).2

end StateExcept
