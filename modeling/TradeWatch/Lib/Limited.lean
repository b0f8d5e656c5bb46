import TradeWatch.Lib.Returns

/-!
Total correctness of methods that may run into a limit. Next to the real method
stands an ideal one, which knows no limit. `Meets` says that the ideal method
returns with a property, that the real one does the very same as long as the state
it ends in is within the limit, and that otherwise it raises. A state beyond the
limit is only reached by crossing it, so the rules are those of an ordinary
weakest precondition.
-/

namespace StateExcept

/-- Where a method may go, and what it raises when it goes further. -/
structure Limit (σ ε : Type) where
  within : σ → Prop
  err : ε

variable {σ ε α β : Type} {limit : Limit σ ε}

/-- What the ideal method returns is returned within the limit, and an exception is
raised beyond it. -/
structure Limited (limit : Limit σ ε) (real : Except ε (α × σ)) (x : α) (s : σ) : Prop where
  within : limit.within s → real = .ok (x, s)
  beyond : ¬ limit.within s → real = .error limit.err

def Meets (limit : Limit σ ε) (ideal real : StateT σ (Except ε) α) (s : σ)
    (post : α → σ → Prop) : Prop :=
  ∃ x s', ideal s = .ok (x, s') ∧ post x s' ∧ (limit.within s' → limit.within s) ∧
    (limit.within s → Limited limit (real s) x s')

namespace Meets

variable {ideal real : StateT σ (Except ε) α} {next next' : α → StateT σ (Except ε) β} {s : σ}

/-- A method that the limit does not touch. -/
theorem same {action : StateT σ (Except ε) α} {post : α → σ → Prop} {x : α} {s' : σ}
    (hrun : action s = .ok (x, s')) (hwithin : limit.within s' ↔ limit.within s)
    (hpost : post x s') : Meets limit action action s post := by
  refine ⟨x, s', hrun, hpost, hwithin.mp, ?_⟩
  intro hs
  exact ⟨fun _ => hrun, fun hbeyond => absurd (hwithin.mpr hs) hbeyond⟩

theorem pure {x : α} {post : α → σ → Prop} (h : post x s) :
    Meets limit (Pure.pure x) (Pure.pure x) s post :=
  same rfl Iff.rfl h

theorem mono {post post' : α → σ → Prop} (h : Meets limit ideal real s post)
    (himp : ∀ x s', post x s' → post' x s') : Meets limit ideal real s post' := by
  obtain ⟨x, s', hrun, hpost, hback, hreal⟩ := h
  exact ⟨x, s', hrun, himp x s' hpost, hback, hreal⟩

/-- Where the first method leaves the limit, so does the whole. -/
theorem bind {mid : α → σ → Prop} {post : β → σ → Prop} (h : Meets limit ideal real s mid)
    (hnext : ∀ x s', mid x s' → Meets limit (next x) (next' x) s' post) :
    Meets limit (ideal >>= next) (real >>= next') s post := by
  obtain ⟨x, s', hrun, hmid, hback, hreal⟩ := h
  obtain ⟨y, s'', hrun', hpost, hback', hreal'⟩ := hnext x s' hmid
  refine ⟨y, s'', ?_, hpost, hback ∘ hback', ?_⟩
  · rw [bind_apply, hrun]
    exact hrun'
  · intro hs
    by_cases hmiddle : limit.within s'
    · rw [bind_apply, (hreal hs).within hmiddle]
      exact hreal' hmiddle
    · have hend : ¬ limit.within s'' := fun hwithin => hmiddle (hback' hwithin)
      rw [bind_apply, (hreal hs).beyond hmiddle]
      exact ⟨fun hwithin => absurd hwithin hend, fun _ => rfl⟩

theorem get_bind {next next' : σ → StateT σ (Except ε) β} {post : β → σ → Prop}
    (h : Meets limit (next s) (next' s) s post) :
    Meets limit (get >>= next) (get >>= next') s post := by
  have hget : Meets limit (get : StateT σ (Except ε) σ) get s (fun x s' => x = s ∧ s' = s) :=
    same rfl Iff.rfl ⟨rfl, rfl⟩
  refine hget.bind ?_
  rintro x s' ⟨rfl, rfl⟩
  exact h

theorem ite {p : Prop} [Decidable p] {post : α → σ → Prop}
    {first first' second second' : StateT σ (Except ε) α}
    (hfirst : Meets limit first first' s post) (hsecond : Meets limit second second' s post) :
    Meets limit (if p then first else second) (if p then first' else second') s post := by
  split
  · exact hfirst
  · exact hsecond

/-- What is known of every result of the ideal method. -/
theorem and_returns {post : α → σ → Prop} {also : α → Prop} (h : Meets limit ideal real s post)
    (hreturns : Returns ideal also) :
    Meets limit ideal real s (fun x s' => post x s' ∧ also x) := by
  obtain ⟨x, s', hrun, hpost, hback, hreal⟩ := h
  exact ⟨x, s', hrun, ⟨hpost, hreturns s (x, s') hrun⟩, hback, hreal⟩

end Meets

end StateExcept
