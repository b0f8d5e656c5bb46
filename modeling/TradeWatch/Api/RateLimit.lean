import TradeWatch.Api.Security
import TradeWatch.Lib.SlidingWindow
import TradeWatch.Lib.Suffix

/-!
The rate limiter against the limit it stands for. For each client the limiter
only keeps the hits it has not yet dropped as too old. While the clock does not
run backwards these are all the hits that can still count, so every call is
answered as if all earlier calls were remembered.
-/

namespace TradeWatch.RateLimiter

open Transducer SlidingWindow

/-- One call, by a client and at a time. -/
def step (limiter : RateLimiter) (c : String × ℚ) : Bool × RateLimiter := limiter.allow c.1 c.2

/-- The hits that `allow` has on its books for a client. -/
def held (limiter : RateLimiter) (key : String) : List ℚ := (limiter.hits.get? key).getD []

/-- The times at which calls of `key` passed. -/
def times (passed : List (String × ℚ)) (key : String) : List ℚ :=
  (passed.filter (fun c => c.1 = key)).map Prod.snd

/-- Up to the time `now` the calls `passed` were let through, and of those the
limiter still holds all from some time on that is at least a minute ago. -/
structure Tracks (limit : ℤ) (limiter : RateLimiter) (passed : List (String × ℚ)) (now : ℚ) :
    Prop where
  perMinute : limiter.perMinute = limit
  past : ∀ c ∈ passed, c.2 ≤ now
  order : InTimeOrder passed
  hits : ∀ key, ∃ cutoff ≤ now - 60,
    limiter.held key = (times passed key).filter (fun hit => cutoff ≤ hit)

theorem tracks_init (limit : ℤ) (now : ℚ) : Tracks limit (init limit) [] now := by
  refine ⟨rfl, by simp, List.Pairwise.nil, ?_⟩
  intro key
  exact ⟨now - 60, le_rfl, rfl⟩

theorem times_sorted {passed : List (String × ℚ)} (h : InTimeOrder passed) (key : String) :
    (times passed key).Pairwise (· ≤ ·) :=
  List.pairwise_map.mpr (List.Pairwise.sublist List.filter_sublist h)

theorem length_filter_times {passed : List (String × ℚ)} {now : ℚ} (hpast : ∀ c ∈ passed, c.2 ≤ now)
    (key : String) (cutoff : ℚ) :
    ((times passed key).filter (fun hit => cutoff ≤ hit)).length =
      within passed key cutoff now := by
  rw [times, List.filter_map, List.length_map, List.filter_filter, ← List.countP_eq_length_filter,
    within]
  apply List.countP_congr
  intro c hc
  have hle := hpast c hc
  simp only [Function.comp_apply, Bool.and_eq_true, decide_eq_true_eq]
  tauto

section Step

variable {limit : ℤ} {limiter : RateLimiter} {passed : List (String × ℚ)} {now : ℚ}

/-- What is left once the hits of more than a minute ago are dropped. -/
theorem Tracks.dropWhile_held (h : Tracks limit limiter passed now) {t : ℚ} (ht : now ≤ t)
    (key : String) :
    (limiter.held key).dropWhile (fun hit => hit < t - 60) =
      (times passed key).filter (fun hit => t - 60 ≤ hit) := by
  obtain ⟨cutoff, hcutoff, hheld⟩ := h.hits key
  have hsettles : Suffix.Settles (fun hit : ℚ => decide (t - 60 ≤ hit)) (limiter.held key) := by
    rw [hheld]
    refine (List.Pairwise.sublist List.filter_sublist (times_sorted h.order key)).imp ?_
    intro a b hab ha
    simp only [decide_eq_true_eq] at ha ⊢
    exact ha.trans hab
  have hdrop : (fun hit : ℚ => decide (hit < t - 60)) = fun hit => !decide (t - 60 ≤ hit) := by
    funext hit
    simp [← not_le]
  rw [hdrop, hsettles.dropWhile_eq_filter, hheld, List.filter_filter]
  apply List.filter_congr
  intro hit _
  simp only [Bool.and_eq_left_iff_imp, decide_eq_true_eq]
  intro hyoung
  linarith

/-- What the limiter holds for a client after a call. -/
theorem Tracks.held_step (hlimit : 0 < limit) (h : Tracks limit limiter passed now)
    (key : String) {t : ℚ} (ht : now ≤ t) :
    (limiter.allow key t).1 = (call 60 limit passed (key, t)).1 ∧
      (limiter.allow key t).2.held key =
        (times (call 60 limit passed (key, t)).2 key).filter (fun hit => t - 60 ≤ hit) := by
  have hdrop := h.dropWhile_held ht key
  have hlength := length_filter_times (fun c hc => (h.past c hc).trans ht) key (t - 60)
  have hon : ¬ limiter.perMinute ≤ 0 := by
    rw [h.perMinute]
    omega
  rw [held] at hdrop
  unfold allow call
  rw [if_neg hon]
  dsimp only
  rw [hdrop, hlength, h.perMinute]
  by_cases hroom : (within passed key (t - 60) t : ℤ) < limit
  · rw [if_neg (not_le.mpr hroom), if_pos hroom]
    refine ⟨rfl, ?_⟩
    simp [held, times]
  · rw [if_pos (not_lt.mp hroom), if_neg hroom]
    refine ⟨rfl, ?_⟩
    simp [held]

/-- One call: the limiter and the definition give the same answer, and the limiter
keeps track. -/
theorem Tracks.step (hlimit : 0 < limit) (h : Tracks limit limiter passed now)
    (c : String × ℚ) (hc : now ≤ c.2) :
    (limiter.step c).1 = (call 60 limit passed c).1 ∧
      Tracks limit (limiter.step c).2 (call 60 limit passed c).2 c.2 := by
  obtain ⟨key, t⟩ := c
  obtain ⟨hanswer, hheld⟩ := h.held_step hlimit key hc
  have hpast : ∀ p ∈ passed, p.2 ≤ t := fun p hp => (h.past p hp).trans hc
  refine ⟨hanswer, ?_, ?_, ?_, ?_⟩
  · exact (limiter.allow_perMinute key t).trans h.perMinute
  · unfold call
    split_ifs
    · simpa [or_imp, forall_and] using hpast
    · exact hpast
  · unfold call
    split_ifs
    · exact List.pairwise_append.mpr ⟨h.order, List.pairwise_singleton _ _, by simpa using hpast⟩
    · exact h.order
  · intro other
    rcases eq_or_ne other key with rfl | hother
    · exact ⟨t - 60, le_rfl, hheld⟩
    · obtain ⟨cutoff, hcutoff, hbefore⟩ := h.hits other
      have htimes : times (call 60 limit passed (key, t)).2 other = times passed other := by
        unfold call times
        split_ifs <;> simp [hother.symm]
      refine ⟨cutoff, hcutoff.trans (by linarith), ?_⟩
      rw [htimes, ← hbefore]
      exact congrArg (·.getD []) (limiter.allow_hits_ne hother t)

end Step

/-- On calls in time order the limiter is the limit it stands for. -/
theorem trace_eq {limit : ℤ} (hlimit : 0 < limit) {limiter : RateLimiter}
    {passed calls : List (String × ℚ)} {now : ℚ} (h : Tracks limit limiter passed now)
    (hnow : ∀ c ∈ calls, now ≤ c.2) (horder : InTimeOrder calls) :
    trace step limiter calls = trace (call 60 limit) passed calls := by
  induction calls generalizing limiter passed now with
  | nil => rfl
  | cons c rest ih =>
      obtain ⟨hc, hrest⟩ := List.pairwise_cons.mp horder
      obtain ⟨hanswer, hnext⟩ := h.step hlimit c (hnow c List.mem_cons_self)
      rw [trace_cons, trace_cons, hanswer, ih hnext hc hrest]

/-- From the start. -/
theorem trace_init_eq {limit : ℤ} (hlimit : 0 < limit) {calls : List (String × ℚ)}
    (horder : InTimeOrder calls) :
    trace step (init limit) calls = trace (call 60 limit) [] calls := by
  cases calls with
  | nil => rfl
  | cons c rest =>
      obtain ⟨hc, _⟩ := List.pairwise_cons.mp horder
      apply trace_eq hlimit (tracks_init limit c.2) _ horder
      simpa using fun key t hmem => hc (key, t) hmem

/-- From any point of the run on. -/
theorem trace_final_eq {limit : ℤ} (hlimit : 0 < limit) {before after : List (String × ℚ)}
    (horder : InTimeOrder (before ++ after)) :
    trace step (final step (init limit) before) after =
      trace (call 60 limit) (final (call 60 limit) [] before) after := by
  have hboth := trace_init_eq hlimit horder
  have hbefore := trace_init_eq hlimit (List.pairwise_append.mp horder).1
  rwa [trace_append, trace_append, hbefore, List.append_cancel_left_eq] at hboth

/-- The limit is exact: a call passes if fewer than `limit` calls of its key passed
in the minute up to it, no closed minute holds more passes of a key than that, what
comes after a refused call is answered as if that had not been made, and no key is
answered otherwise than it would be alone. -/
theorem exact_sliding_window (limit : ℤ) (hlimit : 0 < limit) (calls : List (String × ℚ))
    (horder : InTimeOrder calls) :
    let run := trace step (init limit)
    (∀ before key t after, calls = before ++ (key, t) :: after →
        (((final step (init limit) before).allow key t).1 = true ↔
          within (passes (run before)) key (t - 60) t < limit)) ∧
      (∀ key lo, within (passes (run calls)) key lo (lo + 60) ≤ limit) ∧
      (∀ before refused after, calls = before ++ refused :: after →
        ((final step (init limit) before).step refused).1 = false →
          run calls = run before ++ (refused, false) ::
            trace step (final step (init limit) before) after) ∧
      ∀ key, (run calls).filter (fun entry => entry.1.1 = key) =
        run (calls.filter (fun c => c.1 = key)) := by
  intro run
  have hpasses : ∀ {calls}, InTimeOrder calls →
      passes (run calls) = final (call 60 limit) [] calls := by
    intro calls horder
    rw [final_call, List.nil_append, ← trace_init_eq hlimit horder]
  refine ⟨?_, ?_, ?_, ?_⟩
  · rintro before key t after rfl
    have hbefore := (List.pairwise_append.mp horder).1
    have hrest := trace_final_eq hlimit horder
    rw [trace_cons, trace_cons] at hrest
    have hanswer : ((final step (init limit) before).allow key t).1 =
        (call 60 limit (final (call 60 limit) [] before) (key, t)).1 :=
      congrArg Prod.snd (List.cons.inj hrest).1
    rw [hanswer, call_fst_iff, hpasses hbefore]
  · intro key lo
    rw [hpasses horder]
    exact within_le 60 hlimit.le horder key lo
  · rintro before refused after rfl hrefused
    have hwith := trace_final_eq hlimit horder
    have hwithout := trace_final_eq hlimit horder.erase
    rw [trace_cons, trace_cons] at hwith
    obtain ⟨hentry, hafter⟩ := List.cons.inj hwith
    have hanswer : (call 60 limit (final (call 60 limit) [] before) refused).1 = false :=
      (congrArg Prod.snd hentry).symm.trans hrefused
    have hkept : (call 60 limit (final (call 60 limit) [] before) refused).2 =
        final (call 60 limit) [] before := by
      rw [call_snd, hanswer]
      simp [passes]
    rw [hkept, ← hwithout] at hafter
    change trace step _ _ = _
    rw [trace_append, trace_cons, hrefused, hafter]
  · intro key
    have hkey := List.Pairwise.sublist (List.filter_sublist (p := fun c => c.1 = key)) horder
    change (trace step _ _).filter _ = trace step _ _
    rw [trace_init_eq hlimit horder, trace_init_eq hlimit hkey, trace_filter_key]
    rfl

/-- A hit of exactly a minute ago still counts. -/
theorem exact_sliding_window_at_a_minute :
    ((final step (init 1) [("a", 0), ("b", 60)]).allow "a" 60).1 = false := by
  have horder : InTimeOrder [(("a", 0) : String × ℚ), ("b", 60), ("a", 60)] := by
    simp [InTimeOrder]
  obtain ⟨hwindow, _⟩ := exact_sliding_window 1 (by decide) _ horder
  have hlast := hwindow [("a", 0), ("b", 60)] "a" 60 [] rfl
  rw [Bool.eq_false_iff, ne_eq, hlast]
  decide +kernel

end TradeWatch.RateLimiter
