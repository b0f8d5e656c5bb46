import TradeWatch.Lib.Transducer

/-!
A limit over a sliding span of time, by definition: a call passes if fewer than
`limit` calls of its key have passed in the closed span that ends at its own
time. The machine remembers every call that passed, so it says what a limiter is
for and not how one is built. While the times never decrease no closed span of
that length holds more than `limit` passes of a key, wherever it begins.
-/

namespace SlidingWindow

open Transducer

variable {κ T : Type*} [DecidableEq κ] [AddCommGroup T] [LinearOrder T]

/-- How many of the calls are of `key` and at times in `[lo, hi]`. -/
def within (calls : List (κ × T)) (key : κ) (lo hi : T) : ℕ :=
  calls.countP (fun c => c.1 = key ∧ lo ≤ c.2 ∧ c.2 ≤ hi)

/-- One call, after the calls that `passed`. -/
def call (span : T) (limit : ℤ) (passed : List (κ × T)) (c : κ × T) : Bool × List (κ × T) :=
  if within passed c.1 (c.2 - span) c.2 < limit then (true, passed ++ [c]) else (false, passed)

/-- The calls of a log that passed. -/
def passes (log : List ((κ × T) × Bool)) : List (κ × T) := (log.filter Prod.snd).map Prod.fst

/-- The times of the calls never decrease. -/
def InTimeOrder (calls : List (κ × T)) : Prop := calls.Pairwise (fun a b => a.2 ≤ b.2)

omit [DecidableEq κ] [AddCommGroup T] in
theorem InTimeOrder.erase {before after : List (κ × T)} {c : κ × T}
    (h : InTimeOrder (before ++ c :: after)) : InTimeOrder (before ++ after) :=
  List.Pairwise.sublist (List.Sublist.append_left (List.sublist_cons_self c after) before) h

variable (span : T) (limit : ℤ)

theorem call_fst_iff (passed : List (κ × T)) (c : κ × T) :
    (call span limit passed c).1 = true ↔ within passed c.1 (c.2 - span) c.2 < limit := by
  unfold call
  split_ifs with hroom <;> simp [hroom]

theorem call_snd (passed : List (κ × T)) (c : κ × T) :
    (call span limit passed c).2 = passed ++ passes [(c, (call span limit passed c).1)] := by
  unfold call passes
  split_ifs <;> simp

/-- The machine remembers what passed and nothing else. -/
theorem final_call (passed calls : List (κ × T)) :
    final (call span limit) passed calls =
      passed ++ passes (trace (call span limit) passed calls) := by
  induction calls generalizing passed with
  | nil => simp [passes]
  | cons c rest ih =>
      rw [final_cons, ih, call_snd, trace_cons]
      simp [passes, List.filter_cons, call_snd span limit passed c]
      cases (call span limit passed c).1 <;> simp

theorem mem_of_mem_final {calls : List (κ × T)} {c : κ × T}
    (h : c ∈ final (call span limit) [] calls) : c ∈ calls := by
  rw [final_call, List.nil_append, passes] at h
  obtain ⟨entry, hentry, rfl⟩ := List.mem_map.mp h
  have hinputs := List.mem_map_of_mem (f := Prod.fst) (List.mem_of_mem_filter hentry)
  rwa [trace_inputs] at hinputs

/-- What the calls of one key are told depends on the calls of that key alone. -/
theorem trace_filter_key (key : κ) (passed calls : List (κ × T)) :
    (trace (call span limit) passed calls).filter (fun entry => entry.1.1 = key) =
      trace (call span limit) (passed.filter (fun c => c.1 = key))
        (calls.filter (fun c => c.1 = key)) := by
  have hsame : ∀ (passed : List (κ × T)) (lo hi : T),
      within (passed.filter (fun c => c.1 = key)) key lo hi = within passed key lo hi := by
    intro passed lo hi
    unfold within
    rw [List.countP_filter]
    apply List.countP_congr
    intro c _
    simp only [Bool.and_eq_true, decide_eq_true_eq]
    tauto
  induction calls generalizing passed with
  | nil => rfl
  | cons c rest ih =>
      rcases eq_or_ne c.1 key with hkey | hkey
      · have hanswer : (call span limit (passed.filter (fun c => c.1 = key)) c).1 =
            (call span limit passed c).1 := by
          rw [Bool.eq_iff_iff, call_fst_iff, call_fst_iff, hkey, hsame]
        have hnext : (call span limit (passed.filter (fun c => c.1 = key)) c).2 =
            (call span limit passed c).2.filter (fun c => c.1 = key) := by
          rw [call_snd, call_snd, hanswer, List.filter_append]
          unfold passes
          cases (call span limit passed c).1 <;> simp [hkey]
        simp only [trace_cons, List.filter_cons, hkey, decide_true, if_true, hanswer, hnext, ih]
      · have hnext : (call span limit passed c).2.filter (fun c => c.1 = key) =
            passed.filter (fun c => c.1 = key) := by
          rw [call_snd, List.filter_append]
          unfold passes
          cases (call span limit passed c).1 <;> simp [hkey]
        simp only [trace_cons, List.filter_cons, hkey, decide_false, Bool.false_eq_true, if_false,
          ih, hnext]

variable [IsOrderedAddMonoid T] {limit}

/-- No closed span holds more than `limit` passes of a key. -/
theorem within_le (hlimit : 0 ≤ limit) {calls : List (κ × T)} (horder : InTimeOrder calls)
    (key : κ) (lo : T) :
    within (final (call span limit) [] calls) key lo (lo + span) ≤ limit := by
  induction calls using List.reverseRecOn with
  | nil => simpa [within] using hlimit
  | append_singleton calls c ih =>
      obtain ⟨hcalls, _, hlast⟩ := List.pairwise_append.mp horder
      have hbound := ih hcalls
      have hpast : ∀ p ∈ final (call span limit) [] calls, p.2 ≤ c.2 := fun p hp =>
        hlast p (mem_of_mem_final span limit hp) c (List.mem_singleton_self c)
      rw [final_append, final_cons, final_nil]
      generalize final (call span limit) [] calls = passed at hbound hpast
      unfold call
      split_ifs with hroom
      · by_cases hinside : c.1 = key ∧ lo ≤ c.2 ∧ c.2 ≤ lo + span
        · -- all that passed since `lo` passed in the span that ends at `c`
          have hearlier : within passed key lo (lo + span) ≤
              within passed c.1 (c.2 - span) c.2 := by
            apply List.countP_mono_left
            intro p hp hmatch
            simp only [decide_eq_true_eq] at hmatch ⊢
            refine ⟨hmatch.1.trans hinside.1.symm, ?_, hpast p hp⟩
            exact (sub_le_iff_le_add.mpr hinside.2.2).trans hmatch.2.1
          have hone : within (passed ++ [c]) key lo (lo + span) =
              within passed key lo (lo + span) + 1 := by
            simp [within, hinside]
          rw [hone]
          omega
        · have hnone : within (passed ++ [c]) key lo (lo + span) =
              within passed key lo (lo + span) := by
            simp [within, hinside]
          rwa [hnone]
      · exact hbound

end SlidingWindow
