import Mathlib.Algebra.Order.Group.Defs
import Mathlib.Tactic
import TradeWatch.Lib.Transducer

/-!
Greedy thinning of a sequence of timed events. An event passes unless it comes
less than `c` after the last one that passed; only a passing event moves that
mark. What passes is spaced by at least `c`, in whatever order the events
come, and where the times never decrease every event has a passing one less
than `c` before it.
-/

namespace Spacing

variable {α T : Type*} [AddCommGroup T] [LinearOrder T]

/-- One event: what passes, and the time of the last event that passed. A
distance of zero or less lets every event pass and keeps no time. -/
def gate (time : α → T) (c : T) (last : Option T) (x : α) : Option α × Option T :=
  if c ≤ 0 then (some x, last)
  else
    match last with
    | none => (some x, some (time x))
    | some mark => if time x - mark < c then (none, last) else (some x, some (time x))

/-- The events that pass. -/
def thin (time : α → T) (c : T) (last : Option T) (xs : List α) : List α :=
  (Transducer.trace (gate time c) last xs).filterMap Prod.snd

/-- The time of the last event that passed. -/
def clock (time : α → T) (c : T) (last : Option T) (xs : List α) : Option T :=
  Transducer.final (gate time c) last xs

variable (time : α → T) {c : T}

@[simp] theorem thin_nil (last : Option T) : thin time c last [] = [] := rfl

@[simp] theorem clock_nil (last : Option T) : clock time c last [] = last := rfl

theorem thin_cons (last : Option T) (x : α) (rest : List α) :
    thin time c last (x :: rest) =
      (gate time c last x).1.toList ++ thin time c (gate time c last x).2 rest := by
  unfold thin
  rw [Transducer.trace_cons, List.filterMap_cons]
  cases (gate time c last x).1 <;> rfl

theorem clock_cons (last : Option T) (x : α) (rest : List α) :
    clock time c last (x :: rest) = clock time c (gate time c last x).2 rest := rfl

theorem thin_append (last : Option T) (xs ys : List α) :
    thin time c last (xs ++ ys) =
      thin time c last xs ++ thin time c (clock time c last xs) ys := by
  simp [thin, clock]

theorem clock_append (last : Option T) (xs ys : List α) :
    clock time c last (xs ++ ys) = clock time c (clock time c last xs) ys := by
  simp [clock]

theorem mem_of_mem_thin {last : Option T} {xs : List α} {x : α}
    (h : x ∈ thin time c last xs) : x ∈ xs := by
  obtain ⟨⟨y, out⟩, hmem, rfl⟩ := List.mem_filterMap.mp h
  obtain ⟨before, after, rfl, hout⟩ := (Transducer.mem_trace_iff _ _ _ _ _).mp hmem
  have hself : x = y := by
    unfold gate at hout
    split_ifs at hout
    · exact Option.some.inj hout
    · split at hout
      · exact Option.some.inj hout
      · split_ifs at hout
        exact Option.some.inj hout
  simp [hself]

theorem thin_of_nonpos (hc : c ≤ 0) (last : Option T) (xs : List α) :
    thin time c last xs = xs := by
  induction xs generalizing last with
  | nil => rfl
  | cons x rest ih => simp [thin_cons, gate, hc, ih]

/-- The four ways an event can meet the gate. -/
theorem gate_cases (last : Option T) (x : α) :
    (c ≤ 0 ∧ gate time c last x = (some x, last)) ∨
      (0 < c ∧ last = none ∧ gate time c last x = (some x, some (time x))) ∨
      (∃ mark, 0 < c ∧ last = some mark ∧ time x - mark < c ∧
        gate time c last x = (none, last)) ∨
      (∃ mark, 0 < c ∧ last = some mark ∧ c ≤ time x - mark ∧
        gate time c last x = (some x, some (time x))) := by
  unfold gate
  rcases le_or_gt c 0 with hc | hpos
  · exact Or.inl ⟨hc, if_pos hc⟩
  · rw [if_neg (not_le.mpr hpos)]
    cases last with
    | none => exact Or.inr (Or.inl ⟨hpos, rfl, rfl⟩)
    | some mark =>
        rcases lt_or_ge (time x - mark) c with hlt | hge
        · exact Or.inr (Or.inr (Or.inl ⟨mark, hpos, rfl, hlt, if_pos hlt⟩))
        · exact Or.inr (Or.inr (Or.inr ⟨mark, hpos, rfl, hge, if_neg (not_lt.mpr hge)⟩))

/-- The mark is where it started or at an event that passed. -/
theorem clock_mem {last : Option T} {xs : List α} {mark : T}
    (h : clock time c last xs = some mark) :
    last = some mark ∨ ∃ x ∈ thin time c last xs, time x = mark := by
  induction xs generalizing last with
  | nil => exact Or.inl h
  | cons x rest ih =>
      rw [clock_cons] at h
      rw [thin_cons]
      rcases gate_cases time (c := c) last x with
        ⟨_, hg⟩ | ⟨_, _, hg⟩ | ⟨_, _, _, _, hg⟩ | ⟨_, _, _, _, hg⟩
      all_goals
        rw [hg] at h ⊢
        rcases ih h with hlast | ⟨y, hy, htime⟩
      · exact Or.inl hlast
      · exact Or.inr ⟨y, List.mem_append_right _ hy, htime⟩
      · exact Or.inr ⟨x, by simp, Option.some.inj hlast⟩
      · exact Or.inr ⟨y, List.mem_append_right _ hy, htime⟩
      · exact Or.inl hlast
      · exact Or.inr ⟨y, List.mem_append_right _ hy, htime⟩
      · exact Or.inr ⟨x, by simp, Option.some.inj hlast⟩
      · exact Or.inr ⟨y, List.mem_append_right _ hy, htime⟩

variable [IsOrderedAddMonoid T]

/-- Nothing passes less than `c` after the mark. -/
theorem thin_after (hc : 0 < c) {mark : T} {xs : List α} {x : α}
    (h : x ∈ thin time c (some mark) xs) : c ≤ time x - mark := by
  induction xs generalizing mark with
  | nil => simp at h
  | cons y rest ih =>
      rw [thin_cons] at h
      rcases gate_cases time (c := c) (some mark) y with
        ⟨hle, _⟩ | ⟨_, hnone, _⟩ | ⟨_, _, _, _, hg⟩ | ⟨_, _, hmark, hge, hg⟩
      · exact absurd hc (not_lt.mpr hle)
      · simp at hnone
      · rw [hg] at h
        exact ih (by simpa using h)
      · obtain rfl := Option.some.inj hmark
        rw [hg] at h
        rcases List.mem_append.mp h with hy | hrest
        · obtain rfl : x = y := by simpa using hy
          exact hge
        · have hlater : c ≤ time x - time y := ih hrest
          have hforward : 0 ≤ time y - mark := hc.le.trans hge
          calc
            c ≤ time x - time y := hlater
            _ ≤ time x - mark := sub_le_sub_left (sub_nonneg.mp hforward) _

/-- What passes is spaced by at least `c`, in the order it passed. -/
theorem thin_spaced (hc : 0 < c) (last : Option T) (xs : List α) :
    (thin time c last xs).Pairwise (fun a b => c ≤ time b - time a) := by
  induction xs generalizing last with
  | nil => simp
  | cons x rest ih =>
      rw [thin_cons]
      rcases gate_cases time (c := c) last x with
        ⟨hle, _⟩ | ⟨_, _, hg⟩ | ⟨_, _, _, _, hg⟩ | ⟨_, _, _, _, hg⟩
      · exact absurd hc (not_lt.mpr hle)
      · rw [hg]
        exact List.pairwise_cons.mpr ⟨fun y hy => thin_after time hc hy, ih _⟩
      · rw [hg]
        exact ih _
      · rw [hg]
        exact List.pairwise_cons.mpr ⟨fun y hy => thin_after time hc hy, ih _⟩

end Spacing
