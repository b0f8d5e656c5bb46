import Mathlib.Order.Interval.Finset.Basic
import TradeWatch.Lib.OrderedDict

/-!
Events gathered by the second they fall into. A dictionary keeps what `value`
makes of the events of each second and is trimmed only when the second changes,
up to `span` seconds back from the event that comes in. While events come in the
order of their seconds, every second that is not too old is still held in full,
and nothing older is held at all.
-/

namespace Buckets

variable {α ν : Type} (sec : α → ℤ)

/-- The events of one second. -/
def inSecond (events : List α) (s : ℤ) : List α := events.filter (fun e => sec e = s)

/-- The events from one second on and before another. -/
def between (events : List α) (lo hi : ℤ) : List α :=
  events.filter (fun e => lo ≤ sec e ∧ sec e < hi)

theorem inSecond_snoc_self (events : List α) (e : α) :
    inSecond sec (events ++ [e]) (sec e) = inSecond sec events (sec e) ++ [e] := by
  simp [inSecond]

theorem inSecond_snoc_ne (events : List α) {e : α} {s : ℤ} (h : s ≠ sec e) :
    inSecond sec (events ++ [e]) s = inSecond sec events s := by
  simp [inSecond, h.symm]

/-- What weighs on consecutive seconds weighs on the span they make up. -/
theorem sum_inSecond (weight : α → ℕ) (events : List α) (lo : ℤ) (n : ℕ) :
    ((List.range n).map fun i : ℕ => ((inSecond sec events (lo + i)).map weight).sum).sum =
      ((between sec events lo (lo + n)).map weight).sum := by
  induction n with
  | zero =>
      have hnone : between sec events lo (lo + (0 : ℕ)) = [] := by
        rw [between, List.filter_eq_nil_iff]
        intro e _
        simp only [decide_eq_true_eq, Nat.cast_zero, add_zero, not_and, not_lt]
        exact id
      rw [hnone]
      rfl
  | succ n ih =>
      rw [List.range_succ, List.map_append, List.sum_append, ih, List.map_singleton,
        List.sum_singleton]
      clear ih
      unfold inSecond between
      induction events with
      | nil => rfl
      | cons e rest ih =>
          simp only [List.filter_cons, decide_eq_true_eq]
          push_cast at ih ⊢
          -- the event is in the last second, in one before it, or in neither
          split_ifs
          all_goals
            try simp only [List.map_cons, List.sum_cons]
            omega

/-- A bucket is given a new value, if there is one, and old buckets are dropped, if
it is time to. -/
def advance (d : OrderedDict ℤ ν) (span now : ℤ) (new : Option ν) (trim : Bool) :
    OrderedDict ℤ ν :=
  let d := match new with
    | none => d
    | some v => d.set now v
  if trim then d.filterKeys (fun k => now - span ≤ k) else d

theorem get?_advance (d : OrderedDict ℤ ν) {span now s : ℤ} (new : Option ν) (trim : Bool)
    (hs : now - span ≤ s) :
    (advance d span now new trim).get? s = if s = now then new.or (d.get? s) else d.get? s := by
  have htouched : (match new with
      | none => d
      | some v => d.set now v).get? s = if s = now then new.or (d.get? s) else d.get? s := by
    cases new with
    | none => simp
    | some v => simp [OrderedDict.get?_set]
  unfold advance
  cases trim with
  | false => exact htouched
  | true =>
      dsimp only
      rw [if_pos rfl, OrderedDict.get?_filterKeys, if_pos (by simpa using hs)]
      exact htouched

theorem mem_keys_advance {d : OrderedDict ℤ ν} {span now k : ℤ} {new : Option ν} {trim : Bool}
    (h : k ∈ (advance d span now new trim).keys) :
    (k = now ∨ k ∈ d.keys) ∧ (trim = true → now - span ≤ k) := by
  have htouched : ∀ {k}, k ∈ (match new with
      | none => d
      | some v => d.set now v).keys → k = now ∨ k ∈ d.keys := by
    intro k hk
    cases new with
    | none => exact Or.inr hk
    | some v => exact (OrderedDict.mem_keys_set d now k v).mp hk
  unfold advance at h
  cases trim with
  | false => exact ⟨htouched h, by simp⟩
  | true =>
      rw [if_pos rfl, OrderedDict.mem_keys_iff] at h
      obtain ⟨value, hvalue⟩ := h
      rw [OrderedDict.get?_filterKeys] at hvalue
      split_ifs at hvalue with hyoung
      exact ⟨htouched (OrderedDict.mem_keys_iff.mpr ⟨value, hvalue⟩),
        fun _ => by simpa using hyoung⟩

/-- The dictionary holds the events of every second that is not too old for any of
them, and of no second that is. -/
structure Tallies (span : ℤ) (value : List α → ν) (d : OrderedDict ℤ ν) (events : List α) :
    Prop where
  recorded : ∀ k ∈ d.keys, ∃ e ∈ events, sec e = k
  young : ∀ k ∈ d.keys, ∀ e ∈ events, sec e - span ≤ k
  exact : ∀ s, (∀ e ∈ events, sec e - span ≤ s) →
    (d.get? s).getD (value []) = value (inSecond sec events s)

variable {span : ℤ} {value : List α → ν} {d : OrderedDict ℤ ν} {events : List α}

theorem tallies_empty (span : ℤ) (value : List α → ν) : Tallies sec span value .empty [] where
  recorded k hk := by simp [OrderedDict.keys, OrderedDict.empty] at hk
  young k hk := by simp [OrderedDict.keys, OrderedDict.empty] at hk
  exact s _ := rfl

/-- One event, no earlier than the others. Nothing need be dropped for it when it
falls into the second of the last one. -/
theorem Tallies.advance (h : Tallies sec span value d events) {e : α} (hspan : 0 ≤ span)
    (hlater : ∀ x ∈ events, sec x ≤ sec e) {trim : Bool}
    (htrim : trim = false → ∀ x ∈ events.getLast?, sec x = sec e) {new : Option ν}
    (hnew : new.getD (value (inSecond sec events (sec e))) =
      value (inSecond sec events (sec e) ++ [e])) :
    Tallies sec span value (advance d span (sec e) new trim) (events ++ [e]) := by
  have hyoung : ∀ k ∈ (Buckets.advance d span (sec e) new trim).keys, sec e - span ≤ k := by
    intro k hk
    obtain ⟨hkey, htrimmed⟩ := mem_keys_advance hk
    cases trim with
    | true => exact htrimmed rfl
    | false =>
        rcases hkey with rfl | hold
        · omega
        · obtain ⟨x, hx, _⟩ := h.recorded k hold
          obtain ⟨last, hlast⟩ : ∃ last, events.getLast? = some last := by
            cases hevents : events.getLast? with
            | none => simp [List.getLast?_eq_none_iff.mp hevents] at hx
            | some last => exact ⟨last, rfl⟩
          rw [← htrim rfl last hlast]
          exact h.young k hold last (List.mem_of_getLast? hlast)
  constructor
  · intro k hk
    rcases (mem_keys_advance hk).1 with rfl | hold
    · exact ⟨e, by simp, rfl⟩
    · obtain ⟨x, hx, hsec⟩ := h.recorded k hold
      exact ⟨x, by simp [hx], hsec⟩
  · intro k hk x hx
    rcases List.mem_append.mp hx with hold | hlast
    · have hle := hlater x hold
      have hkey := hyoung k hk
      omega
    · rw [List.mem_singleton] at hlast
      rw [hlast]
      exact hyoung k hk
  · intro s hs
    have hheld := h.exact s (fun x hx => hs x (by simp [hx]))
    rw [get?_advance d new trim (hs e (by simp))]
    rcases eq_or_ne s (sec e) with rfl | hother
    · rw [if_pos rfl, inSecond_snoc_self, ← hnew]
      cases new with
      | none => exact hheld
      | some v => rfl
    · rw [if_neg hother, inSecond_snoc_ne sec events hother, hheld]

/-- What is held lies within a span of the last event. -/
theorem Tallies.length_keys_le (h : Tallies sec span value d events) {last : α}
    (hlast : last ∈ events) (hlater : ∀ x ∈ events, sec x ≤ sec last) (hspan : 0 ≤ span) :
    (d.keys.length : ℤ) ≤ span + 1 := by
  have hsubset : d.keys.toFinset ⊆ Finset.Icc (sec last - span) (sec last) := by
    intro k hk
    rw [List.mem_toFinset] at hk
    obtain ⟨x, hx, rfl⟩ := h.recorded k hk
    exact Finset.mem_Icc.mpr ⟨h.young _ hk last hlast, hlater x hx⟩
  have hcard := Finset.card_le_card hsubset
  rw [List.toFinset_card_of_nodup d.keys_nodup, Int.card_Icc] at hcard
  omega

end Buckets
