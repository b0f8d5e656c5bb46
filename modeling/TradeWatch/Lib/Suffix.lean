import Mathlib.Data.List.DropRight
import Mathlib.Tactic

/-!
Suffixes of a list cut off by a predicate that stays true once it is true, as
a lower bound on a sorted key does. For such a predicate dropping a prefix,
filtering and keeping the last entries are the same operation, and they
commute. `List.rtake n` is the list of the last `n` entries.
-/

namespace Suffix

variable {α : Type*}

/-- Along the list, `p` never turns false again. -/
def Settles (p : α → Bool) (l : List α) : Prop := l.Pairwise (fun a b => p a → p b)

theorem length_rtake (n : ℕ) (l : List α) : (l.rtake n).length = min n l.length := by
  simp [List.rtake]
  omega

theorem rtake_suffix (n : ℕ) (l : List α) : l.rtake n <:+ l := List.drop_suffix _ _

theorem rtake_rtake (m n : ℕ) (l : List α) : (l.rtake m).rtake n = l.rtake (min n m) := by
  simp only [List.rtake, List.length_drop, List.drop_drop]
  congr 1
  omega

/-- Only the last `n` entries decide the last `n` entries after an append. -/
theorem rtake_append_rtake (n : ℕ) (l : List α) (x : α) :
    (l.rtake n ++ [x]).rtake n = (l ++ [x]).rtake n := by
  rcases Nat.eq_zero_or_pos n with rfl | hpos
  · simp
  · obtain ⟨m, rfl⟩ := Nat.exists_eq_add_of_le' hpos
    simp [List.rtake_concat_succ, rtake_rtake]

theorem rtake_of_length_le {n : ℕ} {l : List α} (h : l.length ≤ n) : l.rtake n = l := by
  simp [List.rtake, h]

theorem rtake_map {β : Type*} (f : α → β) (n : ℕ) (l : List α) :
    (l.map f).rtake n = (l.rtake n).map f := by
  simp only [List.rtake, List.length_map, List.map_drop]

theorem rtake_min_length (n : ℕ) (l : List α) : l.rtake (min n l.length) = l.rtake n := by
  rcases Nat.le_total n l.length with h | h
  · rw [min_eq_left h]
  · rw [min_eq_right h, rtake_of_length_le le_rfl, rtake_of_length_le h]

/-- Two cuts from the front leave a list whole when each of them does. -/
theorem dropWhile_rtake_eq_self_iff {p : α → Bool} {n : ℕ} {l : List α} :
    (l.rtake n).dropWhile p = l ↔ l.length ≤ n ∧ l.dropWhile p = l := by
  constructor
  · intro h
    have hdropped := (List.dropWhile_suffix p (l := l.rtake n)).length_le
    rw [h, length_rtake] at hdropped
    have hfits : l.length ≤ n := by omega
    rw [rtake_of_length_le hfits] at h
    exact ⟨hfits, h⟩
  · rintro ⟨hfits, h⟩
    rwa [rtake_of_length_le hfits]

theorem Settles.of_sublist {p : α → Bool} {l l' : List α} (h : Settles p l)
    (hsub : l'.Sublist l) : Settles p l' :=
  List.Pairwise.sublist hsub h

theorem Settles.dropWhile_eq_filter {p : α → Bool} {l : List α} (h : Settles p l) :
    l.dropWhile (fun x => !p x) = l.filter p := by
  induction l with
  | nil => rfl
  | cons a rest ih =>
      obtain ⟨ha, hrest⟩ := List.pairwise_cons.mp h
      cases hp : p a with
      | false => simpa [hp] using ih hrest
      | true =>
          have hall : ∀ b ∈ rest, p b = true := fun b hb => ha b hb hp
          simp [hp, List.filter_eq_self.mpr hall]

/-- Cutting the prefix that fails `p` leaves nothing else that does exactly when
`p` never turns false again. -/
theorem forall_mem_dropWhile_iff {p : α → Bool} {l : List α} :
    (∀ x ∈ l.dropWhile (fun x => !p x), p x = true) ↔ Settles p l := by
  constructor
  · intro h
    induction l with
    | nil => exact List.Pairwise.nil
    | cons a rest ih =>
        cases hp : p a with
        | false =>
            rw [List.dropWhile_cons_of_pos (by simp [hp])] at h
            exact List.pairwise_cons.mpr ⟨fun b _ ha => by simp [hp] at ha, ih h⟩
        | true =>
            rw [List.dropWhile_cons_of_neg (by simp [hp])] at h
            have hrest : ∀ b ∈ rest, p b = true := fun b hb => h b (List.mem_cons_of_mem a hb)
            refine List.pairwise_cons.mpr ⟨fun b hb _ => hrest b hb, ?_⟩
            exact List.pairwise_of_forall_mem_list fun _ _ b hb _ => hrest b hb
  · intro h x hx
    rw [h.dropWhile_eq_filter] at hx
    exact List.of_mem_filter hx

/-- The list is a prefix that fails `p` followed by what `filter` keeps. -/
theorem Settles.split {p : α → Bool} {l : List α} (h : Settles p l) :
    ∃ low, (∀ x ∈ low, p x = false) ∧ l = low ++ l.filter p := by
  refine ⟨l.takeWhile (fun x => !p x), ?_, ?_⟩
  · intro x hx
    simpa using List.mem_takeWhile_imp hx
  · rw [← h.dropWhile_eq_filter, List.takeWhile_append_dropWhile]

theorem Settles.filter_eq_rtake {p : α → Bool} {l : List α} (h : Settles p l) :
    l.filter p = l.rtake (l.countP p) := by
  obtain ⟨low, _, hl⟩ := h.split
  have hlen : l.length = low.length + l.countP p := by
    rw [List.countP_eq_length_filter, ← List.length_append, ← hl]
  have hdrop : l.length - l.countP p = low.length := by omega
  rw [List.rtake, hdrop]
  conv_rhs => rw [hl]
  simp

/-- Keeping the last `n` entries and filtering commute. -/
theorem Settles.filter_rtake {p : α → Bool} {l : List α} (h : Settles p l) (n : ℕ) :
    (l.rtake n).filter p = (l.filter p).rtake n := by
  obtain ⟨low, hlow, hl⟩ := h.split
  have hnone : ∀ k, (low.drop k).filter p = [] := by
    intro k
    apply List.filter_eq_nil_iff.mpr
    intro x hx
    simpa using hlow x (List.mem_of_mem_drop hx)
  have hkeep : ∀ k, ((l.filter p).drop k).filter p = (l.filter p).drop k := by
    intro k
    apply List.filter_eq_self.mpr
    intro x hx
    exact List.of_mem_filter (List.mem_of_mem_drop hx)
  have hlen : l.length = low.length + (l.filter p).length := by
    rw [← List.length_append, ← hl]
  have hback : l.length - n - low.length = (l.filter p).length - n := by omega
  calc
    (l.rtake n).filter p = (l.drop (l.length - n)).filter p := rfl
    _ = ((low ++ l.filter p).drop (l.length - n)).filter p := by rw [← hl]
    _ = (l.filter p).drop (l.length - n - low.length) := by
          rw [List.drop_append, List.filter_append, hnone, hkeep, List.nil_append]
    _ = (l.filter p).rtake n := by rw [hback, List.rtake]

/-- The last `n` entries do not reach back behind `n` of them. -/
theorem rtake_append_of_le {n : ℕ} {l l' : List α} (h : n ≤ l'.length) :
    (l ++ l').rtake n = l'.rtake n := by
  have hdrop : (l ++ l').length - n = l.length + (l'.length - n) := by
    rw [List.length_append]
    omega
  rw [List.rtake, hdrop, List.drop_length_add_append, List.rtake]

/-- Of the entries that pass, the last `n` do not depend on what came before a
list that is long enough, or before which nothing passes. -/
theorem Settles.filter_append_rtake {p : α → Bool} {l l' : List α} (h : Settles p (l ++ l'))
    {n : ℕ} (hpast : n ≤ l'.length ∨ ∀ x ∈ l, p x = false) :
    ((l ++ l').filter p).rtake n = (l'.filter p).rtake n := by
  rw [List.filter_append]
  by_cases hnone : ∀ x ∈ l, p x = false
  · have hempty : l.filter p = [] := List.filter_eq_nil_iff.mpr (by simpa using hnone)
    rw [hempty, List.nil_append]
  · -- Where an earlier entry passes, all later ones do.
    obtain ⟨x, hx, hpass⟩ : ∃ x ∈ l, p x = true := by simpa using hnone
    have hlater : l'.filter p = l' :=
      List.filter_eq_self.mpr (fun y hy => (List.pairwise_append.mp h).2.2 x hx y hy hpass)
    rw [hlater]
    exact rtake_append_of_le (hpast.resolve_right hnone)

/-- The first match from the end is the newest of all. -/
theorem find?_reverse_eq_some_iff {p : α → Bool} {l : List α} {x : α} :
    l.reverse.find? p = some x ↔
      p x = true ∧ ∃ older newer, l = older ++ x :: newer ∧ ∀ y ∈ newer, p y = false := by
  rw [List.find?_eq_some_iff_append]
  apply and_congr_right
  intro _
  constructor
  · rintro ⟨newer, older, hsplit, hnewer⟩
    refine ⟨older.reverse, newer.reverse, ?_, ?_⟩
    · rw [← List.reverse_inj, hsplit]
      simp
    · intro y hy
      simpa using hnewer y (List.mem_reverse.mp hy)
  · rintro ⟨older, newer, rfl, hnewer⟩
    refine ⟨newer.reverse, older.reverse, by simp, ?_⟩
    intro y hy
    simpa using hnewer y (List.mem_reverse.mp hy)

end Suffix
