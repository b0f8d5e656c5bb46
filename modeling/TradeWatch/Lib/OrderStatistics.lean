import Mathlib.Analysis.Real.Sqrt
import Mathlib.Data.List.Sort
import Mathlib.Tactic

/-!
Order statistics of lists that differ in one value. Sorting first and leaving
out the greatest value afterwards is not leaving out a given value and sorting
then: the given value stays and displaces what lay above it by one place. What
that does to each place, and when it leaves the middle alone, is said here.
-/

namespace OrderStatistics

section Order

variable {α : Type*} [LinearOrder α]

/-- The values in ascending order. -/
def ascending (xs : List α) : List α := xs.insertionSort (· ≤ ·)

theorem ascending_perm (xs : List α) : (ascending xs).Perm xs := List.perm_insertionSort _ xs

theorem ascending_sorted (xs : List α) : (ascending xs).Pairwise (· ≤ ·) :=
  List.pairwise_insertionSort _ xs

theorem eq_of_perm_of_sorted {xs ys : List α} (h : xs.Perm ys) (hxs : xs.Pairwise (· ≤ ·))
    (hys : ys.Pairwise (· ≤ ·)) : xs = ys :=
  h.eq_of_pairwise' hxs hys

theorem ascending_snoc (xs : List α) (x : α) :
    ascending (xs ++ [x]) = (ascending xs).orderedInsert (· ≤ ·) x := by
  apply eq_of_perm_of_sorted
  · calc
      (ascending (xs ++ [x])).Perm (xs ++ [x]) := ascending_perm _
      _ |>.Perm (x :: xs) := List.perm_append_singleton x xs
      _ |>.Perm (x :: ascending xs) := (ascending_perm xs).symm.cons x
      _ |>.Perm ((ascending xs).orderedInsert (· ≤ ·) x) := (List.perm_orderedInsert _ _ _).symm
  · exact ascending_sorted _
  · exact (ascending_sorted xs).orderedInsert x _

/-- A sorted list after `x` has moved in and the greatest value has moved out. -/
def displace (x : α) (s : List α) : List α := (s.orderedInsert (· ≤ ·) x).dropLast

theorem length_displace (x : α) (s : List α) : (displace x s).length = s.length := by
  rw [displace, List.length_dropLast, List.orderedInsert_length, Nat.add_sub_cancel]

theorem displace_cons_of_le {x a : α} (s : List α) (h : x ≤ a) :
    displace x (a :: s) = x :: (a :: s).dropLast := by
  rw [displace, List.orderedInsert_cons_of_le _ s h]
  rfl

theorem displace_cons_of_lt {x a : α} (s : List α) (h : a < x) :
    displace x (a :: s) = a :: displace x s := by
  have hne : s.orderedInsert (· ≤ ·) x ≠ [] := by
    intro hnil
    have hlength := List.orderedInsert_length (· ≤ ·) s x
    rw [hnil] at hlength
    exact absurd hlength (Nat.succ_ne_zero _).symm
  rw [displace, List.orderedInsert_of_not_le _ s (not_le.mpr h), List.dropLast_cons_of_ne_nil hne,
    displace]

/-- What becomes of one place: it never holds more than it did. It holds what it
did when `x` reaches that value or when the place below held the same, and
whatever else it holds is not below `x`. -/
theorem displace_entry {x : α} {s : List α} (hs : s.Pairwise (· ≤ ·)) {i : ℕ} {y : α}
    (hy : s[i]? = some y) :
    ∃ z, (displace x s)[i]? = some z ∧ z ≤ y ∧ (z < y → x ≤ z) ∧
      (z = y ↔ y ≤ x ∨ (0 < i ∧ s[i - 1]? = some y)) := by
  induction s generalizing i with
  | nil => simp at hy
  | cons a s ih =>
      obtain ⟨ha, htail⟩ := List.pairwise_cons.mp hs
      rcases le_or_gt x a with hle | hlt
      · rw [displace_cons_of_le s hle]
        cases i with
        | zero =>
            obtain rfl : a = y := by simpa using hy
            refine ⟨x, rfl, hle, fun _ => le_rfl, ?_⟩
            simp only [lt_irrefl, false_and, or_false]
            exact ⟨fun h => h.ge, fun h => le_antisymm hle h⟩
        | succ i =>
            -- everything from here on has moved up by one place
            rw [List.getElem?_cons_succ] at hy
            have hi : i < s.length := (List.getElem?_eq_some_iff.mp hy).1
            have hbelow : i < (a :: s).length := by simp only [List.length_cons]; omega
            have hkept : (a :: s).dropLast[i]? = some (a :: s)[i] := by
              rw [List.getElem?_dropLast, if_pos (by simpa using hi),
                List.getElem?_eq_getElem hbelow]
            have hxz : x ≤ (a :: s)[i] := by
              rcases List.mem_cons.mp (List.getElem_mem hbelow) with heq | hmem
              · rwa [heq]
              · exact hle.trans (ha _ hmem)
            have hzy : (a :: s)[i] ≤ y := by
              obtain ⟨hi', rfl⟩ := List.getElem?_eq_some_iff.mp hy
              exact List.pairwise_iff_getElem.mp hs i (i + 1) hbelow (by simpa using hi) (by omega)
            refine ⟨(a :: s)[i], by rw [List.getElem?_cons_succ, hkept], hzy, fun _ => hxz, ?_⟩
            rw [Nat.add_sub_cancel, List.getElem?_eq_getElem hbelow, Option.some.injEq]
            constructor
            · exact fun h => Or.inr ⟨Nat.succ_pos i, h⟩
            · rintro (h | ⟨_, h⟩)
              · exact le_antisymm hzy (h.trans hxz)
              · exact h
      · rw [displace_cons_of_lt s hlt]
        cases i with
        | zero =>
            obtain rfl : a = y := by simpa using hy
            refine ⟨a, rfl, le_rfl, fun h => absurd h (lt_irrefl a), ?_⟩
            exact iff_of_true rfl (Or.inl hlt.le)
        | succ i =>
            rw [List.getElem?_cons_succ] at hy
            obtain ⟨z, hz, hzy, hxz, hiff⟩ := ih htail hy
            refine ⟨z, by rw [List.getElem?_cons_succ, hz], hzy, hxz, hiff.trans ?_⟩
            rw [Nat.add_sub_cancel]
            cases i with
            | zero =>
                simp only [lt_irrefl, false_and, or_false, List.getElem?_cons_zero,
                  Option.some.injEq, Nat.zero_lt_succ, true_and]
                constructor
                · exact Or.inl
                · rintro (h | rfl)
                  · exact h
                  · exact hlt.le
            | succ j => simp

theorem displace_getElem?_zero (x a : α) (s : List α) :
    (displace x (a :: s))[0]? = some (min x a) := by
  rcases le_or_gt x a with hle | hlt
  · rw [displace_cons_of_le s hle, List.getElem?_cons_zero, min_eq_left hle]
  · rw [displace_cons_of_lt s hlt, List.getElem?_cons_zero, min_eq_right hlt.le]

/-- A later place takes what `x` and the place below leave it. -/
theorem displace_getElem?_succ (x : α) {s : List α} (hs : s.Pairwise (· ≤ ·)) {i : ℕ} {a b : α}
    (ha : s[i]? = some a) (hb : s[i + 1]? = some b) :
    (displace x s)[i + 1]? = some (max a (min x b)) := by
  induction s generalizing i with
  | nil => simp at ha
  | cons first rest ih =>
      obtain ⟨hfirst, htail⟩ := List.pairwise_cons.mp hs
      rw [List.getElem?_cons_succ] at hb
      have hmem : first = a ∨ first ≤ a := by
        cases i with
        | zero => exact Or.inl (by simpa using ha)
        | succ i => exact Or.inr (hfirst a (List.mem_of_getElem? ha))
      have hle : first ≤ a := hmem.elim le_of_eq id
      rcases le_or_gt x first with hlow | hhigh
      · rw [displace_cons_of_le rest hlow, List.getElem?_cons_succ, List.getElem?_dropLast]
        have hi : i < rest.length := (List.getElem?_eq_some_iff.mp hb).1
        have hx : min x b ≤ a := (min_le_left x b).trans (hlow.trans hle)
        rw [if_pos (by simpa using hi), ha, max_eq_left hx]
      · rw [displace_cons_of_lt rest hhigh, List.getElem?_cons_succ]
        cases i with
        | zero =>
            obtain rfl : first = a := by simpa using ha
            obtain ⟨second, rest, rfl⟩ : ∃ second tail, rest = second :: tail := by
              cases rest with
              | nil => simp at hb
              | cons second tail => exact ⟨second, tail, rfl⟩
            obtain rfl : second = b := by simpa using hb
            have hsecond : first ≤ min x second := le_min hhigh.le (hfirst second (by simp))
            rw [displace_getElem?_zero, max_eq_right hsecond]
        | succ i => exact ih htail (by simpa using ha) hb

theorem mem_displace {x z : α} {s : List α} (h : z ∈ displace x s) : z = x ∨ z ∈ s :=
  (List.mem_orderedInsert _).mp (List.mem_of_mem_dropLast h)

end Order

section Median

/-- The mean of the two middle values of a sorted list, which are one value when
the length is odd. Zero for no values. -/
noncomputable def middle (s : List ℝ) : ℝ :=
  (s.getD ((s.length - 1) / 2) 0 + s.getD (s.length / 2) 0) / (2 : ℚ)

/-- The median of a list. -/
noncomputable def sampleMedian (xs : List ℝ) : ℝ := middle (ascending xs)

/-- Each middle value of the sorted list is reached by `x`, or the place below
holds the same value. -/
def LeavesMiddle (x : ℝ) (s : List ℝ) : Prop :=
  ∀ i, i = (s.length - 1) / 2 ∨ i = s.length / 2 → ∀ y, s[i]? = some y →
    y ≤ x ∨ (0 < i ∧ s[i - 1]? = some y)

variable {x : ℝ} {s : List ℝ}

theorem middle_eq {lo hi : ℝ} (hlo : s[(s.length - 1) / 2]? = some lo)
    (hhi : s[s.length / 2]? = some hi) : middle s = (lo + hi) / 2 := by
  rw [middle, List.getD_eq_getElem?_getD, List.getD_eq_getElem?_getD, hlo, hhi]
  norm_num

/-- The middle of a sorted list before and after `x` has moved in, with what
`displace_entry` says of the two places. -/
theorem middle_places (x : ℝ) (hs : s.Pairwise (· ≤ ·)) (hne : s ≠ []) :
    ∃ lo hi lo' hi' : ℝ, s[(s.length - 1) / 2]? = some lo ∧ s[s.length / 2]? = some hi ∧
      lo' ∈ displace x s ∧ hi' ∈ displace x s ∧
      middle s = (lo + hi) / 2 ∧ middle (displace x s) = (lo' + hi') / 2 ∧
      lo' ≤ lo ∧ hi' ≤ hi ∧ (lo' < lo → x ≤ lo') ∧ (hi' < hi → x ≤ hi') ∧
      (LeavesMiddle x s ↔ lo' = lo ∧ hi' = hi) := by
  have hpos := List.length_pos_iff.mpr hne
  have hlo : s[(s.length - 1) / 2]? = some s[(s.length - 1) / 2] :=
    List.getElem?_eq_getElem (by omega)
  have hhi : s[s.length / 2]? = some s[s.length / 2] := List.getElem?_eq_getElem (by omega)
  obtain ⟨lo', hlo', hlole, hlox, hloiff⟩ := displace_entry (x := x) hs hlo
  obtain ⟨hi', hhi', hhile, hhix, hhiiff⟩ := displace_entry (x := x) hs hhi
  refine ⟨_, _, lo', hi', hlo, hhi, List.mem_of_getElem? hlo', List.mem_of_getElem? hhi',
    middle_eq hlo hhi, ?_, hlole, hhile, hlox, hhix, ?_⟩
  · apply middle_eq
    · rw [length_displace, hlo']
    · rw [length_displace, hhi']
  · rw [hloiff, hhiiff]
    constructor
    · exact fun h => ⟨h _ (Or.inl rfl) _ hlo, h _ (Or.inr rfl) _ hhi⟩
    · rintro ⟨hl, hh⟩ i (rfl | rfl) y hy
      · rw [hlo] at hy
        obtain rfl := Option.some.inj hy
        exact hl
      · rw [hhi] at hy
        obtain rfl := Option.some.inj hy
        exact hh

/-- When the middle stays: no place holds more than before, so the sum of two
stays only if both do. -/
theorem middle_displace_eq_iff (x : ℝ) (hs : s.Pairwise (· ≤ ·)) :
    middle (displace x s) = middle s ↔ LeavesMiddle x s := by
  rcases eq_or_ne s [] with rfl | hne
  · refine iff_of_true rfl ?_
    intro i _ y hy
    simp at hy
  · obtain ⟨lo, hi, lo', hi', _, _, _, _, hold, hnew, hlole, hhile, _, _, hiff⟩ :=
      middle_places x hs hne
    rw [hold, hnew, hiff]
    constructor
    · intro h
      constructor <;> linarith
    · rintro ⟨rfl, rfl⟩
      rfl

section Positive

variable (hs : s.Pairwise (· ≤ ·)) (hpos : ∀ y ∈ s, 0 < y)
include hs hpos

/-- A value of at least twice the middle reaches the middle values. -/
theorem leavesMiddle_of_two_mul_le (h : 2 * middle s ≤ x) : LeavesMiddle x s := by
  rcases eq_or_ne s [] with rfl | hne
  · intro i _ y hy
    simp at hy
  · obtain ⟨lo, hi, _, _, hlo, hhi, _, _, hold, _⟩ := middle_places x hs hne
    have hlopos := hpos lo (List.mem_of_getElem? hlo)
    have hhipos := hpos hi (List.mem_of_getElem? hhi)
    rw [hold] at h
    rintro i (rfl | rfl) y hy
    · rw [hlo] at hy
      obtain rfl := Option.some.inj hy
      exact Or.inl (by linarith)
    · rw [hhi] at hy
      obtain rfl := Option.some.inj hy
      exact Or.inl (by linarith)

/-- And so does a value of at least twice what it makes the middle. -/
theorem leavesMiddle_of_two_mul_displace_le (hx : 0 < x) (h : 2 * middle (displace x s) ≤ x) :
    LeavesMiddle x s := by
  rcases eq_or_ne s [] with rfl | hne
  · intro i _ y hy
    simp at hy
  · have hall : ∀ z ∈ displace x s, 0 < z := by
      intro z hz
      rcases mem_displace hz with rfl | hmem
      · exact hx
      · exact hpos z hmem
    obtain ⟨lo, hi, lo', hi', _, _, hlomem, himem, _, hnew, hlole, hhile, hlox, hhix, hiff⟩ :=
      middle_places x hs hne
    have hlopos := hall lo' hlomem
    have hhipos := hall hi' himem
    rw [hnew] at h
    -- a place that lost something would hold `x` or more, which the sum does not allow
    refine hiff.mpr ⟨?_, ?_⟩
    · rcases hlole.lt_or_eq with hlt | heq
      · have := hlox hlt
        linarith
      · exact heq
    · rcases hhile.lt_or_eq with hlt | heq
      · have := hhix hlt
        linarith
      · exact heq

/-- Each place is a clipped copy of the value that moves in. -/
theorem displace_place {i : ℕ} {y : ℝ} (hy : s[i]? = some y) :
    ∃ below, 0 ≤ below ∧ ∀ x, 0 ≤ x → (displace x s)[i]? = some (max below (min x y)) := by
  have hypos := hpos y (List.mem_of_getElem? hy)
  cases i with
  | zero =>
      refine ⟨0, le_rfl, ?_⟩
      intro x hx
      cases s with
      | nil => simp at hy
      | cons a rest =>
          obtain rfl : a = y := by simpa using hy
          rw [displace_getElem?_zero, max_eq_right (le_min hx hypos.le)]
  | succ i =>
      have hi : i < s.length := by
        have := (List.getElem?_eq_some_iff.mp hy).1
        omega
      have hbelow : s[i]? = some s[i] := List.getElem?_eq_getElem hi
      exact ⟨s[i], (hpos _ (List.getElem_mem hi)).le,
        fun x _ => displace_getElem?_succ x hs hbelow hy⟩

/-- As the value that moves in grows, the middle does not fall, and it does not grow
by a greater factor. -/
theorem middle_displace_mono {x' : ℝ} (hx : 0 < x) (hle : x ≤ x') :
    middle (displace x s) ≤ middle (displace x' s) ∧
      middle (displace x' s) * x ≤ middle (displace x s) * x' := by
  rcases eq_or_ne s [] with rfl | hne
  · simp [displace, middle]
  · have hlength := List.length_pos_iff.mpr hne
    have hplace : ∀ i, i < s.length → ∃ lo hi : ℝ, 0 ≤ lo ∧ 0 ≤ hi ∧
        ∀ x, 0 ≤ x → (displace x s)[i]? = some (max lo (min x hi)) := by
      intro i hi
      have hentry : s[i]? = some s[i] := List.getElem?_eq_getElem hi
      obtain ⟨below, hbelow, hclip⟩ := displace_place hs hpos hentry
      exact ⟨below, s[i], hbelow, (hpos _ (List.getElem_mem hi)).le, hclip⟩
    obtain ⟨lo, hi, hlo, hhi, hfirst⟩ := hplace ((s.length - 1) / 2) (by omega)
    obtain ⟨lo', hi', hlo', hhi', hsecond⟩ := hplace (s.length / 2) (by omega)
    have hmiddle : ∀ x, 0 ≤ x →
        middle (displace x s) = (max lo (min x hi) + max lo' (min x hi')) / 2 := by
      intro x hx
      apply middle_eq
      · rw [length_displace, hfirst x hx]
      · rw [length_displace, hsecond x hx]
    have hclip : ∀ below above : ℝ, 0 ≤ below → 0 ≤ above →
        max below (min x' above) * x ≤ max below (min x above) * x' := by
      intro below above hbelow habove
      rw [max_mul_of_nonneg _ _ hx.le, max_mul_of_nonneg _ _ (hx.le.trans hle),
        min_mul_of_nonneg _ _ hx.le, min_mul_of_nonneg _ _ (hx.le.trans hle)]
      apply max_le_max (mul_le_mul_of_nonneg_left hle hbelow)
      exact min_le_min (mul_comm x' x).le (mul_le_mul_of_nonneg_left hle habove)
    rw [hmiddle x hx.le, hmiddle x' (hx.le.trans hle)]
    constructor
    · have hleft := max_le_max_left lo (min_le_min_right hi hle)
      have hright := max_le_max_left lo' (min_le_min_right hi' hle)
      linarith
    · have hleft := hclip lo hi hlo hhi
      have hright := hclip lo' hi' hlo' hhi'
      linarith

end Positive

end Median

end OrderStatistics
