import Mathlib.Data.Real.Basic
import Mathlib.Tactic

/-!
The empirical distribution of finitely many samples. A value is a quantile of them
if few enough lie below it and enough do not lie above it; in a sorted list that is
a matter of its place. Half-open bins between ascending edges take every sample of
their span once.
-/

namespace Empirical

section Quantile

variable {α : Type*} [LinearOrder α]

/-- More than the share `p` of the samples are at most `x`, and no more than that
share are below it. -/
def IsQuantile (p : ℝ) (samples : List α) (x : α) : Prop :=
  p * samples.length < samples.countP (· ≤ x) ∧ samples.countP (· < x) ≤ p * samples.length

theorem IsQuantile.perm {p : ℝ} {samples others : List α} {x : α} (h : IsQuantile p samples x)
    (hperm : samples.Perm others) : IsQuantile p others x := by
  unfold IsQuantile at h ⊢
  rwa [← hperm.length_eq, ← hperm.countP_eq, ← hperm.countP_eq]

theorem getElem_le_getElem {s : List α} (hs : s.Pairwise (· ≤ ·)) {i j : ℕ} (h : i ≤ j)
    (hj : j < s.length) : s[i] ≤ s[j] :=
  hs.rel_get_of_le (show (⟨i, h.trans_lt hj⟩ : Fin s.length) ≤ ⟨j, hj⟩ from h)

/-- What lies below a place of a sorted list stands before it. -/
theorem countP_lt_getElem_le {s : List α} (hs : s.Pairwise (· ≤ ·)) {i : ℕ} (hi : i < s.length) :
    s.countP (· < s[i]) ≤ i := by
  have hrest : (s.drop i).countP (· < s[i]) = 0 := by
    rw [List.countP_eq_zero]
    intro y hy
    obtain ⟨j, hj, rfl⟩ := List.mem_iff_getElem.mp hy
    rw [List.getElem_drop]
    rw [List.length_drop] at hj
    simpa using getElem_le_getElem hs (Nat.le_add_right i j) (by omega)
  calc
    s.countP (· < s[i]) = (s.take i ++ s.drop i).countP (· < s[i]) := by
      rw [List.take_append_drop]
    _ = (s.take i).countP (· < s[i]) := by rw [List.countP_append, hrest, Nat.add_zero]
    _ ≤ (s.take i).length := List.countP_le_length
    _ ≤ i := List.length_take_le _ _

/-- What stands up to a place of a sorted list does not lie above it. -/
theorem lt_countP_le_getElem {s : List α} (hs : s.Pairwise (· ≤ ·)) {i : ℕ} (hi : i < s.length) :
    i < s.countP (· ≤ s[i]) := by
  have hfirst : (s.take (i + 1)).countP (· ≤ s[i]) = i + 1 := by
    rw [List.countP_eq_length.mpr]
    · rw [List.length_take]
      omega
    · intro y hy
      obtain ⟨j, hj, rfl⟩ := List.mem_iff_getElem.mp hy
      rw [List.getElem_take]
      rw [List.length_take] at hj
      simpa using getElem_le_getElem hs (by omega) hi
  have hprefix := (List.take_sublist (i + 1) s).countP_le (p := (· ≤ s[i]))
  omega

/-- In a sorted list the place that the share `p` reaches holds a quantile. -/
theorem isQuantile_getElem {s : List α} (hs : s.Pairwise (· ≤ ·)) {p : ℝ} {i : ℕ}
    (hi : i < s.length) (hle : (i : ℝ) ≤ p * s.length) (hlt : p * s.length < i + 1) :
    IsQuantile p s s[i] := by
  have hbelow : (s.countP (· < s[i]) : ℝ) ≤ i := by exact_mod_cast countP_lt_getElem_le hs hi
  have hupto : (i : ℝ) + 1 ≤ s.countP (· ≤ s[i]) := by exact_mod_cast lt_countP_le_getElem hs hi
  exact ⟨hlt.trans_le hupto, hbelow.trans hle⟩

end Quantile

section Bins

variable {α : Type*} [LinearOrder α]

/-- The value lies in the bin from one edge up to the next. -/
def InBin (edge : ℕ → α) (i : ℕ) (v : α) : Prop := edge i ≤ v ∧ v < edge (i + 1)

instance (edge : ℕ → α) (i : ℕ) (v : α) : Decidable (InBin edge i v) :=
  inferInstanceAs (Decidable (_ ∧ _))

/-- The edges ascend as far as the `n`-th. -/
def Ascends (edge : ℕ → α) (n : ℕ) : Prop := ∀ i j, i ≤ j → j ≤ n → edge i ≤ edge j

theorem InBin.unique {edge : ℕ → α} {n : ℕ} (hedge : Ascends edge n) {v : α} {i j : ℕ} (hi : i < n)
    (hj : j < n) (h : InBin edge i v) (h' : InBin edge j v) : i = j := by
  rcases lt_trichotomy i j with hlt | heq | hgt
  · exact absurd (h.2.trans_le ((hedge _ _ hlt hj.le).trans h'.1)) (lt_irrefl v)
  · exact heq
  · exact absurd (h'.2.trans_le ((hedge _ _ hgt hi.le).trans h.1)) (lt_irrefl v)

theorem exists_inBin {edge : ℕ → α} {n : ℕ} {v : α} (hfirst : edge 0 ≤ v) (hlast : v < edge n) :
    ∃ i < n, InBin edge i v := by
  induction n with
  | zero => exact absurd (hlast.trans_le hfirst) (lt_irrefl v)
  | succ n ih =>
      rcases lt_or_ge v (edge n) with hbelow | habove
      · obtain ⟨i, hi, hbin⟩ := ih hbelow
        exact ⟨i, hi.trans n.lt_succ_self, hbin⟩
      · exact ⟨n, n.lt_succ_self, habove, hlast⟩

/-- Every sample of the span is in one bin. -/
theorem existsUnique_inBin {edge : ℕ → α} {n : ℕ} (hedge : Ascends edge n) {v : α}
    (hfirst : edge 0 ≤ v) (hlast : v < edge n) : ∃! i, i < n ∧ InBin edge i v := by
  obtain ⟨i, hi, hbin⟩ := exists_inBin hfirst hlast
  exact ⟨i, ⟨hi, hbin⟩, fun j hj => hj.2.unique hedge hj.1 hi hbin⟩

/-- Counting by bins counts everything. -/
theorem sum_countP_inBin {edge : ℕ → α} {n : ℕ} (hedge : Ascends edge n) {samples : List α}
    (h : ∀ v ∈ samples, edge 0 ≤ v ∧ v < edge n) :
    ((List.range n).map fun i => samples.countP (InBin edge i ·)).sum = samples.length := by
  induction samples with
  | nil => simp
  | cons v rest ih =>
      obtain ⟨hv, hrest⟩ := List.forall_mem_cons.mp h
      obtain ⟨i, ⟨hi, hbin⟩, hunique⟩ := existsUnique_inBin hedge hv.1 hv.2
      have hone : ((List.range n).map fun j => if InBin edge j v then 1 else 0).sum = 1 := by
        change ∑ j ∈ Finset.range n, (if InBin edge j v then 1 else 0) = 1
        rw [Finset.sum_eq_single i, if_pos hbin]
        · intro j hj hne
          exact if_neg fun hbin' => hne (hunique j ⟨Finset.mem_range.mp hj, hbin'⟩)
        · exact fun hout => absurd (Finset.mem_range.mpr hi) hout
      simp only [List.countP_cons, decide_eq_true_eq, List.sum_map_add, ih hrest, hone,
        List.length_cons]

end Bins

end Empirical
