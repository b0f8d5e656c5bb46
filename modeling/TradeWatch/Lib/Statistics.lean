import Mathlib.Analysis.Real.Sqrt
import Mathlib.Tactic

/-!
Mean and standard deviation of a list of real numbers, with either divisor: what
does not depend on the order of the list, and what one more value does to them.
-/

namespace SampleStatistics

/-- The mean of a list of prices. -/
noncomputable def average (xs : List ℝ) : ℝ := xs.sum / xs.length

/-- The sum of the squared deviations from the mean. -/
noncomputable def squares (xs : List ℝ) : ℝ := (xs.map (fun x => (x - average xs) ^ 2)).sum

/-- The standard deviation with divisor `n - 1`. -/
noncomputable def sampleStd (xs : List ℝ) : ℝ := Real.sqrt (squares xs / (xs.length - 1))

/-- The standard deviation with divisor `n`. -/
noncomputable def populationStd (xs : List ℝ) : ℝ := Real.sqrt (squares xs / xs.length)

theorem average_perm {xs ys : List ℝ} (h : xs.Perm ys) : average xs = average ys := by
  rw [average, average, h.sum_eq, h.length_eq]

theorem squares_perm {xs ys : List ℝ} (h : xs.Perm ys) : squares xs = squares ys := by
  rw [squares, squares, average_perm h]
  exact (h.map _).sum_eq

theorem sampleStd_perm {xs ys : List ℝ} (h : xs.Perm ys) : sampleStd xs = sampleStd ys := by
  rw [sampleStd, sampleStd, squares_perm h, h.length_eq]

theorem squares_nonneg (xs : List ℝ) : 0 ≤ squares xs := by
  apply List.sum_nonneg
  intro y hy
  obtain ⟨x, _, rfl⟩ := List.mem_map.mp hy
  exact sq_nonneg _

/-- More divisor, less deviation; strictly less unless there is none. -/
theorem populationStd_lt_sampleStd {xs : List ℝ} (hlength : 1 < xs.length)
    (hpos : 0 < populationStd xs) : populationStd xs < sampleStd xs := by
  have hn : (1 : ℝ) < xs.length := by exact_mod_cast hlength
  have hquotient : 0 < squares xs / xs.length := Real.sqrt_pos.mp hpos
  have hsquares : 0 < squares xs := by
    rcases (squares_nonneg xs).lt_or_eq with hlt | heq
    · exact hlt
    · rw [← heq, zero_div] at hquotient
      exact absurd hquotient (lt_irrefl 0)
  apply Real.sqrt_lt_sqrt hquotient.le
  exact div_lt_div_of_pos_left hsquares (by linarith) (by linarith)

/-- Values that deviate no more than this hardly vary. -/
noncomputable def negligible : ℝ := (1 / 10 ^ 12 : ℚ)

theorem negligible_eq : negligible = 1 / 10 ^ 12 := by
  rw [negligible]
  push_cast
  rfl

/-- The distance from the mean, in deviations, reaches the threshold. Values
that hardly vary count as no distance. -/
def Outlier (threshold mean std x : ℝ) : Prop :=
  if negligible < std then threshold * std ≤ |x - mean| else threshold ≤ 0

theorem outlier_eq (threshold mean std x : ℝ) :
    Outlier threshold mean std x =
      if 1 / 10 ^ 12 < std then threshold * std ≤ |x - mean| else threshold ≤ 0 := by
  rw [Outlier, negligible_eq]

/-- An outlier by the statistics of a list. -/
def OutlierOf (threshold : ℝ) (xs : List ℝ) (x : ℝ) : Prop :=
  Outlier threshold (average xs) (sampleStd xs) x

/-- The same, by the score itself. -/
theorem le_abs_score_iff (threshold mean std x : ℝ) :
    threshold ≤ |if 1 / 10 ^ 12 < std then (x - mean) / std else 0| ↔
      Outlier threshold mean std x := by
  rw [outlier_eq]
  rcases lt_or_ge (1 / 10 ^ 12) std with hstd | hstd
  · have hpos : 0 < std := lt_trans (by positivity) hstd
    rw [if_pos hstd, if_pos hstd, abs_div, abs_of_pos hpos, le_div_iff₀ hpos]
  · rw [if_neg (not_lt.mpr hstd), if_neg (not_lt.mpr hstd), abs_zero]

theorem sampleStd_nonneg (xs : List ℝ) : 0 ≤ sampleStd xs := Real.sqrt_nonneg _

theorem sampleStd_sq {xs : List ℝ} (h : 1 ≤ xs.length) :
    sampleStd xs ^ 2 = squares xs / (xs.length - 1) := by
  have hn : (1 : ℝ) ≤ xs.length := by exact_mod_cast h
  exact Real.sq_sqrt (div_nonneg (squares_nonneg xs) (by linarith))

/-- Equal values have that mean and no deviation. -/
theorem average_replicate (n : ℕ) (x : ℝ) : average (List.replicate (n + 1) x) = x := by
  have hn : ((n : ℝ) + 1) ≠ 0 := by positivity
  rw [average, List.sum_replicate, List.length_replicate, nsmul_eq_mul]
  push_cast
  field_simp

theorem sampleStd_replicate (n : ℕ) (x : ℝ) : sampleStd (List.replicate n x) = 0 := by
  have hsquares : squares (List.replicate n x) = 0 := by
    cases n with
    | zero => simp [squares]
    | succ n =>
        rw [squares, average_replicate]
        simp
  rw [sampleStd, hsquares, zero_div, Real.sqrt_zero]

/-- Where there is a deviation there are two values. -/
theorem two_le_length_of_sampleStd_pos {xs : List ℝ} (h : 0 < sampleStd xs) : 2 ≤ xs.length := by
  rcases xs with _ | ⟨x, _ | ⟨y, rest⟩⟩
  · simp [sampleStd, squares] at h
  · have hzero := sampleStd_replicate 1 x
    rw [List.replicate_one] at hzero
    exact absurd hzero h.ne'
  · simp

theorem ne_nil_of_sampleStd_pos {xs : List ℝ} (h : 0 < sampleStd xs) : xs ≠ [] := by
  rintro rfl
  exact absurd (two_le_length_of_sampleStd_pos h) (by simp)

/-- The mean is at most what bounds every value. -/
theorem average_le {xs : List ℝ} (hne : xs ≠ []) {bound : ℝ} (h : ∀ x ∈ xs, x ≤ bound) :
    average xs ≤ bound := by
  have hlength : (0 : ℝ) < xs.length := by exact_mod_cast List.length_pos_iff.mpr hne
  have hsum := List.sum_le_card_nsmul xs bound h
  rw [nsmul_eq_mul, mul_comm] at hsum
  rwa [average, div_le_iff₀ hlength]

theorem not_outlierOf_replicate {threshold : ℝ} (hpos : 0 < threshold) (n : ℕ) (y x : ℝ) :
    ¬ OutlierOf threshold (List.replicate n y) x := by
  have htiny : ¬ (1 / 10 ^ 12 : ℝ) < 0 := by norm_num
  rw [OutlierOf, outlier_eq, sampleStd_replicate, if_neg htiny]
  exact not_le.mpr hpos

section Update

variable {xs : List ℝ} (hne : xs ≠ []) (x : ℝ)
include hne

theorem length_ne_zero : (xs.length : ℝ) ≠ 0 := by
  rw [Nat.cast_ne_zero]
  exact fun hzero => hne (List.length_eq_zero_iff.mp hzero)

/-- One more value moves the mean by its share of the distance. -/
theorem average_snoc :
    average (xs ++ [x]) = average xs + (x - average xs) / (xs.length + 1) := by
  have hn := length_ne_zero hne
  have hsucc : (xs.length : ℝ) + 1 ≠ 0 := by positivity
  simp only [average, List.sum_append, List.sum_singleton, List.length_append,
    List.length_singleton, Nat.cast_add, Nat.cast_one]
  field_simp
  ring

omit hne in
theorem sum_sq_sub (xs : List ℝ) (c : ℝ) :
    (xs.map (fun x => (x - c) ^ 2)).sum =
      (xs.map (fun x => x ^ 2)).sum - 2 * c * xs.sum + xs.length * c ^ 2 := by
  induction xs with
  | nil => simp
  | cons x rest ih =>
      simp only [List.map_cons, List.sum_cons, ih, List.length_cons, Nat.cast_add, Nat.cast_one]
      ring

/-- One more value adds to the squared deviations what lies between it and the
old mean. -/
theorem squares_snoc :
    squares (xs ++ [x]) =
      squares xs + (x - average xs) ^ 2 * (xs.length / (xs.length + 1)) := by
  have hn := length_ne_zero hne
  have hsucc : (xs.length : ℝ) + 1 ≠ 0 := by positivity
  simp only [squares, sum_sq_sub, average, List.map_append, List.sum_append, List.map_cons,
    List.map_nil, List.sum_singleton, List.length_append, List.length_singleton, Nat.cast_add,
    Nat.cast_one]
  field_simp
  ring

omit hne in
/-- Samuelson's inequality: a value of a list is no further from the mean than this
part of all the squared deviations, its own among them, allows. -/
theorem sq_sub_average_le {xs : List ℝ} {x : ℝ} (hx : x ∈ xs) (hmany : 2 ≤ xs.length) :
    (x - average xs) ^ 2 * xs.length ≤ (xs.length - 1) * squares xs := by
  -- put the value last: the deviations of the others only add to the right side
  obtain ⟨before, after, rfl⟩ := List.append_of_mem hx
  have hlast : (before ++ x :: after).Perm ((before ++ after) ++ [x]) :=
    List.perm_middle.trans (List.perm_append_singleton x (before ++ after)).symm
  have hothers : before ++ after ≠ [] := by
    rintro hnone
    have hlength := hlast.length_eq
    rw [hnone] at hlength
    simp only [List.nil_append, List.length_singleton] at hlength
    omega
  have hn : ((before ++ x :: after).length : ℝ) = (before ++ after).length + 1 := by
    rw [hlast.length_eq, List.length_append, List.length_singleton, Nat.cast_add, Nat.cast_one]
  rw [average_perm hlast, squares_perm hlast, hn, average_snoc hothers, squares_snoc hothers]
  have hm : (0 : ℝ) < (before ++ after).length := by
    rw [Nat.cast_pos]
    exact List.length_pos_iff.mpr hothers
  have hnonneg := squares_nonneg (before ++ after)
  generalize squares (before ++ after) = s at hnonneg
  generalize average (before ++ after) = mean
  generalize ((before ++ after).length : ℝ) = m at hm
  have hshare : 0 ≤ m * s := mul_nonneg hm.le hnonneg
  calc
    (x - (mean + (x - mean) / (m + 1))) ^ 2 * (m + 1) = m * ((x - mean) ^ 2 * (m / (m + 1))) := by
      field_simp
      ring
    _ ≤ (m + 1 - 1) * (s + (x - mean) ^ 2 * (m / (m + 1))) := by linarith

end Update

/-- The same in deviations: no value of a list of `n` is further than `(n - 1) / √n`
sample deviations from the mean. -/
theorem abs_sub_average_le {xs : List ℝ} {x : ℝ} (hx : x ∈ xs) (hmany : 2 ≤ xs.length) :
    |x - average xs| ≤ (xs.length - 1) / √xs.length * sampleStd xs := by
  have hn : (2 : ℝ) ≤ xs.length := by exact_mod_cast hmany
  have hpos : (0 : ℝ) < xs.length := by linarith
  have hone : (0 : ℝ) < xs.length - 1 := by linarith
  have hbound : 0 ≤ ((xs.length : ℝ) - 1) / √xs.length * sampleStd xs :=
    mul_nonneg (div_nonneg hone.le (Real.sqrt_nonneg _)) (sampleStd_nonneg xs)
  apply abs_le_of_sq_le_sq _ hbound
  have hsquare : (((xs.length : ℝ) - 1) / √xs.length * sampleStd xs) ^ 2 =
      (xs.length - 1) * squares xs / xs.length := by
    rw [mul_pow, div_pow, Real.sq_sqrt hpos.le, sampleStd_sq (by omega)]
    field_simp
  rw [hsquare, le_div_iff₀ hpos]
  exact sq_sub_average_le hx hmany

section Spread

variable {xs : List ℝ}

/-- Where the values vary, the first that is not the mean has only the mean before it. -/
theorem exists_first_ne_average (h : 0 < sampleStd xs) :
    ∃ n x after, xs = List.replicate n (average xs) ++ x :: after ∧ x ≠ average xs := by
  classical
  have hfound : (xs.find? (fun x => x ≠ average xs)).isSome := by
    rw [List.find?_isSome]
    by_contra hnone
    push Not at hnone
    have hsame : xs = List.replicate xs.length (average xs) :=
      List.eq_replicate_of_mem fun x hx => by simpa using hnone x hx
    rw [hsame, sampleStd_replicate] at h
    exact lt_irrefl 0 h
  obtain ⟨x, hx⟩ := Option.isSome_iff_exists.mp hfound
  obtain ⟨hne, before, after, hsplit, hbefore⟩ := List.find?_eq_some_iff_append.mp hx
  refine ⟨before.length, x, after, ?_, of_decide_eq_true hne⟩
  have hsame : before = List.replicate before.length (average xs) :=
    List.eq_replicate_of_mem fun y hy => by simpa using hbefore y hy
  rw [← hsame]
  exact hsplit

/-- A value off the mean is an outlier by some threshold, if the list varies at all. -/
theorem exists_outlierOf {x : ℝ} (hvary : 1 / 10 ^ 12 < sampleStd xs) (hne : x ≠ average xs) :
    ∃ threshold, 0 < threshold ∧ OutlierOf threshold xs x := by
  have hpos : 0 < sampleStd xs := lt_trans (by norm_num) hvary
  refine ⟨|x - average xs| / sampleStd xs, ?_, ?_⟩
  · exact div_pos (abs_pos.mpr (sub_ne_zero.mpr hne)) hpos
  · rw [OutlierOf, outlier_eq, if_pos hvary, div_mul_cancel₀ _ hpos.ne']

/-- No value is an outlier by a positive threshold of a list that hardly varies, and none
is of any list that has it for its mean. -/
theorem not_outlierOf {threshold : ℝ} (hpos : 0 < threshold) {x : ℝ}
    (h : sampleStd xs ≤ 1 / 10 ^ 12 ∨ x = average xs) : ¬ OutlierOf threshold xs x := by
  rw [OutlierOf, outlier_eq]
  split_ifs with hvary
  · obtain rfl := h.resolve_left (not_le.mpr hvary)
    rw [sub_self, abs_zero, not_le]
    exact mul_pos hpos (lt_trans (by norm_num) hvary)
  · exact not_le.mpr hpos

/-- By a threshold that is not positive every value is an outlier. -/
theorem outlierOf_of_nonpos {threshold : ℝ} (hneg : threshold ≤ 0) (x : ℝ) :
    OutlierOf threshold xs x := by
  rw [OutlierOf, outlier_eq]
  split_ifs
  · exact (mul_nonpos_of_nonpos_of_nonneg hneg (sampleStd_nonneg xs)).trans (abs_nonneg _)
  · exact hneg

end Spread

end SampleStatistics
