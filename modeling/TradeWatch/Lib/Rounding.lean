import TradeWatch.Lib.PyFloat

/-!
Rounding to nearest on the unit range. A double next to zero, one and two is a
rational number, and the sum, product and quotient of two such doubles is the
double nearest to the exact result: that much of IEEE 754 is asked of a float
type here, rounding and underflow included. Exact arithmetic rounds nothing.
-/

namespace PyFloat

class Rounding (F : Type) [PyFloat F] where
  /-- The value of the float nearest to a number. -/
  near : ℚ → ℚ
  near_mono : ∀ {p q : ℚ}, p ≤ q → near p ≤ near q
  near_zero : near 0 = 0
  near_one : near 1 = 1
  near_two : near 2 = 2
  /-- Doubling is exact. -/
  near_double : ∀ {q : ℚ}, 0 ≤ q → q ≤ 1 → near (2 * near q) = 2 * near q
  ofRat_near : ∀ {q : ℚ}, 0 ≤ q → q ≤ 2 → (ofRat (near q) : F) = ofRat q
  add_ofRat : ∀ {p q : ℚ}, 0 ≤ p → p ≤ 1 → 0 ≤ q → q ≤ 1 →
    add (ofRat p) (ofRat q) = (ofRat (near p + near q) : F)
  mul_ofRat : ∀ {p q : ℚ}, 0 ≤ p → p ≤ 2 → 0 ≤ q → q ≤ 1 →
    mul (ofRat p) (ofRat q) = (ofRat (near p * near q) : F)
  div_ofRat : ∀ {p q : ℚ}, 0 ≤ near p → near p ≤ near q → 0 < near q → q ≤ 2 →
    div (ofRat p) (ofRat q) = (ofRat (near p / near q) : F)

section Exact

variable (K : Type) [Field K] [LinearOrder K] [IsStrictOrderedRing K] [FloorRing K]
  (root : K → K)

/-- Exact arithmetic is its own rounding. -/
@[reducible] def exactRounding : @Rounding K (exact K root) :=
  letI := exact K root
  { near := id
    near_mono := id
    near_zero := rfl
    near_one := rfl
    near_two := rfl
    near_double := by intros; rfl
    ofRat_near := by intros; rfl
    add_ofRat := by
      intro p q _ _ _ _
      exact (Rat.cast_add p q).symm
    mul_ofRat := by
      intro p q _ _ _ _
      exact (Rat.cast_mul p q).symm
    div_ofRat := by
      intro p q _ _ _ _
      exact (Rat.cast_div p q).symm }

end Exact

instance : Rounding ℚ := exactRounding ℚ Rat.sqrt

noncomputable instance : Rounding ℝ := exactRounding ℝ Real.sqrt

/-- `0 <= x <= 1`. -/
def InUnit {F : Type} [PyFloat F] (x : F) : Prop := le (ofRat 0) x ∧ le x (ofRat 1)

section Unit

variable {F : Type} [PyFloat F]

theorem inUnit_ofRat {q : ℚ} (h0 : 0 ≤ q) (h1 : q ≤ 1) : InUnit (ofRat q : F) :=
  ⟨ofRat_le h0, ofRat_le h1⟩

theorem inUnit_zero : InUnit (ofRat 0 : F) := inUnit_ofRat le_rfl zero_le_one

variable [Rounding F]

open Rounding

theorem near_nonneg {q : ℚ} (h : 0 ≤ q) : 0 ≤ near F q := by
  rw [← near_zero (F := F)]
  exact near_mono h

theorem near_le_one {q : ℚ} (h : q ≤ 1) : near F q ≤ 1 := by
  rw [← near_one (F := F)]
  exact near_mono h

/-- Twice the product over the sum, each step rounded. The product of two
numbers up to one is at most each of them, so the dividend never rounds to more
than the divisor does. -/
theorem inUnit_harmonic {p r : ℚ} (hp0 : 0 ≤ p) (hp1 : p ≤ 1) (hr0 : 0 ≤ r) (hr1 : r ≤ 1)
    (hsum : isZero (add (ofRat p) (ofRat r) : F) = false) :
    InUnit (div (mul (mul (ofRat 2) (ofRat p)) (ofRat r)) (add (ofRat p) (ofRat r)) : F) := by
  have hnp := near_nonneg (F := F) hp0
  have hnr := near_nonneg (F := F) hr0
  have hnp1 := near_le_one (F := F) hp1
  have hnr1 := near_le_one (F := F) hr1
  have hdouble : mul (ofRat 2) (ofRat p) = (ofRat (2 * near F p) : F) := by
    rw [mul_ofRat zero_le_two le_rfl hp0 hp1, near_two]
  have hproduct : mul (mul (ofRat 2) (ofRat p)) (ofRat r) =
      (ofRat (2 * near F p * near F r) : F) := by
    rw [hdouble, mul_ofRat (by positivity) (by linarith) hr0 hr1, near_double hp0 hp1]
  have hadd := add_ofRat (F := F) hp0 hp1 hr0 hr1
  have hle : 2 * near F p * near F r ≤ near F p + near F r := by nlinarith
  have hround := near_mono (F := F) hle
  have hdividend : 0 ≤ near F (2 * near F p * near F r) := near_nonneg (by positivity)
  have hpos : 0 < near F (near F p + near F r) := by
    refine lt_of_le_of_ne (hdividend.trans hround) ?_
    intro hzero
    -- a sum that rounds to zero is the zero that the code tests for
    have hsame : (ofRat (near F p + near F r) : F) = ofRat 0 := by
      rw [← ofRat_near (by positivity) (by linarith), ← hzero]
    rw [hadd, hsame] at hsum
    simp [isZero, ofRat_refl] at hsum
  rw [hproduct, hadd, div_ofRat hdividend hround hpos (by linarith)]
  exact inUnit_ofRat (div_nonneg hdividend hpos.le) (div_le_one_of_le₀ hround hpos.le)

end Unit

end PyFloat
