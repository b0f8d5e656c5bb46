import Mathlib.Data.Int.Log
import TradeWatch.Lib.PyFloat

/-!
Doubles, as far as rounding goes: the rational numbers of 53 significant bits, each
operation rounded to the nearest of them and to the even one in the middle. There is
no overflow, no underflow and no NaN. A list is summed from the left, and a square
root is only taken where it is rational.
-/

namespace PyFloat

/-- The distance of the doubles around a positive number. -/
def ulp (x : ℚ) : ℚ := 2 ^ (Int.log 2 x - 52)

/-- The double nearest to a positive number. -/
def nearestPos (x : ℚ) : ℚ := roundHalfEven (x / ulp x) * ulp x

/-- The double nearest to a number. -/
def nearest (x : ℚ) : ℚ := if x < 0 then -nearestPos (-x) else nearestPos x

section Nearest

theorem ulp_pos (x : ℚ) : 0 < ulp x := zpow_pos two_pos _

theorem roundHalfEven_intCast (n : ℤ) : roundHalfEven (n : ℚ) = n := by
  simp [roundHalfEven]

/-- A number has 53 digits before the binary point, in units of its own `ulp`. -/
theorem div_ulp_bounds {x : ℚ} (hx : 0 < x) : 2 ^ 52 ≤ x / ulp x ∧ x / ulp x ≤ 2 ^ 53 := by
  have hlow : (2 : ℚ) ^ Int.log 2 x ≤ x := Int.zpow_log_le_self one_lt_two hx
  have hhigh : x < (2 : ℚ) ^ (Int.log 2 x + 1) := Int.lt_zpow_succ_log_self one_lt_two x
  rw [le_div_iff₀ (ulp_pos x), div_le_iff₀ (ulp_pos x), ulp, zpow_sub₀ two_ne_zero]
  rw [zpow_add₀ two_ne_zero] at hhigh
  norm_num at hhigh ⊢
  constructor <;> linarith

/-- Rounding does not leave the power of two that a number lies above. -/
theorem nearestPos_bounds {x : ℚ} (hx : 0 < x) :
    2 ^ Int.log 2 x ≤ nearestPos x ∧ nearestPos x ≤ 2 ^ (Int.log 2 x + 1) := by
  obtain ⟨hlow, hhigh⟩ := div_ulp_bounds hx
  have hunit : (2 : ℚ) ^ Int.log 2 x = 2 ^ 52 * ulp x := by
    rw [ulp, zpow_sub₀ two_ne_zero]
    norm_num
    ring
  have hleast : (2 ^ 52 : ℤ) ≤ roundHalfEven (x / ulp x) := by
    rw [← roundHalfEven_intCast (2 ^ 52)]
    exact roundHalfEven_mono (by exact_mod_cast hlow)
  have hmost : roundHalfEven (x / ulp x) ≤ (2 ^ 53 : ℤ) := by
    rw [← roundHalfEven_intCast (2 ^ 53)]
    exact roundHalfEven_mono (by exact_mod_cast hhigh)
  have hleast : (2 ^ 52 : ℚ) ≤ roundHalfEven (x / ulp x) := by exact_mod_cast hleast
  have hmost : (roundHalfEven (x / ulp x) : ℚ) ≤ 2 ^ 53 := by exact_mod_cast hmost
  rw [zpow_add₀ two_ne_zero, hunit, nearestPos]
  constructor
  · exact mul_le_mul_of_nonneg_right hleast (ulp_pos x).le
  · have hscaled := mul_le_mul_of_nonneg_right hmost (ulp_pos x).le
    norm_num at hscaled ⊢
    linarith

theorem nearestPos_pos {x : ℚ} (hx : 0 < x) : 0 < nearestPos x :=
  (zpow_pos two_pos _).trans_le (nearestPos_bounds hx).1

/-- Rounding keeps the order: within one power of two because rounding to an integer
does, and from one to the next because none is left. -/
theorem nearestPos_mono {x y : ℚ} (hx : 0 < x) (h : x ≤ y) : nearestPos x ≤ nearestPos y := by
  have hy : 0 < y := hx.trans_le h
  rcases (Int.log_mono_right (b := 2) hx h).lt_or_eq with hbelow | hsame
  · calc
      nearestPos x ≤ 2 ^ (Int.log 2 x + 1) := (nearestPos_bounds hx).2
      _ ≤ 2 ^ Int.log 2 y := zpow_le_zpow_right₀ one_le_two hbelow
      _ ≤ nearestPos y := (nearestPos_bounds hy).1
  · have hulp : ulp x = ulp y := by rw [ulp, ulp, hsame]
    have hrounded := roundHalfEven_mono (div_le_div_of_nonneg_right h (ulp_pos y).le)
    rw [nearestPos, nearestPos, hulp]
    exact mul_le_mul_of_nonneg_right (by exact_mod_cast hrounded) (ulp_pos y).le

theorem nearest_zero : nearest 0 = 0 := by
  decide +kernel

theorem nearest_neg (x : ℚ) : nearest (-x) = -nearest x := by
  rcases lt_trichotomy x 0 with hneg | rfl | hpos
  · rw [nearest, nearest, if_neg (by linarith), if_pos hneg, neg_neg]
  · rw [neg_zero, nearest_zero, neg_zero]
  · rw [nearest, nearest, if_pos (by linarith), if_neg hpos.le.not_gt, neg_neg]

theorem nearest_of_pos {x : ℚ} (hx : 0 < x) : nearest x = nearestPos x :=
  if_neg hx.le.not_gt

theorem nearest_pos {x : ℚ} (hx : 0 < x) : 0 < nearest x := by
  rw [nearest_of_pos hx]
  exact nearestPos_pos hx

theorem nearest_nonneg {x : ℚ} (hx : 0 ≤ x) : 0 ≤ nearest x := by
  rcases hx.lt_or_eq with hpos | rfl
  · exact (nearest_pos hpos).le
  · exact nearest_zero.ge

theorem nearest_mono {x y : ℚ} (h : x ≤ y) : nearest x ≤ nearest y := by
  rcases lt_or_ge 0 x with hx | hx
  · rw [nearest_of_pos hx, nearest_of_pos (hx.trans_le h)]
    exact nearestPos_mono hx h
  · have hxneg := nearest_nonneg (neg_nonneg.mpr hx)
    rw [nearest_neg] at hxneg
    rcases lt_or_ge y 0 with hy | hy
    · have hmono := nearestPos_mono (neg_pos.mpr hy) (neg_le_neg h)
      rw [← nearest_of_pos (by linarith), ← nearest_of_pos (by linarith), nearest_neg,
        nearest_neg] at hmono
      linarith
    · linarith [nearest_nonneg hy]

theorem nearest_abs (x : ℚ) : nearest |x| = |nearest x| := by
  rcases le_or_gt 0 x with hx | hx
  · rw [abs_of_nonneg hx, abs_of_nonneg (nearest_nonneg hx)]
  · have hpos := nearest_pos (neg_pos.mpr hx)
    rw [nearest_neg] at hpos
    rw [abs_of_neg hx, nearest_neg, abs_of_neg (by linarith)]

end Nearest

/-- A number that some rounding gives. -/
structure Double where
  val : ℚ
  rounded : val ∈ Set.range nearest

namespace Double

theorem ext_iff {x y : Double} : x = y ↔ x.val = y.val := by
  cases x
  cases y
  simp

instance : DecidableEq Double := fun x y => decidable_of_iff (x.val = y.val) ext_iff.symm

/-- The double nearest to a number. -/
def of (x : ℚ) : Double := ⟨nearest x, x, rfl⟩

def abs (x : Double) : Double where
  val := |x.val|
  rounded := by
    obtain ⟨y, hy⟩ := x.rounded
    exact ⟨|y|, by rw [nearest_abs, hy]⟩

def add (x y : Double) : Double := of (x.val + y.val)

instance : PyFloat Double where
  ofRat := of
  add := add
  sub x y := of (x.val - y.val)
  mul x y := of (x.val * y.val)
  div x y := of (x.val / y.val)
  abs := abs
  pow2 x := .ok (of (x.val ^ 2))
  sqrt x := of (Rat.sqrt x.val)
  sum := List.foldl add (of 0)
  round x digits := of (roundDigits x.val digits)
  format x := formatExact x.val
  isFinite _ := true
  lt x y := decide (x.val < y.val)
  le x y := decide (x.val ≤ y.val)
  le_trans := by
    intro x y z hxy hyz
    rw [decide_eq_true_eq] at *
    exact hxy.trans hyz
  refl_of_le := by
    intro x y _
    simp only [decide_eq_true_eq, le_refl, and_self]
  le_total := by
    intro x y _ _
    simpa using LinearOrder.le_total x.val y.val
  lt_iff := by
    intro x y
    simp only [decide_eq_true_eq, not_le]
    exact ⟨fun h => ⟨h.le, h⟩, And.right⟩
  ofRat_le := by
    intro p q h
    exact decide_eq_true (nearest_mono h)

/-- One tenth is not among them. -/
example : add (of (1 / 10)) (of (2 / 10)) ≠ of (3 / 10) := by decide +kernel

end Double

end PyFloat
