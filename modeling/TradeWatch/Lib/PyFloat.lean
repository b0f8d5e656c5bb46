import Mathlib.Algebra.Order.Floor.Ring
import Mathlib.Analysis.Real.Sqrt
import Mathlib.Tactic

/-!
Python's float arithmetic as an interface. A `PyFloat` carries the operations
a Python program performs on floats together with the few order laws that
hold of IEEE 754 doubles, NaN and infinities included: `le` is transitive, only
holds between values other than NaN and is total among those, and rounding a
literal is monotone. Nothing else is promised, so a theorem over an arbitrary
`PyFloat` also speaks about rounding, overflow and NaN. `PyFloat.exact`
instantiates the interface by exact arithmetic on an ordered field with a square
root of its own.
-/

/-- The exceptions that arithmetic and container operations raise, and any
other exception with its message. -/
inductive PyError
  | zeroDivisionError
  | overflowError
  | valueError
  | typeError
  | keyError
  | indexError
  | unicodeError
  | recursionError
  | runtimeError (message : String)
  deriving DecidableEq, Repr

/-- The format specifications of an f-string: `.2f`, `+.2f`, `+.2%`, none. -/
inductive FloatFormat
  | fixed (digits : ℕ)
  | signed (digits : ℕ)
  | percent (digits : ℕ)
  | plain
  deriving DecidableEq, Repr

class PyFloat (F : Type) where
  /-- The value of a decimal literal or of a converted integer. -/
  ofRat : ℚ → F
  add : F → F → F
  sub : F → F → F
  mul : F → F → F
  /-- The quotient by a non-zero divisor. -/
  div : F → F → F
  abs : F → F
  /-- `x ** 2`, which raises when the square of a finite value overflows. -/
  pow2 : F → Except PyError F
  /-- The square root of a value that is not negative. -/
  sqrt : F → F
  sum : List F → F
  round : F → ℕ → F
  format : F → FloatFormat → String
  isFinite : F → Bool
  lt : F → F → Bool
  le : F → F → Bool
  le_trans : ∀ {a b c : F}, le a b → le b c → le a c
  refl_of_le : ∀ {a b : F}, le a b → le a a ∧ le b b
  le_total : ∀ {a b : F}, le a a → le b b → le a b ∨ le b a
  lt_iff : ∀ {a b : F}, lt a b ↔ le a b ∧ ¬ le b a
  ofRat_le : ∀ {p q : ℚ}, p ≤ q → le (ofRat p) (ofRat q)

namespace PyFloat

variable {F : Type} [PyFloat F]

/-- `x == 0`. -/
def isZero (x : F) : Bool := le x (ofRat 0) && le (ofRat 0) x

/-- `a / b` on floats. -/
def trueDiv (a b : F) : Except PyError F :=
  if isZero b then .error .zeroDivisionError else .ok (div a b)

/-- `m / n` on integers: the float nearest to the quotient. -/
def intDiv (m n : ℤ) : Except PyError F :=
  if n = 0 then .error .zeroDivisionError else .ok (ofRat ((m : ℚ) / n))

/-- `max(a, b)`, which keeps the first argument unless the second is greater. -/
def pyMax (a b : F) : F := if lt a b then b else a

/-- `min(a, b)`, which keeps the first argument unless the second is smaller. -/
def pyMin (a b : F) : F := if lt b a then b else a

/-- `math.sqrt(x)`. -/
def mathSqrt (x : F) : Except PyError F :=
  if lt x (ofRat 0) then .error .valueError else .ok (sqrt x)

/-- `sorted(xs)`: a stable sort that compares with `<` only. -/
def sorted (xs : List F) : List F := xs.insertionSort (fun a b => !lt b a)

theorem le_of_lt {a b : F} (h : lt a b) : le a b := (lt_iff.mp h).1

theorem ofRat_refl (q : ℚ) : le (ofRat q : F) (ofRat q) := ofRat_le le_rfl

/-- `max(lo, min(hi, x))` lies between the two bounds, whatever `x` is: a NaN
compares false and is replaced by `hi`. -/
theorem clamp_bounds {lo hi : F} (hlo : le lo lo) (hhi : le hi hi)
    (h : le lo hi) (x : F) :
    le lo (pyMax lo (pyMin hi x)) ∧ le (pyMax lo (pyMin hi x)) hi := by
  have hmin : le (pyMin hi x) hi := by
    unfold pyMin
    split
    · exact le_of_lt ‹_›
    · exact hhi
  unfold pyMax
  split
  · exact ⟨le_of_lt ‹_›, hmin⟩
  · exact ⟨hlo, h⟩

theorem intDiv_eq_ok {m n : ℤ} (h : n ≠ 0) :
    (intDiv m n : Except PyError F) = .ok (ofRat ((m : ℚ) / n)) := by
  simp [intDiv, h]

section Exact

variable {K : Type} [Field K] [LinearOrder K] [IsStrictOrderedRing K] [FloorRing K]

/-- Round half to even, Python's rule. -/
def roundHalfEven (x : K) : ℤ :=
  let below := ⌊x⌋
  let rest := x - below
  if rest < 1 / 2 then below
  else if 1 / 2 < rest then below + 1
  else if below % 2 = 0 then below else below + 1

def roundDigits (x : K) (digits : ℕ) : K :=
  (roundHalfEven (x * 10 ^ digits) : K) / 10 ^ digits

def padLeft (width : ℕ) (text : String) : String :=
  String.ofList (List.replicate (width - text.length) '0') ++ text

/-- The decimal text of `|x|` with a fixed number of digits. -/
def fixedText (x : K) (digits : ℕ) : String :=
  let scaled := (roundHalfEven (|x| * 10 ^ digits)).toNat
  let whole := toString (scaled / 10 ^ digits)
  if digits = 0 then whole
  else whole ++ "." ++ padLeft digits (toString (scaled % 10 ^ digits))

/-- The fewest digits that still name the value, as `repr` prints it. -/
def plainDigits (x : K) : ℕ :=
  ((List.range' 1 16).find? fun digits => roundDigits x digits = x).getD 17

def formatExact (x : K) : FloatFormat → String
  | .fixed digits => (if x < 0 then "-" else "") ++ fixedText x digits
  | .signed digits => (if x < 0 then "-" else "+") ++ fixedText x digits
  | .percent digits =>
      (if x < 0 then "-" else "+") ++ fixedText (x * 100) digits ++ "%"
  | .plain => (if x < 0 then "-" else "") ++ fixedText x (plainDigits x)

/-- Exact arithmetic: no rounding, no overflow, no NaN. -/
@[reducible] def exact (K : Type) [Field K] [LinearOrder K] [IsStrictOrderedRing K]
    [FloorRing K] (root : K → K) : PyFloat K where
  ofRat q := q
  add := (· + ·)
  sub := (· - ·)
  mul := (· * ·)
  div := (· / ·)
  abs x := |x|
  pow2 x := .ok (x ^ 2)
  sqrt := root
  sum := List.sum
  round := roundDigits
  format := formatExact
  isFinite _ := true
  lt a b := decide (a < b)
  le a b := decide (a ≤ b)
  le_trans := by
    intro a b c hab hbc
    simp only [decide_eq_true_eq] at *
    exact hab.trans hbc
  refl_of_le := by
    intro a b _
    simp only [decide_eq_true_eq, le_refl, and_self]
  le_total := by
    intro a b _ _
    simpa using LinearOrder.le_total a b
  lt_iff := by
    intro a b
    simp only [decide_eq_true_eq, not_le]
    exact ⟨fun h => ⟨h.le, h⟩, And.right⟩
  ofRat_le := by
    intro p q h
    simpa using h

omit [IsStrictOrderedRing K] in
theorem roundHalfEven_bounds (x : K) : ⌊x⌋ ≤ roundHalfEven x ∧ roundHalfEven x ≤ ⌊x⌋ + 1 := by
  unfold roundHalfEven
  dsimp only
  split_ifs <;> omega

/-- Rounding keeps the order. -/
theorem roundHalfEven_mono {x y : K} (h : x ≤ y) : roundHalfEven x ≤ roundHalfEven y := by
  rcases (Int.floor_le_floor h).lt_or_eq with hbelow | hsame
  · have hx := (roundHalfEven_bounds x).2
    have hy := (roundHalfEven_bounds y).1
    omega
  · have hrest : x - ⌊y⌋ ≤ y - ⌊y⌋ := sub_le_sub_right h _
    unfold roundHalfEven
    dsimp only
    rw [hsame]
    -- the larger number has the larger rest, so it is not the one rounded down
    split_ifs <;> first | omega | (exfalso; linarith)

theorem roundDigits_mono {x y : K} (h : x ≤ y) (digits : ℕ) :
    roundDigits x digits ≤ roundDigits y digits := by
  have hscale : (0 : K) < 10 ^ digits := by positivity
  have hrounded := roundHalfEven_mono (mul_le_mul_of_nonneg_right h hscale.le)
  exact div_le_div_of_nonneg_right (Int.cast_le.mpr hrounded) hscale.le

/-- What lies above the half is rounded up. -/
theorem le_roundHalfEven {n : ℤ} {x : K} (h : n - 1 / 2 < x) : n ≤ roundHalfEven x := by
  rcases le_or_gt n ⌊x⌋ with hfloor | hfloor
  · exact hfloor.trans (roundHalfEven_bounds x).1
  · have hbelow : n - 1 ≤ ⌊x⌋ := by
      apply Int.le_floor.mpr
      push_cast
      linarith
    have hfloor : ⌊x⌋ = n - 1 := by omega
    have hrest : 1 / 2 < x - ⌊x⌋ := by
      rw [hfloor]
      push_cast
      linarith
    unfold roundHalfEven
    dsimp only
    rw [if_neg hrest.not_gt, if_pos hrest]
    omega

/-- A number is rounded to `n` or more from the half below on, which itself goes to the
even side. -/
theorem le_roundHalfEven_iff {n : ℤ} {x : K} :
    n ≤ roundHalfEven x ↔ if Even n then n - 1 / 2 ≤ x else n - 1 / 2 < x := by
  have hbounds := roundHalfEven_bounds x
  have hfloor := Int.floor_le x
  have hceil := Int.lt_floor_add_one x
  rcases lt_trichotomy n (⌊x⌋ + 1) with hbelow | hnext | habove
  · have hcast : (n : K) ≤ ⌊x⌋ := by exact_mod_cast (by omega : n ≤ ⌊x⌋)
    have hhalf : (n : K) - 1 / 2 < x := by linarith
    refine iff_of_true (by omega) ?_
    split_ifs
    · exact hhalf.le
    · exact hhalf
  · -- the one place where the half decides
    have hcast : (n : K) - 1 / 2 = ⌊x⌋ + 1 / 2 := by
      rw [hnext]
      push_cast
      ring
    have hparity : Even n ↔ ¬ ⌊x⌋ % 2 = 0 := by
      rw [hnext, Int.even_add_one, Int.even_iff]
    simp only [hcast, hparity]
    unfold roundHalfEven
    dsimp only
    rcases lt_trichotomy (x - ⌊x⌋) (1 / 2) with hlow | hhalf | hhigh
    · rw [if_pos hlow]
      refine iff_of_false (by omega) ?_
      split_ifs <;> linarith
    · rw [if_neg hhalf.not_lt, if_neg hhalf.not_gt]
      by_cases heven : ⌊x⌋ % 2 = 0
      · rw [if_pos heven, if_neg (not_not.mpr heven)]
        exact iff_of_false (by omega) (by linarith)
      · rw [if_neg heven, if_pos heven]
        exact iff_of_true (by omega) (by linarith)
    · rw [if_neg hhigh.not_gt, if_pos hhigh]
      refine iff_of_true (by omega) ?_
      split_ifs <;> linarith
  · have hcast : (⌊x⌋ : K) + 2 ≤ n := by exact_mod_cast (by omega : ⌊x⌋ + 2 ≤ n)
    have hhalf : x < (n : K) - 1 / 2 := by linarith
    refine iff_of_false (by omega) ?_
    split_ifs
    · exact hhalf.not_ge
    · exact hhalf.not_gt

/-- Rounding does not take a number below a multiple of the grid. -/
theorem le_roundDigits {n : ℤ} {x : K} {digits : ℕ} (h : n - 1 / 2 < x * 10 ^ digits) :
    (n : K) / 10 ^ digits ≤ roundDigits x digits := by
  have hscale : (0 : K) < 10 ^ digits := by positivity
  exact div_le_div_of_nonneg_right (Int.cast_le.mpr (le_roundHalfEven h)) hscale.le

/-- Numbers that lie two apart are not rounded to the same. -/
theorem roundHalfEven_lt {x y : K} (h : x + 2 ≤ y) : roundHalfEven x < roundHalfEven y := by
  have hx := (roundHalfEven_bounds x).2
  have hy := (roundHalfEven_bounds y).1
  have hfloor : ⌊x⌋ + 2 ≤ ⌊y⌋ := by
    rw [← Int.floor_add_ofNat]
    exact Int.floor_le_floor h
  omega

end Exact

/-- Rational arithmetic with the integer-part square root: it runs, and it is
exact wherever no irrational root is taken. -/
instance : PyFloat ℚ := exact ℚ Rat.sqrt

noncomputable instance : PyFloat ℝ := exact ℝ Real.sqrt

section Real

@[simp] theorem ofRat_real (q : ℚ) : (ofRat q : ℝ) = q := rfl

@[simp] theorem add_real (a b : ℝ) : add a b = a + b := rfl

@[simp] theorem mul_real (a b : ℝ) : mul a b = a * b := rfl

@[simp] theorem sub_real (a b : ℝ) : sub a b = a - b := rfl

@[simp] theorem div_real (a b : ℝ) : div a b = a / b := rfl

@[simp] theorem abs_real (a : ℝ) : PyFloat.abs a = |a| := rfl

@[simp] theorem sum_real (xs : List ℝ) : sum xs = xs.sum := rfl

theorem round_real (x : ℝ) (digits : ℕ) : round x digits = roundDigits x digits := rfl

@[simp] theorem lt_real (a b : ℝ) : lt a b = true ↔ a < b := decide_eq_true_iff

@[simp] theorem le_real (a b : ℝ) : le a b = true ↔ a ≤ b := decide_eq_true_iff

theorem pyMax_real (a b : ℝ) : pyMax a b = max a b := by
  simp only [pyMax, lt_real, max_def_lt]

theorem pyMin_real (a b : ℝ) : pyMin a b = min a b := by
  rw [min_comm]
  simp only [pyMin, lt_real, min_def_lt]

theorem trueDiv_real {a b : ℝ} (h : b ≠ 0) : trueDiv a b = .ok (a / b) := by
  have hzero : isZero b = false := by
    rw [← Bool.not_eq_true, isZero, Bool.and_eq_true, le_real, le_real, ofRat_real, Rat.cast_zero]
    exact fun hb => h (le_antisymm hb.1 hb.2)
  simp [trueDiv, hzero]

/-- A divisor that is kept above a positive floor is never zero. -/
theorem trueDiv_pyMax_real {q : ℚ} (hq : 0 < q) (x a : ℝ) :
    trueDiv x (pyMax a (q : ℝ)) = .ok (x / max a q) := by
  have hfloor : (0 : ℝ) < q := by exact_mod_cast hq
  rw [pyMax_real, trueDiv_real (hfloor.trans_le (le_max_right _ _)).ne']

end Real

section Cast

theorem roundHalfEven_cast (x : ℚ) : roundHalfEven (x : ℝ) = roundHalfEven x := by
  have hrest : (x : ℝ) - ((⌊x⌋ : ℤ) : ℝ) = ((x - ⌊x⌋ : ℚ) : ℝ) := by push_cast; rfl
  have hhalf : (1 / 2 : ℝ) = ((1 / 2 : ℚ) : ℝ) := by norm_num
  unfold roundHalfEven
  simp only [Rat.floor_cast, hrest, hhalf, Rat.cast_lt]

theorem roundDigits_cast (x : ℚ) (digits : ℕ) :
    roundDigits (x : ℝ) digits = ((roundDigits x digits : ℚ) : ℝ) := by
  have hscale : (x : ℝ) * 10 ^ digits = ((x * 10 ^ digits : ℚ) : ℝ) := by push_cast; rfl
  unfold roundDigits
  rw [hscale, roundHalfEven_cast]
  push_cast
  rfl

theorem fixedText_cast (x : ℚ) (digits : ℕ) : fixedText (x : ℝ) digits = fixedText x digits := by
  have hscale : |(x : ℝ)| * 10 ^ digits = ((|x| * 10 ^ digits : ℚ) : ℝ) := by push_cast; rfl
  unfold fixedText
  rw [hscale, roundHalfEven_cast]

theorem plainDigits_cast (x : ℚ) : plainDigits (x : ℝ) = plainDigits x := by
  unfold plainDigits
  simp only [roundDigits_cast, Rat.cast_inj]

/-- The text of a rational number is the same among the real numbers. -/
theorem format_cast (x : ℚ) (spec : FloatFormat) : format (x : ℝ) spec = format x spec := by
  have hneg : (x : ℝ) < 0 ↔ x < 0 := Rat.cast_lt_zero
  have hpercent : (x : ℝ) * 100 = ((x * 100 : ℚ) : ℝ) := by push_cast; rfl
  change formatExact (x : ℝ) spec = formatExact x spec
  cases spec with
  | fixed digits => simp only [formatExact, hneg, fixedText_cast]
  | signed digits => simp only [formatExact, hneg, fixedText_cast]
  | percent digits => simp only [formatExact, hneg, hpercent, fixedText_cast]
  | plain => simp only [formatExact, hneg, fixedText_cast, plainDigits_cast]

end Cast

theorem sorted_perm {F : Type} [PyFloat F] (xs : List F) : (sorted xs).Perm xs :=
  List.perm_insertionSort _ xs

/-- Comparing with `<` only sorts numbers in ascending order. -/
theorem sorted_real_pairwise (xs : List ℝ) : (sorted xs).Pairwise (· ≤ ·) := by
  have htotal : Std.Total (fun a b : ℝ => (!lt b a) = true) :=
    ⟨fun a b => by
      simp only [Bool.not_eq_true', ← Bool.not_eq_true, lt_real, not_lt]
      exact (inferInstance : Std.Total (fun a b : ℝ => a ≤ b)).total a b⟩
  have htrans : IsTrans ℝ (fun a b => (!lt b a) = true) :=
    ⟨fun a b c => by
      simp only [Bool.not_eq_true', ← Bool.not_eq_true, lt_real, not_lt]
      exact fun hab hbc => hab.trans hbc⟩
  refine (List.pairwise_insertionSort (fun a b : ℝ => (!lt b a) = true) xs).imp ?_
  intro a b h
  simpa only [Bool.not_eq_true', ← Bool.not_eq_true, lt_real, not_lt] using h

theorem mapM_ok {α β : Type} (f : α → β) (xs : List α) :
    xs.mapM (fun x => (.ok (f x) : Except PyError β)) = .ok (xs.map f) := by
  induction xs with
  | nil => rfl
  | cons x rest ih =>
      rw [List.mapM_cons, ih]
      rfl

end PyFloat

/-- A number that may be an `int` or a `float`. -/
inductive PyNumber (F : Type)
  | int (n : ℤ)
  | float (x : F)

namespace PyNumber

variable {F : Type} [PyFloat F]

/-- As an operand next to a float. -/
def toFloat : PyNumber F → F
  | .int n => PyFloat.ofRat n
  | .float x => x

/-- `a * b`. -/
def mul : PyNumber F → PyNumber F → PyNumber F
  | .int m, .int n => .int (m * n)
  | a, b => .float (PyFloat.mul a.toFloat b.toFloat)

def str : PyNumber F → String
  | .int n => toString n
  | .float x => PyFloat.format x .plain

theorem toFloat_mul_real (a b : PyNumber ℝ) : (a.mul b).toFloat = a.toFloat * b.toFloat := by
  cases a <;> cases b <;> simp [mul, toFloat]

end PyNumber
