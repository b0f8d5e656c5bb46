import TradeWatch.Lib.PyFloat

/-!
The characters of a formatted number. Whatever the format, exact numbers are written
with digits, a sign, a point and a percent sign, and a word is left.
-/

namespace PyFloat

/-- What a number is written with. -/
def IsNumberChar (c : Char) : Prop := c.isDigit = true ∨ c ∈ ['-', '+', '.', '%']

def Numeral (text : String) : Prop := text ≠ "" ∧ ∀ c ∈ text.toList, IsNumberChar c

theorem numeral_append {first second : String} (hfirst : ∀ c ∈ first.toList, IsNumberChar c)
    (hsecond : Numeral second) : Numeral (first ++ second) := by
  refine ⟨?_, ?_⟩
  · intro hempty
    rw [← String.toList_inj, String.toList_append] at hempty
    exact hsecond.1 (String.toList_inj.mp (List.append_eq_nil_iff.mp hempty).2)
  · intro c hc
    rw [String.toList_append, List.mem_append] at hc
    exact hc.elim (hfirst c) (hsecond.2 c)

theorem numeral_nat (n : ℕ) : Numeral (toString n) := by
  rw [Nat.toString_eq_ofList_toDigits]
  refine ⟨?_, ?_⟩
  · intro hempty
    rw [← String.toList_inj, String.toList_ofList] at hempty
    exact Nat.toDigits_ne_nil hempty
  · intro c hc
    rw [String.toList_ofList] at hc
    exact Or.inl (Nat.isDigit_of_mem_toDigits (by omega) (by omega) hc)

theorem numeral_int (n : ℤ) : Numeral (toString n) := by
  cases n with
  | ofNat n => exact numeral_nat n
  | negSucc n =>
      have htext : toString (Int.negSucc n) = "-" ++ toString (n + 1) := rfl
      rw [htext]
      exact numeral_append (by simp [IsNumberChar]) (numeral_nat (n + 1))

section Exact

variable {K : Type} [Field K] [LinearOrder K] [FloorRing K]

theorem numeral_fixedText (x : K) (digits : ℕ) : Numeral (fixedText x digits) := by
  unfold fixedText
  dsimp only
  split_ifs
  · exact numeral_nat _
  · have hpadded : Numeral (padLeft digits
        (toString ((roundHalfEven (|x| * 10 ^ digits)).toNat % 10 ^ digits))) := by
      refine numeral_append ?_ (numeral_nat _)
      intro c hc
      rw [String.toList_ofList] at hc
      rw [List.eq_of_mem_replicate hc]
      exact Or.inl rfl
    refine numeral_append ?_ hpadded
    intro c hc
    rw [String.toList_append, List.mem_append] at hc
    rcases hc with hc | hc
    · exact (numeral_nat _).2 c hc
    · obtain rfl : c = '.' := by simpa using hc
      exact Or.inr (by simp)

theorem numeral_formatExact (x : K) (spec : FloatFormat) : Numeral (formatExact x spec) := by
  have hsign : ∀ (p : Prop) [Decidable p] (plus : String),
      (∀ c ∈ plus.toList, IsNumberChar c) →
        ∀ c ∈ (if p then "-" else plus).toList, IsNumberChar c := by
    intro p _ plus hplus
    split_ifs
    · simp [IsNumberChar]
    · exact hplus
  cases spec with
  | fixed digits => exact numeral_append (hsign _ _ (by simp)) (numeral_fixedText x digits)
  | signed digits =>
      exact numeral_append (hsign _ _ (by simp [IsNumberChar])) (numeral_fixedText x digits)
  | percent digits =>
      refine numeral_append ?_ ⟨by decide, by simp [IsNumberChar]⟩
      have hnumber := numeral_append (hsign (x < 0) "+" (by simp [IsNumberChar]))
        (numeral_fixedText (x * 100) digits)
      exact hnumber.2
  | plain => exact numeral_append (hsign _ _ (by simp)) (numeral_fixedText x (plainDigits x))

end Exact

end PyFloat
