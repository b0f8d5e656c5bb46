import Mathlib.Tactic

/-!
Texts cut at a separator. A piece never holds the separator, and texts that end
in it are cut piece by piece, so a format that ends every record with one
separator can be read back record by record.
-/

namespace Split

variable {α : Type*} [DecidableEq α] {a : α}

theorem splitOn_cons_self (a : α) (l : List α) : (a :: l).splitOn a = [] :: l.splitOn a := by
  simp [List.splitOn_cons_eq_if_modifyHead]

theorem splitOn_cons_ne {x : α} (h : x ≠ a) (l : List α) :
    ∃ head tail, l.splitOn a = head :: tail ∧ (x :: l).splitOn a = (x :: head) :: tail := by
  obtain ⟨head, tail, hsplit⟩ := List.exists_cons_of_ne_nil (List.splitOn_ne_nil a l)
  exact ⟨head, tail, hsplit, by simp [List.splitOn_cons_eq_if_modifyHead, h, hsplit]⟩

/-- A piece consists of entries of the text other than the separator. -/
theorem mem_piece {l piece : List α} (h : piece ∈ l.splitOn a) :
    ∀ x ∈ piece, x ≠ a ∧ x ∈ l := by
  induction l generalizing piece with
  | nil =>
      rw [List.splitOn_nil, List.mem_singleton] at h
      simp [h]
  | cons y rest ih =>
      by_cases hy : y = a
      · subst hy
        rw [splitOn_cons_self, List.mem_cons] at h
        rcases h with rfl | h
        · simp
        · intro x hx
          exact ⟨(ih h x hx).1, List.mem_cons_of_mem y (ih h x hx).2⟩
      · obtain ⟨head, tail, hsplit, hcons⟩ := splitOn_cons_ne hy rest
        rw [hcons, List.mem_cons] at h
        rcases h with rfl | h
        · have hhead := ih (hsplit ▸ List.mem_cons_self : head ∈ rest.splitOn a)
          intro x hx
          rcases List.mem_cons.mp hx with rfl | hx
          · exact ⟨hy, List.mem_cons_self⟩
          · exact ⟨(hhead x hx).1, List.mem_cons_of_mem y (hhead x hx).2⟩
        · intro x hx
          have htail := ih (hsplit ▸ List.mem_cons_of_mem head h : piece ∈ rest.splitOn a)
          exact ⟨(htail x hx).1, List.mem_cons_of_mem y (htail x hx).2⟩

/-- The first piece is all that stands before the first separator. -/
theorem head?_splitOn (l : List α) : (l.splitOn a).head? = some (l.takeWhile (· ≠ a)) := by
  induction l with
  | nil => simp
  | cons x rest ih =>
      by_cases hx : x = a
      · subst hx
        simp [splitOn_cons_self]
      · obtain ⟨head, tail, hsplit, hcons⟩ := splitOn_cons_ne hx rest
        rw [hsplit, List.head?_cons, Option.some.injEq] at ih
        simp [hcons, hx, ih]

theorem separator_notMem {l piece : List α} (h : piece ∈ l.splitOn a) : a ∉ piece :=
  fun hmem => (mem_piece h a hmem).1 rfl

/-- The non-empty pieces, as a reader that skips blank lines sees them. -/
def pieces (a : α) (l : List α) : List (List α) := (l.splitOn a).filter (fun p => !p.isEmpty)

@[simp] theorem pieces_nil : pieces a ([] : List α) = [] := by simp [pieces]

theorem pieces_append (first second : List α) :
    pieces a (first ++ a :: second) = pieces a first ++ pieces a second := by
  unfold pieces
  rw [List.splitOn_append_cons_self, List.filter_append]

theorem pieces_singleton {l : List α} (h : a ∉ l) (hne : l ≠ []) : pieces a l = [l] := by
  simp [pieces, List.splitOn_eq_singleton h, hne]

/-- Ending a text with the separator adds no piece. -/
theorem pieces_snoc (l : List α) : pieces a (l ++ [a]) = pieces a l := by
  rw [pieces_append, pieces_nil, List.append_nil]

/-- Cutting a joined text is cutting what was joined. -/
theorem pieces_join (lines : List (List α)) :
    pieces a ([a].intercalate lines) = lines.flatMap (pieces a) := by
  induction lines with
  | nil => simp [pieces]
  | cons line rest ih =>
      rcases rest with _ | ⟨next, more⟩
      · simp [List.intercalate]
      · have hjoin : [a].intercalate (line :: next :: more) =
            line ++ a :: [a].intercalate (next :: more) := by
          simp [List.intercalate, List.intersperse]
        rw [hjoin, pieces_append, ih]
        rfl

/-- Cutting undoes joining, for pieces without the separator. -/
theorem pieces_intercalate {lines : List (List α)} (h : ∀ line ∈ lines, a ∉ line) :
    pieces a ([a].intercalate lines) = lines.filter (fun line => !line.isEmpty) := by
  have hone : ∀ line ∈ lines, pieces a line = [line].filter (fun line => !line.isEmpty) := by
    intro line hline
    rw [pieces, List.splitOn_eq_singleton (h line hline)]
  rw [pieces_join, List.flatMap_congr hone, ← List.filter_flatMap, List.flatMap_singleton']

/-- What lies between two lists with a common prefix has it as well. -/
theorem prefix_of_between {α : Type*} [LT α] [Std.Asymm fun x y : α => x < y]
    [Std.Trichotomous fun x y : α => x < y] {p a b l : List α} (hlow : ¬ l < p ++ a)
    (hhigh : ¬ p ++ b < l) : p <+: l := by
  induction p generalizing l with
  | nil => exact List.nil_prefix
  | cons x rest ih =>
      cases l with
      | nil => exact absurd (List.nil_lt_cons x (rest ++ a)) hlow
      | cons y l =>
          rw [List.cons_append, List.cons_lt_cons_iff, not_or, not_and] at hlow hhigh
          obtain rfl : x = y := Std.Trichotomous.trichotomous x y hhigh.1 hlow.1
          exact List.prefix_cons_inj x |>.mpr (ih (hlow.2 rfl) (hhigh.2 rfl))

end Split
