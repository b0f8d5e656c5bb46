import Mathlib.Data.Char
import Mathlib.Data.List.Lex
import TradeWatch.Platform.BatchRunner

/-!
The batch layer as a shell script. It runs the mapper and the reducer around a
`sort -k1,1` and counts the lines that come out, where the Python runner sorts whole
lines and counts what `splitlines` leaves. The two orders are not the same, and `sort`
depends on the locale; what is counted does not.
-/

namespace TradeWatch.BatchLoop

open PyFloat Split GroupBy

/-- What `sort` takes from the locale: the characters that separate fields, and a
collation, which puts different texts in an order. -/
structure Locale where
  blank : Char → Bool
  le : List Char → List Char → Bool
  blank_tab : blank '\t' = true
  total : ∀ a b, le a b = true ∨ le b a = true
  trans : ∀ a b c, le a b = true → le b c = true → le a c = true
  antisymm : ∀ a b, le a b = true → le b a = true → a = b

namespace Locale

variable (loc : Locale)

/-- The first field. Blanks before it belong to it. -/
def firstField (line : List Char) : List Char :=
  line.takeWhile loc.blank ++ (line.dropWhile loc.blank).takeWhile (fun c => !loc.blank c)

/-- `-k1,1`: by the first field, and by the whole line where that does not decide. -/
def before (a b : List Char) : Bool :=
  if loc.firstField a = loc.firstField b then loc.le a b
  else loc.le (loc.firstField a) (loc.firstField b)

/-- `sort -k1,1`. -/
def sort (lines : List (List Char)) : List (List Char) :=
  lines.insertionSort (fun a b => loc.before a b = true)

/-- A text without blanks. -/
def Word (text : List Char) : Prop := text ≠ [] ∧ ∀ c ∈ text, loc.blank c = false

end Locale

section Model

variable {F : Type} [PyFloat F] (py : PyText F) (env : Reducer.Thresholds F) (loc : Locale)

/-- `cat | mapper.py | sort -k1,1 | reducer.py`: what is written to `mr_anomalies.tsv`.
The mapper writes no blank lines. -/
def runLocal (input : List (List Char)) : List Char :=
  (Reducer.main py env (loc.sort (pieces '\n' (Mapper.main py input)))).1.flatMap (· ++ ['\n'])

/-- `wc -l`. -/
def wcLines (text : List Char) : ℕ := text.count '\n'

end Model

section Sorting

variable {loc : Locale}

theorem before_total (a b : List Char) :
    loc.before a b = true ∨ loc.before b a = true := by
  unfold Locale.before
  by_cases hfield : loc.firstField a = loc.firstField b
  · rw [if_pos hfield, if_pos hfield.symm]
    exact loc.total a b
  · rw [if_neg hfield, if_neg (Ne.symm hfield)]
    exact loc.total _ _

/-- The fields of lines in order are in order. -/
theorem field_le {a b : List Char} (h : loc.before a b = true) :
    loc.le (loc.firstField a) (loc.firstField b) = true := by
  unfold Locale.before at h
  split at h
  · rename_i hfield
    rw [hfield]
    exact or_self_iff.mp (loc.total _ _)
  · exact h

theorem before_trans (a b c : List Char) (hab : loc.before a b = true)
    (hbc : loc.before b c = true) : loc.before a c = true := by
  have hfields := loc.trans _ _ _ (field_le hab) (field_le hbc)
  by_cases hac : loc.firstField a = loc.firstField c
  · -- no field lies between two that are the same
    have hba : loc.firstField a = loc.firstField b :=
      loc.antisymm _ _ (field_le hab) (hac ▸ field_le hbc)
    rw [Locale.before, if_pos hba] at hab
    rw [Locale.before, if_pos (hba.symm.trans hac)] at hbc
    rw [Locale.before, if_pos hac]
    exact loc.trans _ _ _ hab hbc
  · rw [Locale.before, if_neg hac]
    exact hfields

theorem sort_perm (lines : List (List Char)) : (loc.sort lines).Perm lines :=
  List.perm_insertionSort _ _

theorem sort_pairwise (lines : List (List Char)) :
    (loc.sort lines).Pairwise (fun a b => loc.before a b = true) := by
  have htotal : Std.Total (fun a b : List Char => loc.before a b = true) := ⟨before_total⟩
  have htrans : IsTrans (List Char) (fun a b => loc.before a b = true) := ⟨before_trans⟩
  exact List.pairwise_insertionSort _ _

/-- Where the key of a record is a word, `sort` compares by it. -/
theorem firstField_eq {line : List Char} (htab : '\t' ∈ line)
    (hword : loc.Word (keyOf line).toList) : loc.firstField line = (keyOf line).toList := by
  obtain ⟨key, rest, rfl, hkey⟩ := List.eq_append_cons_of_mem htab
  rw [keyOf_append hkey, String.toList_ofList] at hword ⊢
  obtain ⟨hne, hplain⟩ := hword
  obtain ⟨c, tail, rfl⟩ := List.exists_cons_of_ne_nil hne
  have hhead : loc.blank c = false := hplain c List.mem_cons_self
  have hall : ∀ c' ∈ c :: tail, (!loc.blank c') = true := by
    intro c' hc'
    rw [hplain c' hc']
    rfl
  have htake : (c :: tail ++ '\t' :: rest).takeWhile loc.blank = [] := by
    simp [hhead]
  have hdrop : (c :: tail ++ '\t' :: rest).dropWhile loc.blank = c :: tail ++ '\t' :: rest := by
    simp [hhead]
  rw [Locale.firstField, htake, hdrop, List.takeWhile_append_of_pos hall]
  simp [loc.blank_tab]

/-- `sort -k1,1` stands in for the shuffle. -/
theorem sort_shuffled {lines : List (List Char)} (hne : ∀ line ∈ lines, line ≠ [])
    (hwords : ∀ line ∈ lines, '\t' ∈ line → loc.Word (keyOf line).toList) :
    Shuffled (fun _ => ()) lines (fun _ => loc.sort lines) := by
  have hmem : ∀ line ∈ loc.sort lines, line ∈ lines := fun line hline =>
    (sort_perm lines).mem_iff.mp hline
  constructor
  · intro j
    have hfull : ∀ line ∈ loc.sort lines, (!line.isEmpty) = true := by
      intro line hline
      simpa using hne line (hmem line hline)
    rw [List.filter_eq_self.mpr hfull, List.filter_eq_self.mpr (fun _ _ => by simp)]
    exact sort_perm lines
  · intro j
    refine Contiguous.of_convex ((sort_pairwise lines).filter _) ?_
    intro x hx y hy z hz hxy hyz hkey
    have hfield : ∀ line ∈ (loc.sort lines).filter (fun line => '\t' ∈ line),
        loc.firstField line = (keyOf line).toList := by
      intro line hline
      obtain ⟨hline, htab⟩ := List.mem_filter.mp hline
      have htab := of_decide_eq_true htab
      exact firstField_eq htab (hwords line (hmem line hline) htab)
    have hfirst := field_le hxy
    have hlast := field_le hyz
    rw [hfield x hx, hfield y hy] at hfirst
    rw [hfield y hy, hfield z hz, ← hkey] at hlast
    exact String.toList_inj.mp (loc.antisymm _ _ hlast hfirst)

end Sorting

section Count

theorem wcLines_flatMap {lines : List (List Char)} (h : ∀ line ∈ lines, '\n' ∉ line) :
    wcLines (lines.flatMap (· ++ ['\n'])) = lines.length := by
  induction lines with
  | nil => rfl
  | cons line rest ih =>
      obtain ⟨hline, hrest⟩ := List.forall_mem_cons.mp h
      have ih := ih hrest
      unfold wcLines at ih ⊢
      rw [List.flatMap_cons, List.count_append, List.count_append, ih,
        List.count_eq_zero_of_not_mem hline, List.length_cons]
      simp [Nat.add_comm]

variable (py : PyText ℝ) (env : Reducer.Thresholds ℝ) (loc : Locale)

/-- One history, cut at line feeds alone and with words for keys: the lines that the
script writes, and their number. -/
theorem runLocal_writes {input : List (List Char)}
    (hplain : OnlyLineFeeds (Mapper.main py input))
    (hwords : ∀ line ∈ pieces '\n' (Mapper.main py input), loc.Word (keyOf line).toList) :
    (∃ lines : List (List Char), runLocal py env loc input = lines.flatMap (· ++ ['\n']) ∧
        (lines : Multiset (List Char)) =
          specification (Reducer.labelOf env) env.minTrades
            (Reducer.rows py (Mapper.main py input))) ∧
      wcLines (runLocal py env loc input) = BatchRunner.mapreduce py env input := by
  have hpiece : ∀ line ∈ pieces '\n' (Mapper.main py input),
      line ≠ [] ∧ BatchRunner.OneLine line := by
    intro line hline
    obtain ⟨hsplit, hne⟩ := List.mem_filter.mp hline
    refine ⟨by simpa using hne, ?_⟩
    intro c hc hboundary
    obtain ⟨hnewline, htext⟩ := mem_piece hsplit c hc
    exact hnewline (hplain c htext hboundary)
  have hshuffled := sort_shuffled (fun line hline => (hpiece line hline).1)
    (fun line hline _ => hwords line hline)
  obtain ⟨outputs, hmain, hsum⟩ := hshuffled.writes py env
  have hsymbols : ∀ line ∈ loc.sort (pieces '\n' (Mapper.main py input)), ∀ row,
      Reducer.parseLine py line = some row → BatchRunner.OneLine row.1.toList := by
    intro line hline row hrow c hc
    rw [(Reducer.key_of_parseLine py hrow).1, keyOf, String.toList_ofList] at hc
    exact (hpiece line ((sort_perm _).mem_iff.mp hline)).2 c (List.takeWhile_subset _ hc)
  have hlines := BatchRunner.oneLine_main py env hsymbols
  rw [hmain ()] at hlines
  have hsame : (outputs () : Multiset (List Char)) =
      specification (Reducer.labelOf env) env.minTrades
        ((pieces '\n' (Mapper.main py input)).filterMap (Reducer.parseLine py)) := by
    rw [← hsum]
    simp
  have htext : runLocal py env loc input = (outputs ()).flatMap (· ++ ['\n']) := by
    rw [runLocal, hmain ()]
  refine ⟨⟨outputs (), htext, ?_⟩, ?_⟩
  · rw [hsame, Reducer.rows_eq]
  · have hnewline : ∀ line ∈ outputs (), '\n' ∉ line := by
      intro line hline hmem
      exact (hlines line hline).1 '\n' hmem (by decide)
    rw [htext, wcLines_flatMap hnewline, BatchRunner.mapreduce_eq_card py env hplain, ← hsame,
      Multiset.coe_card]

/-- The `C` locale: blanks are the space and the tab, texts go by their characters. -/
def posix : Locale where
  blank c := c = ' ' || c = '\t'
  le a b := decide (a ≤ b)
  blank_tab := by decide
  total a b := by simpa using LinearOrder.le_total a b
  trans a b c hab hbc := by
    simp only [decide_eq_true_eq] at hab hbc ⊢
    exact le_trans hab hbc
  antisymm a b hab hba := by
    simp only [decide_eq_true_eq] at hab hba
    exact le_antisymm hab hba

end Count

end TradeWatch.BatchLoop
