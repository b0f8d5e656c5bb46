import TradeWatch.Lib.Split
import TradeWatch.Lib.TextFormat

/-!
A whole text of the exposition format: samples on lines of their own, with comments
between them. A reader cuts the text at line feeds and passes over empty lines and
comments. One line that does not read spoils the text.
-/

namespace TextFormat

/-- The lines that are neither empty nor comments. -/
def sampleLines (text : List Char) : List (List Char) :=
  (Split.pieces '\n' text).filter (fun line => line.head? ≠ some '#')

/-- The samples of a text, if every line reads. -/
def readText (text : List Char) : Option (List Sample) := (sampleLines text).mapM readSample

/-- A text of lines, each with its line feed. -/
def writeText (lines : List (List Char)) : List Char := ['\n'].intercalate lines ++ ['\n']

theorem sampleLines_writeText (lines : List (List Char)) :
    sampleLines (writeText lines) = lines.flatMap sampleLines := by
  unfold sampleLines writeText
  rw [Split.pieces_snoc, Split.pieces_join, List.filter_flatMap]

theorem sampleLines_comment {text : List Char} (h : '\n' ∉ text) :
    sampleLines ('#' :: text) = [] := by
  rw [sampleLines, Split.pieces_singleton (by simp [h]) (List.cons_ne_nil _ _)]
  simp

/-- A line that begins with a name is no comment. -/
theorem head?_ne_comment {name : List Char} (h : IsName isMetricChar name) (rest : List Char) :
    (name ++ rest).head? ≠ some '#' := by
  obtain ⟨first, others, rfl⟩ := List.exists_cons_of_ne_nil h.nonempty
  intro hcomment
  obtain rfl : first = '#' := by simpa using hcomment
  exact absurd (h.chars '#' List.mem_cons_self) (by decide)

theorem sampleLines_singleton {line : List Char} (hfeed : '\n' ∉ line) (hne : line ≠ [])
    (hhead : line.head? ≠ some '#') : sampleLines line = [line] := by
  rw [sampleLines, Split.pieces_singleton hfeed hne]
  simp [hhead]

theorem sampleLines_append (first second : List Char) :
    sampleLines (first ++ '\n' :: second) = sampleLines first ++ sampleLines second := by
  rw [sampleLines, Split.pieces_append, List.filter_append]
  rfl

theorem sampleLines_writeSample {sample : Sample} (h : sample.WellFormed) :
    sampleLines (writeSample sample) = [writeSample sample] := by
  have hhead : (writeSample sample).head? ≠ some '#' := by
    unfold writeSample
    dsimp only
    rw [List.append_assoc]
    exact head?_ne_comment h.name _
  have hne : writeSample sample ≠ [] := by
    simp [writeSample]
  exact sampleLines_singleton (newline_not_mem_writeSample h) hne hhead

theorem mapM_readSample {samples : List Sample} (h : ∀ sample ∈ samples, sample.WellFormed) :
    (samples.map writeSample).mapM readSample = some samples := by
  induction samples with
  | nil => rfl
  | cons sample rest ih =>
      obtain ⟨hsample, hrest⟩ := List.forall_mem_cons.mp h
      rw [List.map_cons, List.mapM_cons, readSample_writeSample hsample, ih hrest]
      rfl

theorem readText_eq_none {text line : List Char} (hline : line ∈ sampleLines text)
    (hread : readSample line = none) : readText text = none := by
  unfold readText
  generalize sampleLines text = lines at hline
  induction lines with
  | nil => cases hline
  | cons first rest ih =>
      rw [List.mapM_cons]
      rcases List.mem_cons.mp hline with rfl | hrest
      · rw [hread]
        rfl
      · rw [ih hrest]
        cases readSample first <;> rfl

/-- A label value whose end is missing. -/
theorem readQuoted_open (value : List Char) : readQuoted (value.flatMap escapeChar) = none := by
  induction value with
  | nil => rfl
  | cons c value ih =>
      rw [List.flatMap_cons, readQuoted_escapeChar, ih]
      rfl

/-- A line that was cut inside its only label value does not read. -/
theorem readSample_open {name k : List Char} (hname : IsName isMetricChar name)
    (hk : IsName isLabelChar k) (value : List Char) :
    readSample (name ++ '\x7b' :: (k ++ '=' :: '"' :: value.flatMap escapeChar)) = none := by
  have hlabel : readLabel (k ++ '=' :: '"' :: value.flatMap escapeChar) = none := by
    rw [readLabel, readName_append hk (by decide)]
    simp [readQuoted_open]
  have hlabels : ∀ most, readLabels most (k ++ '=' :: '"' :: value.flatMap escapeChar) = none := by
    intro most
    cases most with
    | zero => rfl
    | succ most =>
        rw [readLabels.eq_def]
        simp only [hlabel]
        split
        · rename_i hclosed
          obtain ⟨first, others, rfl⟩ := List.exists_cons_of_ne_nil hk.nonempty
          obtain ⟨rfl, _⟩ := List.cons.inj hclosed
          exact absurd (hk.chars _ List.mem_cons_self) (by decide)
        · rfl
  unfold readSample
  rw [readName_append hname (by decide)]
  simp [hlabels]

end TextFormat
