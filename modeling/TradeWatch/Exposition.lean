import TradeWatch.Lib.TextFormat
import TradeWatch.Prometheus

/-!
The lines of a scrape as a scraper reads them. The escaping of a label value
covers the backslash and the quote, each replaced throughout the string; a line
feed stays as it is and ends the line. Every other label value is read back.
-/

namespace TradeWatch

open PyFloat TextFormat

variable {F : Type} [PyFloat F]

namespace Prometheus

/-- What becomes of one character of a label value. -/
def escapedChar (c : Char) : List Char :=
  if c = '\\' then ['\\', '\\'] else if c = '"' then ['\\', '"'] else [c]

/-- The quotes are replaced in what the replacement of the backslashes left, which has
no quote that was not there before. -/
theorem toList_escape (v : String) : (escape v).toList = v.toList.flatMap escapedChar := by
  have hslash : ("\\" : String).toList = ['\\'] := rfl
  have hquote : ("\"" : String).toList = ['"'] := rfl
  rw [escape, toList_replace hquote, toList_replace hslash]
  generalize v.toList = chars
  induction chars with
  | nil => rfl
  | cons c rest ih =>
      rw [substitute_cons, substitute_append, ih, List.flatMap_cons, escapedChar]
      congr 1
      split_ifs with hc hq
      · rfl
      · subst hq
        rfl
      · simp [substitute, hq]

/-- Without a line feed it is the escaping that the format asks for. -/
theorem flatMap_escapedChar {chars : List Char} (h : '\n' ∉ chars) :
    chars.flatMap escapedChar = chars.flatMap escapeChar := by
  apply List.flatMap_congr
  intro c hc
  have hfeed : c ≠ '\n' := by
    rintro rfl
    exact h hc
  simp [escapedChar, escapeChar, hfeed]

/-- A sample as it should be read. -/
def Sample.read (sample : Sample F) : TextFormat.Sample where
  name := sample.name
  labels := sample.labels
  value := sample.value.str

theorem toList_line {sample : Sample F} (h : ∀ label ∈ sample.labels, '\n' ∉ label.2.toList) :
    (line sample).toList = writeSample sample.read := by
  have hlabels : (sample.labels.map fun label =>
      label.1 ++ "=\"" ++ escape label.2 ++ "\"").map String.toList =
        sample.labels.map writeLabel := by
    rw [List.map_map]
    apply List.map_congr_left
    intro label hlabel
    simp [writeLabel, toList_escape, flatMap_escapedChar (h label hlabel)]
  have hread : sample.read.labels = sample.labels := rfl
  unfold line writeSample
  rw [hread]
  split_ifs with hempty
  · simp [Sample.read]
  · simp only [String.toList_append, String.toList_intercalate, hlabels]
    simp [Sample.read, writeLabels]

/-- What a scraper needs of a sample with one label: it is one line, which reads as
the sample, and no other label value has that line. -/
structure Encodes (name k : String) (value : PyNumber F) (v : String) : Prop where
  single : '\n' ∉ (line ⟨name, [(k, v)], value⟩).toList
  read : readSample (line ⟨name, [(k, v)], value⟩).toList = some ⟨name, [(k, v)], value.str⟩
  distinct : ∀ v', line ⟨name, [(k, v')], value⟩ = line ⟨name, [(k, v)], value⟩ → v' = v

/-- A line feed in a label value breaks the line. -/
theorem newline_mem_line (name k : String) (value : PyNumber F) {v : String}
    (h : '\n' ∈ v.toList) : '\n' ∈ (line ⟨name, [(k, v)], value⟩).toList := by
  have hescape : '\n' ∈ (escape v).toList := by
    rw [toList_escape]
    exact List.mem_flatMap.mpr ⟨'\n', h, by decide⟩
  unfold line
  simp [hescape]

/-- A label value is encoded exactly when it has no line feed, in a sample whose
names and number are what the format allows. -/
theorem encodes_iff {name k : String} {value : PyNumber F} (hname : IsName isMetricChar name.toList)
    (hk : IsName isLabelChar k.toList) (hvalue : value.str ≠ "")
    (hword : ∀ c ∈ value.str.toList, isBlank c = false ∧ c ≠ '\n') (v : String) :
    Encodes name k value v ↔ '\n' ∉ v.toList := by
  constructor
  · intro h hfeed
    exact h.single (newline_mem_line name k value hfeed)
  · intro hfeed
    have hformed : ∀ v', (Sample.read ⟨name, [(k, v')], value⟩).WellFormed := fun v' =>
      ⟨hname, by simpa [Sample.read] using hk, hvalue, hword⟩
    have hline : ∀ {v'}, '\n' ∉ v'.toList → (line ⟨name, [(k, v')], value⟩).toList =
        writeSample (Sample.read ⟨name, [(k, v')], value⟩) := by
      intro v' hv'
      exact toList_line (by simpa using hv')
    have hread : ∀ {v'}, '\n' ∉ v'.toList →
        readSample (line ⟨name, [(k, v')], value⟩).toList = some ⟨name, [(k, v')], value.str⟩ := by
      intro v' hv'
      rw [hline hv', readSample_writeSample (hformed v')]
      rfl
    have hsingle : '\n' ∉ (line ⟨name, [(k, v)], value⟩).toList := by
      rw [hline hfeed]
      exact newline_not_mem_writeSample (hformed v)
    refine ⟨hsingle, hread hfeed, ?_⟩
    intro v' hsame
    have hv' : '\n' ∉ v'.toList := by
      intro hmem
      have hbroken := newline_mem_line name k value hmem
      rw [hsame] at hbroken
      exact hsingle hbroken
    have hboth := hread hv'
    rw [hsame, hread hfeed] at hboth
    simpa using (congrArg TextFormat.Sample.labels (Option.some.inj hboth)).symm

/-- Backslashes and quotes are covered. -/
theorem encodes_iff_quoted :
    Encodes "tradewatch_alerts_by_detector_total" "detector" (.int 1 : PyNumber ℚ)
      "the \"n\\n\" rule" := by
  have hname : IsName isMetricChar ("tradewatch_alerts_by_detector_total" : String).toList :=
    isName_of_all (by decide) (by decide) (by decide)
  have hk : IsName isLabelChar ("detector" : String).toList :=
    isName_of_all (by decide) (by decide) (by decide)
  have hone : (PyNumber.int 1 : PyNumber ℚ).str.toList = ['1'] := by decide
  refine (encodes_iff hname hk (by decide) ?_ _).mpr (by decide)
  rw [hone, List.forall_mem_singleton]
  decide

/-- A detector named on two lines. -/
theorem not_encodes_newline :
    ¬ Encodes (F := ℚ) "tradewatch_alerts_by_detector_total" "detector" (.int 1) "a\nb" := by
  intro h
  exact h.single (newline_mem_line _ _ _ (by decide))

end Prometheus

end TradeWatch
