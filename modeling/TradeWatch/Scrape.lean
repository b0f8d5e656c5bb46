import TradeWatch.Exposition
import TradeWatch.Lib.FloatText
import TradeWatch.Lib.Returns
import TradeWatch.Lib.TextLines

/-!
A whole scrape as a scraper reads it: the samples of all blocks, comments passed over.
The names and the numbers are what the format allows, so all that can spoil a scrape is
the name of a detector, which the collector takes from the alerts.
-/

namespace TradeWatch

open PyFloat TextFormat StateExcept

variable {F : Type} [PyFloat F]

namespace MetricsCollector

theorem breakdowns_recordAll (m : MetricsCollector F) (calls : List (RecordCall F)) :
    (m.recordAll calls).byDetector =
        m.byDetector.tally ((calls.flatMap (·.alerts)).map (·.detector)) ∧
      (m.recordAll calls).bySeverity =
        m.bySeverity.tally ((calls.flatMap (·.alerts)).map (·.severity.value)) := by
  induction calls generalizing m with
  | nil => exact ⟨rfl, rfl⟩
  | cons call rest ih =>
      obtain ⟨hdetector, hseverity⟩ :=
        m.record_breakdowns call.trade call.alerts call.latencyUs call.now
      obtain ⟨hdetectors, hseverities⟩ :=
        ih (m.record call.trade call.alerts call.latencyUs call.now)
      simp only [List.flatMap_cons, List.map_append, Counter.tally_append]
      rw [← hdetector, ← hseverity]
      exact ⟨hdetectors, hseverities⟩

end MetricsCollector

namespace Prometheus

/-- What a sample needs of its value: a text without blanks or line feeds. -/
def Word (text : String) : Prop := text ≠ "" ∧ ∀ c ∈ text.toList, isBlank c = false ∧ c ≠ '\n'

theorem word_of_numeral {text : String} (h : Numeral text) : Word text := by
  refine ⟨h.1, ?_⟩
  intro c hc
  have hne : ∀ other : Char, ¬ IsNumberChar other → c ≠ other := by
    rintro other hother rfl
    exact hother (h.2 c hc)
  have hspace := hne ' ' (by simp [IsNumberChar])
  have htab := hne '\t' (by simp [IsNumberChar])
  exact ⟨by simp [isBlank, hspace, htab], hne '\n' (by simp [IsNumberChar])⟩

theorem word_str (hfloat : ∀ x : F, Word (format x .plain)) (value : PyNumber F) :
    Word value.str := by
  cases value with
  | int n => exact word_of_numeral (numeral_int n)
  | float x => exact hfloat x

/-- The names of `render`. -/
def metricNames : List String :=
  ["tradewatch_trades_total", "tradewatch_alerts_total", "tradewatch_notional_total",
    "tradewatch_symbols_tracked", "tradewatch_alert_rate_pct", "tradewatch_trades_per_second",
    "tradewatch_pipeline_running", "tradewatch_uptime_seconds",
    "tradewatch_alerts_by_detector_total", "tradewatch_alerts_by_severity_total",
    "tradewatch_latency_microseconds", "tradewatch_latency_microseconds_sum",
    "tradewatch_latency_microseconds_count"]

/-- The names of its labels. -/
def labelNames : List String := ["detector", "severity", "quantile"]

theorem isName_of_mem {allowed : Char → Bool} {names : List String}
    (hall : names.all (fun name => !name.toList.isEmpty &&
      !name.toList.head?.any Char.isDigit && name.toList.all allowed) = true)
    {name : String} (h : name ∈ names) : IsName allowed name.toList := by
  have hname := List.all_eq_true.mp hall name h
  simp only [Bool.and_eq_true, Bool.not_eq_true'] at hname
  obtain ⟨⟨hne, hstart⟩, hchars⟩ := hname
  exact isName_of_all (by simpa using hne) hstart hchars

/-- What the format asks of a block: names that it allows, comments on one line. -/
structure Block.Plain (block : Block F) : Prop where
  name : block.name ∈ metricNames
  help : '\n' ∉ block.helpText.toList
  samples : ∀ s ∈ block.samples, s.name ∈ metricNames ∧ ∀ label ∈ s.labels, label.1 ∈ labelNames

/-- No label value has a line feed. -/
def Sample.Whole (s : Sample F) : Prop := ∀ label ∈ s.labels, '\n' ∉ label.2.toList

section Blocks

omit [PyFloat F] in
theorem plain_single {name helpText : String} {mtype : MetricType} {value : PyNumber F}
    (hname : name ∈ metricNames) (hhelp : '\n' ∉ helpText.toList) :
    (single name helpText mtype value).Plain ∧
      ∀ s ∈ (single name helpText mtype value).samples, s.Whole :=
  ⟨⟨hname, hhelp, List.forall_mem_singleton.mpr ⟨hname, by simp⟩⟩,
    List.forall_mem_singleton.mpr (by simp [Sample.Whole])⟩

omit [PyFloat F] in
theorem names_of_mem_breakdown {name k : String} (hname : name ∈ metricNames)
    (hk : k ∈ labelNames) (counts : Counter String) :
    ∀ s ∈ (breakdown name k counts : List (Sample F)),
      s.name ∈ metricNames ∧ ∀ label ∈ s.labels, label.1 ∈ labelNames := by
  unfold breakdown
  split
  · exact List.forall_mem_singleton.mpr ⟨hname, List.forall_mem_singleton.mpr hk⟩
  · intro s hs
    obtain ⟨entry, _, rfl⟩ := List.mem_map.mp hs
    exact ⟨hname, List.forall_mem_singleton.mpr hk⟩

omit [PyFloat F] in
theorem whole_of_mem_breakdown {name k : String} {counts : Counter String}
    (h : ∀ key ∈ counts.keys, '\n' ∉ key.toList) :
    ∀ s ∈ (breakdown name k counts : List (Sample F)), s.Whole := by
  unfold breakdown
  split
  · exact List.forall_mem_singleton.mpr (by simp [Sample.Whole])
  · intro s hs
    obtain ⟨entry, hentry, rfl⟩ := List.mem_map.mp hs
    exact List.forall_mem_singleton.mpr (h entry.1 (List.mem_map_of_mem hentry))

variable {m : MetricsCollector F} {running : Bool} {now : ℚ} {out : List (Block F)}

/-- The blocks are plain, and whole but for a key with a line feed. -/
theorem plain_of_mem_blocks (h : blocks m running now = .ok out) :
    ∀ block ∈ out, block.Plain ∧
      ((∀ key ∈ m.byDetector.keys, '\n' ∉ key.toList) →
        (∀ key ∈ m.bySeverity.keys, '\n' ∉ key.toList) → ∀ s ∈ block.samples, s.Whole) := by
  unfold blocks at h
  obtain ⟨kpis, _, h⟩ := exists_of_bind_eq_ok h
  obtain ⟨lat, _, h⟩ := exists_of_bind_eq_ok h
  obtain rfl := Except.ok.inj h
  have hsingle : ∀ {name helpText : String} {mtype : MetricType} {value : PyNumber F},
      name ∈ metricNames → '\n' ∉ helpText.toList →
        (single name helpText mtype value).Plain ∧
          ((∀ key ∈ m.byDetector.keys, '\n' ∉ key.toList) →
            (∀ key ∈ m.bySeverity.keys, '\n' ∉ key.toList) →
              ∀ s ∈ (single name helpText mtype value).samples, s.Whole) := by
    intro name helpText mtype value hname hhelp
    obtain ⟨hplain, hwhole⟩ := plain_single hname hhelp
    exact ⟨hplain, fun _ _ => hwhole⟩
  intro block hblock
  simp only [List.mem_cons, List.not_mem_nil, or_false] at hblock
  rcases hblock with rfl | rfl | rfl | rfl | rfl | rfl | rfl | rfl | rfl | rfl | rfl
  iterate 8 exact hsingle (by simp [metricNames]) (by decide)
  · -- the alerts by detector
    refine ⟨⟨by simp [metricNames], by simp, ?_⟩, ?_⟩
    · exact names_of_mem_breakdown (by simp [metricNames]) (by simp [labelNames]) _
    · exact fun hdetector _ => whole_of_mem_breakdown hdetector
  · -- the alerts by severity
    refine ⟨⟨by simp [metricNames], by simp, ?_⟩, ?_⟩
    · exact names_of_mem_breakdown (by simp [metricNames]) (by simp [labelNames]) _
    · exact fun _ hseverity => whole_of_mem_breakdown hseverity
  · -- the latency summary
    refine ⟨⟨by simp [metricNames], by simp, ?_⟩, fun _ _ => ?_⟩
    · simp [metricNames, labelNames]
    · simp [Sample.Whole]

end Blocks

section Text

theorem isMetricName {name : String} (h : name ∈ metricNames) : IsName isMetricChar name.toList :=
  isName_of_mem (by decide) h

theorem isLabelName {k : String} (h : k ∈ labelNames) : IsName isLabelChar k.toList :=
  isName_of_mem (by decide) h

theorem wellFormed_read (hfloat : ∀ x : F, Word (format x .plain)) {block : Block F}
    (hplain : block.Plain) {s : Sample F} (hs : s ∈ block.samples) : s.read.WellFormed := by
  obtain ⟨hname, hlabels⟩ := hplain.samples s hs
  obtain ⟨hvalue, hword⟩ := word_str hfloat s.value
  exact ⟨isMetricName hname, fun label hlabel => isLabelName (hlabels label hlabel), hvalue, hword⟩

/-- The comments of a block are passed over, its samples are a line each. -/
theorem sampleLines_lines (hfloat : ∀ x : F, Word (format x .plain)) {block : Block F}
    (hplain : block.Plain) (hwhole : ∀ s ∈ block.samples, s.Whole) :
    (block.lines.map String.toList).flatMap sampleLines =
      (block.samples.map Sample.read).map writeSample := by
  have hname : '\n' ∉ block.name.toList :=
    newline_not_mem_of_isName (isMetricName hplain.name) (by decide)
  have hcomment : ∀ word text : String, '\n' ∉ word.toList → '\n' ∉ text.toList →
      sampleLines ('#' :: (word.toList ++ block.name.toList ++ ' ' :: text.toList)) = [] := by
    intro word text hword htext
    exact sampleLines_comment (by simp [hword, hname, htext])
  have hhelp : sampleLines ("# HELP " ++ block.name ++ " " ++ block.helpText).toList = [] := by
    simpa using hcomment " HELP " block.helpText (by decide) hplain.help
  have htype : sampleLines ("# TYPE " ++ block.name ++ " " ++ block.mtype.value).toList = [] := by
    have hvalue : '\n' ∉ block.mtype.value.toList := by
      cases block.mtype <;> decide
    simpa using hcomment " TYPE " block.mtype.value (by decide) hvalue
  have hsamples : ∀ s ∈ block.samples, sampleLines (line s).toList = [writeSample s.read] := by
    intro s hs
    rw [toList_line (hwhole s hs), sampleLines_writeSample (wellFormed_read hfloat hplain hs)]
  have hall : ((block.samples.map line).map String.toList).flatMap sampleLines =
      (block.samples.map Sample.read).map writeSample := by
    rw [List.flatMap_map, List.flatMap_map, List.flatMap_congr hsamples, ← List.map_eq_flatMap,
      List.map_map]
    rfl
  rw [Block.lines, List.map_append, List.flatMap_append, hall]
  simp only [List.map_cons, List.map_nil, List.flatMap_cons, List.flatMap_nil, hhelp, htype,
    List.nil_append]

/-- The text of a scrape. -/
def textOf (out : List (Block F)) : List Char :=
  writeText ((out.flatMap Block.lines).map String.toList)

theorem sampleLines_textOf (out : List (Block F)) :
    sampleLines (textOf out) =
      out.flatMap (fun block => (block.lines.map String.toList).flatMap sampleLines) := by
  rw [textOf, sampleLines_writeText, List.map_flatMap, List.flatMap_assoc]

theorem readText_textOf (hfloat : ∀ x : F, Word (format x .plain)) {out : List (Block F)}
    (hplain : ∀ block ∈ out, block.Plain) (hwhole : ∀ block ∈ out, ∀ s ∈ block.samples, s.Whole) :
    readText (textOf out) = some ((out.flatMap (·.samples)).map Sample.read) := by
  have hlines : sampleLines (textOf out) =
      ((out.flatMap (·.samples)).map Sample.read).map writeSample := by
    rw [sampleLines_textOf, List.map_flatMap, List.map_flatMap]
    exact List.flatMap_congr fun block hblock =>
      sampleLines_lines hfloat (hplain block hblock) (hwhole block hblock)
  rw [readText, hlines, mapM_readSample]
  intro sample hsample
  obtain ⟨s, hs, rfl⟩ := List.mem_map.mp hsample
  obtain ⟨block, hblock, hs⟩ := List.mem_flatMap.mp hs
  exact wellFormed_read hfloat (hplain block hblock) hs

/-- A line feed in the value of an only label leaves a line that does not read. -/
theorem readText_textOf_cut {out : List (Block F)} {block : Block F} (hblock : block ∈ out)
    {name k v : String} {value : PyNumber F} (hname : name ∈ metricNames) (hk : k ∈ labelNames)
    (hs : ⟨name, [(k, v)], value⟩ ∈ block.samples) (hfeed : '\n' ∈ v.toList) :
    readText (textOf out) = none := by
  obtain ⟨front, back, hv, hfront⟩ := List.eq_append_cons_of_mem hfeed
  let cut := name.toList ++ '\x7b' :: (k.toList ++ '=' :: '"' :: front.flatMap escapeChar)
  have hmetric := isMetricName hname
  have hlabel := isLabelName hk
  have hescape : (escape v).toList =
      front.flatMap escapeChar ++ '\n' :: back.flatMap escapedChar := by
    rw [toList_escape, hv, List.flatMap_append, List.flatMap_cons, flatMap_escapedChar hfront]
    rfl
  have hline : (line ⟨name, [(k, v)], value⟩).toList =
      cut ++ '\n' :: (back.flatMap escapedChar ++ '"' :: '\x7d' :: ' ' :: value.str.toList) := by
    simp [line, hescape, cut]
  have hone : '\n' ∉ cut := by
    have hname' := newline_not_mem_of_isName hmetric (by decide)
    have hk' := newline_not_mem_of_isName hlabel (by decide)
    have hvalue : '\n' ∉ front.flatMap escapeChar := by
      rw [List.mem_flatMap]
      rintro ⟨c, _, hc⟩
      exact newline_not_mem_escapeChar c hc
    simp [cut, hname', hk', hvalue]
  have hmem : cut ∈ sampleLines (line ⟨name, [(k, v)], value⟩).toList := by
    have hne : cut ≠ [] := by simp [cut]
    rw [hline, sampleLines_append, sampleLines_singleton hone hne (head?_ne_comment hmetric _)]
    exact List.mem_append_left _ (List.mem_singleton_self _)
  refine readText_eq_none ?_ (readSample_open hmetric hlabel front)
  rw [sampleLines_textOf]
  refine List.mem_flatMap.mpr ⟨block, hblock, List.mem_flatMap.mpr ⟨_, ?_, hmem⟩⟩
  exact List.mem_map_of_mem (List.mem_append_right _ (List.mem_map_of_mem hs))

end Text

section Scrape

variable {m : MetricsCollector F} {running : Bool} {now : ℚ}

theorem render_eq_ok {text : String} (h : render m running now = .ok text) :
    ∃ out, blocks m running now = .ok out ∧ text.toList = textOf out := by
  unfold render at h
  obtain ⟨out, hout, htext⟩ := exists_of_bind_eq_ok h
  refine ⟨out, hout, ?_⟩
  rw [← Except.ok.inj htext, String.toList_append, String.toList_intercalate]
  rfl

theorem detectors_mem_blocks {out : List (Block F)} (h : blocks m running now = .ok out) :
    (⟨"tradewatch_alerts_by_detector_total", "Alerts broken down by detector.", .counter,
      breakdown "tradewatch_alerts_by_detector_total" "detector" m.byDetector⟩ : Block F) ∈
      out := by
  unfold blocks at h
  obtain ⟨kpis, _, h⟩ := exists_of_bind_eq_ok h
  obtain ⟨lat, _, h⟩ := exists_of_bind_eq_ok h
  obtain rfl := Except.ok.inj h
  simp

theorem mem_keys_tally {keys : List String} {key : String} :
    key ∈ (Counter.tally .empty keys).keys ↔ key ∈ keys := by
  rw [OrderedDict.mem_keys_iff, Counter.get?_tally]
  by_cases hmem : key ∈ keys <;> simp [hmem]

/-- A scrape is read back, all samples of all blocks, when no recorded alert has a
detector with a line feed in its name. One that has leaves nothing of the scrape
readable. -/
theorem scrape_reads_back (hfloat : ∀ x : F, Word (format x .plain)) (startTime : ℚ)
    (tsWindow : ℤ) (pricePoints latencyReservoir tapeSize : ℕ) (calls : List (RecordCall F))
    (running : Bool) (now : ℚ) {text : String}
    (htext : render ((MetricsCollector.init startTime tsWindow pricePoints latencyReservoir
      tapeSize).recordAll calls) running now = .ok text) :
    ∃ out, blocks ((MetricsCollector.init startTime tsWindow pricePoints latencyReservoir
        tapeSize).recordAll calls) running now = .ok out ∧
      ((∀ call ∈ calls, ∀ alert ∈ call.alerts, '\n' ∉ alert.detector.toList) →
        readText text.toList = some ((out.flatMap (·.samples)).map Sample.read)) ∧
      ((∃ call ∈ calls, ∃ alert ∈ call.alerts, '\n' ∈ alert.detector.toList) →
        readText text.toList = none) := by
  obtain ⟨out, hout, hchars⟩ := render_eq_ok htext
  obtain ⟨hdetectors, hseverities⟩ := (MetricsCollector.init startTime tsWindow pricePoints
    latencyReservoir tapeSize : MetricsCollector F).breakdowns_recordAll calls
  generalize (MetricsCollector.init startTime tsWindow pricePoints latencyReservoir
    tapeSize : MetricsCollector F).recordAll calls = m at hout hdetectors hseverities
  have hplain := plain_of_mem_blocks hout
  refine ⟨out, hout, ?_, ?_⟩
  · intro hwhole
    rw [hchars]
    refine readText_textOf hfloat (fun block hblock => (hplain block hblock).1) ?_
    intro block hblock
    refine (hplain block hblock).2 ?_ ?_
    · intro key hkey
      rw [hdetectors] at hkey
      obtain ⟨alert, halert, rfl⟩ := List.mem_map.mp (mem_keys_tally.mp hkey)
      obtain ⟨call, hcall, halert⟩ := List.mem_flatMap.mp halert
      exact hwhole call hcall alert halert
    · intro key hkey
      rw [hseverities] at hkey
      obtain ⟨alert, _, rfl⟩ := List.mem_map.mp (mem_keys_tally.mp hkey)
      cases alert.severity <;> decide
  · rintro ⟨call, hcall, alert, halert, hfeed⟩
    have hkey : alert.detector ∈ m.byDetector.keys := by
      rw [hdetectors]
      exact mem_keys_tally.mpr
        (List.mem_map_of_mem (List.mem_flatMap.mpr ⟨call, hcall, halert⟩))
    obtain ⟨n, hn⟩ := OrderedDict.mem_keys_iff.mp hkey
    rw [hchars]
    exact readText_textOf_cut (detectors_mem_blocks hout) (by simp [metricNames])
      (by simp [labelNames]) (mem_breakdown_of_get? hn) hfeed

/-- One self-trade was recorded. -/
theorem scrape_reads_back_self_trade :
    ∃ text out,
      render ((MetricsCollector.init 0 300 120 4000 80).recordAll
          [⟨selfTradeAt "a" 0, [selfTradeAlert], 5, 0⟩]) true 1 = .ok text ∧
        blocks ((MetricsCollector.init 0 300 120 4000 80).recordAll
          [⟨selfTradeAt "a" 0, [selfTradeAlert], 5, 0⟩]) true 1 = .ok out ∧
        readText text.toList = some ((out.flatMap (·.samples)).map Sample.read) := by
  have hok : (render ((MetricsCollector.init 0 300 120 4000 80).recordAll
      [⟨selfTradeAt "a" 0, [selfTradeAlert], 5, 0⟩]) true 1).isOk = true := by
    decide +kernel
  cases htext : render ((MetricsCollector.init 0 300 120 4000 80).recordAll
      [⟨selfTradeAt "a" 0, [selfTradeAlert], 5, 0⟩]) true 1 with
  | error err =>
      rw [htext] at hok
      cases hok
  | ok text =>
      obtain ⟨out, hout, hreads, _⟩ := scrape_reads_back
        (fun x : ℚ => word_of_numeral (numeral_formatExact x .plain)) 0 300 120 4000 80
        [⟨selfTradeAt "a" 0, [selfTradeAlert], 5, 0⟩] true 1 htext
      exact ⟨text, out, rfl, hout, hreads (by decide)⟩

end Scrape

end Prometheus

end TradeWatch
