import TradeWatch.Hadoop.MapReduce
import TradeWatch.Lib.FloatText
import TradeWatch.Lib.JsonPrefix
import TradeWatch.Metrics

/-!
A cycle of the batch runner: generate a history, run the Spark backtest if that
works, run the MapReduce job through pipes and write a heartbeat for the platform
page. Other programs are outside; a cycle is given their exit codes and what
starting them raises.
-/

namespace TradeWatch.BatchRunner

open PyFloat Json

inductive HistoryFormat
  | json
  | parquet
  deriving DecidableEq, Repr

/-- What a cycle meets outside: the exit codes of the programs that it starts,
the lines of the generated history, the random number and the clock. -/
structure Surroundings where
  mkdir : Except PyError Unit
  randint : ℤ
  generate : HistoryFormat → Except PyError ℤ
  backtest : Except PyError ℤ
  history : Except PyError (List (List Char))
  time : ℚ
  gmtime : String

/-- What a cycle leaves for the platform page. -/
structure Heartbeat where
  epoch : ℤ
  lastCycle : String
  cycle : ℤ
  seed : ℤ
  trades : ℤ
  mrAnomalies : ℤ
  spark : Bool
  deriving DecidableEq, Repr

/-- `_gen`. -/
def gen (s : Surroundings) (fmt : HistoryFormat) : Except PyError Bool := do
  let returncode ← s.generate fmt
  pure (returncode = 0)

/-- `_spark_backtest`: whatever is raised counts as a failure. -/
def sparkBacktest (s : Surroundings) : Bool :=
  match s.backtest with
  | .ok returncode => returncode = 0
  | .error _ => false

section MapReduce

variable {F : Type} [PyFloat F] (py : PyText F) (env : Reducer.Thresholds F)

/-- What the reducer writes to its standard output. -/
def reducerText (input : List (List Char)) : List Char :=
  (Reducer.main py env ((ordered (Mapper.main py input)).splitOn '\n')).1.flatMap (· ++ ['\n'])

/-- `_mapreduce` on the lines of the file: how many lines the reducer writes. The
exit codes of the two processes are not looked at. -/
def mapreduce (input : List (List Char)) : ℕ :=
  ((splitlines (reducerText py env input)).filter (fun line => !line.isEmpty)).length

/-- `run_cycle` up to the heartbeat. -/
def runCycle (s : Surroundings) (cycle : ℕ) (trades : ℤ) : Except PyError Heartbeat := do
  s.mkdir
  let _ ← gen s .json
  let generated ← gen s .parquet
  let sparkOk := generated && sparkBacktest s
  let input ← s.history
  pure
    { epoch := pyInt s.time
      lastCycle := s.gmtime
      cycle := cycle
      seed := s.randint
      trades := trades
      mrAnomalies := mapreduce py env input
      spark := sparkOk }

end MapReduce

section Count

/-- What `str.splitlines` leaves together. -/
def OneLine (chars : List Char) : Prop := ∀ c ∈ chars, c ∉ lineBoundaries

theorem oneLine_of_all {chars : List Char}
    (h : chars.all (fun c => !lineBoundaries.contains c) = true) : OneLine chars := by
  simpa [OneLine] using h

theorem oneLine_append {first second : List Char} :
    OneLine (first ++ second) ↔ OneLine first ∧ OneLine second := by
  simp only [OneLine, List.mem_append, or_imp, forall_and]

theorem oneLine_splitlines (text : List Char) : ∀ line ∈ splitlines text, OneLine line := by
  induction text using splitlines.induct with
  | case1 => simp [splitlines]
  | case2 rest ih =>
      rw [splitlines, List.forall_mem_cons]
      exact ⟨by simp [OneLine], ih⟩
  | case3 c rest hcrlf hboundary ih =>
      rw [splitlines, if_pos hboundary, List.forall_mem_cons]
      · exact ⟨by simp [OneLine], ih⟩
      · exact hcrlf
  | case4 c rest hcrlf hboundary hnone ih =>
      rw [splitlines, if_neg hboundary, hnone]
      · simpa [OneLine] using hboundary
      · exact hcrlf
  | case5 c rest hcrlf hboundary line more hlines ih =>
      rw [hlines, List.forall_mem_cons] at ih
      rw [splitlines, if_neg hboundary, hlines]
      · refine List.forall_mem_cons.mpr ⟨?_, ih.2⟩
        exact List.forall_mem_cons.mpr ⟨hboundary, ih.1⟩
      · exact hcrlf

theorem splitlines_cons {c : Char} (h : c ∉ lineBoundaries) (rest : List Char) :
    splitlines (c :: rest) =
      match splitlines rest with
      | [] => [[c]]
      | line :: more => (c :: line) :: more := by
  have hcrlf : ∀ tail, c = '\r' → rest = '\n' :: tail → False := by
    rintro tail rfl
    exact absurd h (by decide)
  exact (splitlines.eq_3 c rest hcrlf).trans (if_neg h)

/-- Lines that are written one by one are read one by one. -/
theorem splitlines_flatMap {lines : List (List Char)} (h : ∀ line ∈ lines, OneLine line) :
    splitlines (lines.flatMap (· ++ ['\n'])) = lines := by
  induction lines with
  | nil => rfl
  | cons line rest ih =>
      obtain ⟨hline, hrest⟩ := List.forall_mem_cons.mp h
      rw [List.flatMap_cons, List.append_assoc, List.singleton_append]
      have hnext : splitlines ('\n' :: rest.flatMap (· ++ ['\n'])) = [] :: rest := by
        have hplain : '\n' ∈ lineBoundaries := by decide
        rw [splitlines, if_pos hplain, ih hrest]
        simp
      clear ih h
      induction line with
      | nil => exact hnext
      | cons c line ihline =>
          obtain ⟨hc, hline⟩ := List.forall_mem_cons.mp hline
          rw [List.cons_append, splitlines_cons hc, ihline hline]

/-- The text of a number is one word. -/
theorem oneLine_format (x : ℝ) (spec : FloatFormat) : OneLine (format x spec).toList := by
  intro c hc
  have hchar : IsNumberChar c := (numeral_formatExact x spec).2 c hc
  rcases hchar with hdigit | hmark
  · intro hmem
    simp only [lineBoundaries, List.mem_cons, List.not_mem_nil, or_false] at hmem
    rcases hmem with rfl | rfl | rfl | rfl | rfl | rfl | rfl | rfl | rfl | rfl <;>
      exact absurd hdigit (by decide)
  · simp only [List.mem_cons, List.not_mem_nil, or_false] at hmark
    rcases hmark with rfl | rfl | rfl | rfl <;> decide

theorem oneLine_lineOf {symbol : String} (hsymbol : OneLine symbol.toList) (row : ℝ × ℝ)
    (verdict : Reducer.Label × ℝ) : OneLine (Reducer.lineOf symbol row verdict) := by
  obtain ⟨label, score⟩ := verdict
  cases label with
  | zscore =>
      simp only [Reducer.lineOf, String.toList_append, oneLine_append]
      exact ⟨⟨⟨⟨⟨⟨hsymbol, oneLine_of_all (by decide)⟩, oneLine_format _ _⟩,
        oneLine_of_all (by decide)⟩, oneLine_format _ _⟩, oneLine_of_all (by decide)⟩,
        oneLine_format _ _⟩
  | volumeSpike =>
      simp only [Reducer.lineOf, String.toList_append, oneLine_append]
      exact ⟨⟨⟨⟨⟨⟨hsymbol, oneLine_of_all (by decide)⟩, oneLine_format _ _⟩,
        oneLine_of_all (by decide)⟩, oneLine_format _ _⟩, oneLine_of_all (by decide)⟩,
        oneLine_format _ _⟩

theorem lineOf_ne_nil (symbol : String) (row : ℝ × ℝ) (verdict : Reducer.Label × ℝ) :
    Reducer.lineOf symbol row verdict ≠ [] := by
  obtain ⟨label, score⟩ := verdict
  cases label <;> simp [Reducer.lineOf]

variable (py : PyText ℝ) (env : Reducer.Thresholds ℝ)

/-- What the reducer reads is cut at every boundary, so a symbol holds none. -/
theorem oneLine_symbol {text line : List Char} {row : String × ℝ × ℝ}
    (hline : line ∈ (ordered text).splitOn '\n') (hrow : Reducer.parseLine py line = some row) :
    OneLine row.1.toList := by
  have hplain : ∀ line ∈ sortedTexts (splitlines text), OneLine line := by
    intro line hline
    exact oneLine_splitlines text line ((sortedTexts_perm _).mem_iff.mp hline)
  have hpieces : Split.pieces '\n' (ordered text) =
      (sortedTexts (splitlines text)).filter (fun line => !line.isEmpty) :=
    Split.pieces_intercalate (fun line hline hnewline => hplain line hline _ hnewline (by decide))
  have hmem : line ∈ Split.pieces '\n' (ordered text) := by
    rw [Split.pieces, List.mem_filter]
    refine ⟨hline, ?_⟩
    cases line with
    | nil => cases hrow
    | cons c line => rfl
  rw [hpieces, List.mem_filter] at hmem
  intro c hc
  rw [(Reducer.key_of_parseLine py hrow).1, keyOf, String.toList_ofList] at hc
  exact hplain line hmem.1 c (List.takeWhile_subset _ hc)

/-- What the reducer writes is one line for each anomaly, if the symbols that it reads
are each on one line. -/
theorem oneLine_main {lines : List (List Char)}
    (hsymbols : ∀ line ∈ lines, ∀ row, Reducer.parseLine py line = some row →
      OneLine row.1.toList) :
    ∀ line ∈ (Reducer.main py env lines).1, OneLine line ∧ line ≠ [] := by
  intro line hline
  rw [Reducer.main_real] at hline
  obtain ⟨⟨symbol, rows⟩, hgroup, hjudged⟩ := List.mem_flatMap.mp hline
  have hsymbol : OneLine symbol.toList := by
    have hkey := (GroupBy.mem_keys_runs _ symbol).mp (List.mem_map_of_mem hgroup)
    obtain ⟨row, hrow, rfl⟩ := List.mem_map.mp hkey
    obtain ⟨source, hsource, hparse⟩ := List.mem_filterMap.mp hrow
    exact hsymbols source hsource row hparse
  unfold Reducer.judged at hjudged
  split at hjudged
  · cases hjudged
  · obtain ⟨row, _, hlabel⟩ := List.mem_filterMap.mp hjudged
    obtain ⟨label, _, rfl⟩ := Option.map_eq_some_iff.mp hlabel
    exact ⟨oneLine_lineOf hsymbol _ _, lineOf_ne_nil _ _ _⟩

/-- The runner counts the lines that the reducer writes, one by one. -/
theorem mapreduce_eq_length (input : List (List Char)) :
    mapreduce py env input =
      (Reducer.main py env ((ordered (Mapper.main py input)).splitOn '\n')).1.length := by
  have hlines : ∀ line ∈ (Reducer.main py env
      ((ordered (Mapper.main py input)).splitOn '\n')).1, OneLine line ∧ line ≠ [] :=
    oneLine_main py env (fun _ hline _ hrow => oneLine_symbol py hline hrow)
  have hfilter : ∀ line ∈ (Reducer.main py env
      ((ordered (Mapper.main py input)).splitOn '\n')).1, (!line.isEmpty) = true := by
    intro line hline
    simpa using (hlines line hline).2
  rw [mapreduce, reducerText, splitlines_flatMap (fun line hline => (hlines line hline).1),
    List.filter_eq_self.mpr hfilter]

/-- The count, for a mapper whose output is cut at line feeds alone. -/
theorem mapreduce_eq_card {input : List (List Char)}
    (hplain : OnlyLineFeeds (Mapper.main py input)) :
    mapreduce py env input =
      (specification (Reducer.labelOf env) env.minTrades
        ((Split.pieces '\n' (Mapper.main py input)).filterMap (Reducer.parseLine py))).card := by
  obtain ⟨outputs, hmain, hsum⟩ := (ordered_shuffled hplain).writes py env
  rw [mapreduce_eq_length, hmain (), ← hsum]
  simp

/-- The mapper writes the same records for the lines in another order. -/
theorem main_perm {input input' : List (List Char)} (hcompletes : Mapper.Completes py input)
    (hperm : input'.Perm input) :
    Mapper.Completes py input' ∧ (Mapper.main py input').Perm (Mapper.main py input) := by
  have hcompletes' : Mapper.Completes py input' :=
    fun line hline => hcompletes line (hperm.mem_iff.mp hline)
  refine ⟨hcompletes', ?_⟩
  rw [Mapper.main_of_completes py hcompletes', Mapper.main_of_completes py hcompletes]
  exact hperm.flatMap_right _

theorem mapreduce_perm {input input' : List (List Char)}
    (hcompletes : Mapper.Completes py input) (hplain : OnlyLineFeeds (Mapper.main py input))
    (hperm : input'.Perm input) : mapreduce py env input' = mapreduce py env input := by
  obtain ⟨_, htext⟩ := main_perm py hcompletes hperm
  have hplain' : OnlyLineFeeds (Mapper.main py input') :=
    fun c hc => hplain c (htext.mem_iff.mp hc)
  have hrecords := (Mapper.pieces_main_perm py hperm hcompletes).filterMap (Reducer.parseLine py)
  rw [mapreduce_eq_card py env hplain', mapreduce_eq_card py env hplain,
    specification_perm _ _ hrecords]

end Count

namespace Heartbeat

/-- No entry of the dictionary is a float. -/
def noFloats : NumberText Empty := ⟨Empty.elim, Empty.elim⟩

/-- The dictionary `hb`. -/
def entries (hb : Heartbeat) : List (String × Value Empty) :=
  [("epoch", .int hb.epoch), ("last_cycle", .str hb.lastCycle), ("cycle", .int hb.cycle),
    ("seed", .int hb.seed), ("trades", .int hb.trades), ("mr_anomalies", .int hb.mrAnomalies),
    ("spark", .bool hb.spark)]

/-- What the dictionary decodes to. -/
def decoded (hb : Heartbeat) : List (String × Json) :=
  [("epoch", .int hb.epoch), ("last_cycle", .str hb.lastCycle), ("cycle", .int hb.cycle),
    ("seed", .int hb.seed), ("trades", .int hb.trades), ("mr_anomalies", .int hb.mrAnomalies),
    ("spark", .bool hb.spark)]

/-- Python does not write an integer of more than 4300 digits. -/
def writable (hb : Heartbeat) : Bool :=
  [hb.epoch, hb.cycle, hb.seed, hb.trades, hb.mrAnomalies].all
    (fun n => (Nat.toDigits 10 n.natAbs).length ≤ 4300)

def text (hb : Heartbeat) : List Char := Value.text .dumps noFloats (.dict hb.entries)

/-- `json.dumps(hb)`. -/
def dumps (hb : Heartbeat) : Except PyError (List Char) :=
  if hb.writable then .ok hb.text else .error .valueError

theorem prints_entries {hb : Heartbeat} (h : hb.writable) :
    Value.Prints noFloats (.dict hb.entries) := by
  simp only [writable, List.all_cons, List.all_nil, Bool.and_true, Bool.and_eq_true,
    decide_eq_true_eq] at h
  obtain ⟨hepoch, hcycle, hseed, htrades, hanomalies⟩ := h
  exact ⟨hepoch, trivial, hcycle, hseed, htrades, hanomalies, trivial, trivial⟩

/-- A whole heartbeat reads back. -/
theorem loads_text {hb : Heartbeat} (h : hb.writable) (limit : ℕ+) :
    loads limit (.ofList hb.text) = .ok (.dict hb.decoded) :=
  Value.loads_text (prints_entries h) limit.pos

/-- A torn one is no JSON. -/
theorem loads_torn {hb : Heartbeat} (h : hb.writable) {piece : List Char}
    (hpiece : piece <+: hb.text) (htorn : piece ≠ hb.text) (limit : ℕ+) :
    (loads limit (.ofList piece)).toOption = none := by
  have hparse := Value.parse_torn (prints_entries h) hpiece htorn
  cases hloads : loads limit (.ofList piece) with
  | error err => rfl
  | ok value =>
      rw [parse_of_loads limit hloads] at hparse
      cases hparse

end Heartbeat

end TradeWatch.BatchRunner
