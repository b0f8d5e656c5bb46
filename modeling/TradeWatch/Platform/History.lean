import TradeWatch.Lib.JsonTree
import TradeWatch.Platform.BatchRunner
import TradeWatch.Replay
import TradeWatch.Sources.Symbols

/-!
The history that a batch cycle is run on. It is the simulator's tape, one trade to a
line, so what the cycle counts is settled by the tape: the mapper passes on every
trade of it, as it was made, and nothing else.
-/

namespace TradeWatch.GenerateHistory

open PyFloat Json MarketSimulator

/-- The symbols of a generated history. -/
def symbols : List String := ["AAPL", "MSFT", "BTC-USD", "ETH-USD", "TSLA"]

section Model

variable {F G : Type} [PyFloat F]

/-- One line for each of the rows. -/
def text (write : TradeText F) (tape : List (LabeledTrade F)) : List Char :=
  tape.flatMap (fun entry => dumps write.toNumberText (entry.1.modelDump write) ++ ['\n'])

/-- `main` with `--format json`: what the file holds. -/
def main (env : Chance F G) (write : TradeText F) (trades : ℤ) (anomalyRate : F) (rng : G) :
    Except PyError (List Char) := do
  let (tape, _) ← labeledBatch env trades (init env symbols anomalyRate rng)
  pure (text write tape)

/-- The lines of a file, without their line feeds. The mapper strips its lines and
passes over blank ones. -/
def lines (file : List Char) : List (List Char) := Split.pieces '\n' file

end Model

section Lines

variable {F : Type}

theorem newline_notMem_encodeString (text : String) : '\n' ∉ encodeString text := by
  have hescaped : '\n' ∉ text.toList.flatMap escapeChar := by
    rw [List.mem_flatMap]
    rintro ⟨c, _, hc⟩
    exact newline_notMem_escapeChar c hc
  simp [encodeString, hescaped]

theorem newline_notMem_text {numbers : NumberText F} {value : Scalar F}
    (h : value.Prints numbers) : '\n' ∉ value.text numbers := by
  cases value with
  | null => simp [Scalar.text]
  | str text => exact newline_notMem_encodeString text
  | float x =>
      intro hnewline
      exact absurd (h.2 '\n' hnewline) (by decide)

theorem newline_notMem_dumps {numbers : NumberText F} {entries : List (String × Scalar F)}
    (h : ∀ entry ∈ entries, entry.2.Prints numbers) : '\n' ∉ dumps numbers entries := by
  have hentry : ∀ entry ∈ entries, '\n' ∉ entryText numbers entry := by
    intro entry hmem
    simp [entryText, newline_notMem_encodeString, newline_notMem_text (h entry hmem)]
  cases entries with
  | nil => simp [dumps]
  | cons entry rest =>
      obtain ⟨hfirst, hrest⟩ := List.forall_mem_cons.mp hentry
      have hlater : '\n' ∉ laterText numbers rest := by
        rw [laterText, List.mem_flatMap]
        rintro ⟨other, hmem, hnewline⟩
        have hother := hrest other hmem
        simp_all
      simp [dumps, hfirst, hlater]

/-- An object begins and ends with a bracket. -/
theorem strip_dumps (numbers : NumberText F) (entry : String × Scalar F)
    (rest : List (String × Scalar F)) :
    strip (dumps numbers (entry :: rest)) = dumps numbers (entry :: rest) := by
  apply strip_eq_self
  · intro c hc
    rw [dumps, List.head?_cons] at hc
    rw [← Option.some.inj hc]
    decide
  · intro c hc
    rw [dumps, ← List.cons_append, List.getLast?_append] at hc
    rw [← Option.some.inj hc]
    decide

end Lines

section Mapped

variable {F : Type} [PyFloat F] {py : PyText F} {write : TradeText F}

/-- A number that comes through the job: `json` reads what it wrote, as the number
that was written, and so does `float` with the mapper's text. -/
structure Written (py : PyText F) (write : TradeText F) (x : F) : Prop where
  prints : (Scalar.float x).Prints write.toNumberText
  literal : py.ofLiteral (write.literal x) = x
  readsBack : py.ReadsBack x

/-- The numbers of a trade come through the job. -/
def TradeWritten (py : PyText F) (write : TradeText F) (trade : Trade F) : Prop :=
  Written py write trade.price ∧ Written py write trade.quantity

/-- What the mapper makes of the line of a trade. -/
theorem lineText_modelDump {trade : Trade F} (h : TradeWritten py write trade) :
    Mapper.lineText py (dumps write.toNumberText (trade.modelDump write)) =
      some (Mapper.recordText trade.symbol trade.price trade.quantity) := by
  have hstrip : strip (dumps write.toNumberText (trade.modelDump write)) =
      dumps write.toNumberText (trade.modelDump write) := strip_dumps _ _ _
  have hloads := loads_dumps py.nesting (prints_modelDump h.1.prints h.2.prints)
  have hread : Mapper.readTrade py (toDict write.toNumberText (trade.modelDump write)) =
      .ok (some trade.symbol, trade.price, trade.quantity) := by
    simp [Mapper.readTrade, toDict, Trade.modelDump, PyText.getItem, lookup, PyText.float,
      PyText.str, h.1.literal, h.2.literal, bind, Except.bind, pure, Except.pure]
  have hline : Mapper.readLine py (dumps write.toNumberText (trade.modelDump write)) =
      .ok (some trade.symbol, trade.price, trade.quantity) := by
    rw [Mapper.readLine, hloads]
    exact hread
  unfold Mapper.lineText
  dsimp only
  rw [hstrip, hline]
  rfl

/-- The lines of the file are the dumps of the trades. -/
theorem lines_text {tape : List (LabeledTrade F)}
    (h : ∀ entry ∈ tape, TradeWritten py write entry.1) :
    lines (text write tape) =
      tape.map (fun entry => dumps write.toNumberText (entry.1.modelDump write)) := by
  induction tape with
  | nil => rfl
  | cons entry rest ih =>
      obtain ⟨hentry, hrest⟩ := List.forall_mem_cons.mp h
      have hnewline : '\n' ∉ dumps write.toNumberText (entry.1.modelDump write) :=
        newline_notMem_dumps (prints_modelDump hentry.1.prints hentry.2.prints)
      have hne : dumps write.toNumberText (entry.1.modelDump write) ≠ [] :=
        List.cons_ne_nil _ _
      have ih := ih hrest
      unfold lines at ih ⊢
      rw [text, List.flatMap_cons, List.append_assoc, List.singleton_append,
        Split.pieces_append, Split.pieces_singleton hnewline hne, List.map_cons, ← ih]
      rfl

/-- The mapper passes on every trade, and none that is not there. -/
theorem main_lines {tape : List (LabeledTrade F)}
    (h : ∀ entry ∈ tape, TradeWritten py write entry.1) :
    Mapper.main py (lines (text write tape)) = tape.flatMap (fun entry =>
      Mapper.recordText entry.1.symbol entry.1.price entry.1.quantity) := by
  rw [lines_text h]
  induction tape with
  | nil => rfl
  | cons entry rest ih =>
      obtain ⟨hentry, hrest⟩ := List.forall_mem_cons.mp h
      rw [List.map_cons, Mapper.main_cons_of_some py (lineText_modelDump hentry), ih hrest,
        List.flatMap_cons]

/-- The record that the reducer is to get of a trade. -/
def recordOf (entry : LabeledTrade F) : String × F × F :=
  (entry.1.symbol, entry.1.price, entry.1.quantity)

theorem symbols_normal : ∀ symbol ∈ symbols, symbol.toList.all (fun c => c.toNat < 128) = true ∧
    (strip symbol.toList).map Char.toUpper = symbol.toList := by
  decide

/-- Nothing in a symbol is taken for a separator. -/
theorem symbols_plain : ∀ symbol ∈ symbols, '\t' ∉ symbol.toList ∧ '\n' ∉ symbol.toList ∧
    symbol.toList.all (fun c => !lineBoundaries.contains c) = true := by
  decide

/-- The reducer parses what the simulator made. -/
theorem records_lines {tape : List (LabeledTrade F)}
    (h : ∀ entry ∈ tape, TradeWritten py write entry.1)
    (hsymbols : ∀ entry ∈ tape, entry.1.symbol ∈ symbols) :
    (Split.pieces '\n' (Mapper.main py (lines (text write tape)))).filterMap
      (Reducer.parseLine py) = tape.map recordOf := by
  rw [main_lines h]
  induction tape with
  | nil => rfl
  | cons entry rest ih =>
      obtain ⟨hentry, hrest⟩ := List.forall_mem_cons.mp h
      obtain ⟨hsymbol, hothers⟩ := List.forall_mem_cons.mp hsymbols
      obtain ⟨htab, hnewline, _⟩ := symbols_plain _ hsymbol
      have hword : '\n' ∉ Mapper.recordLine entry.1.symbol entry.1.price entry.1.quantity := by
        simp [Mapper.recordLine, hnewline, hentry.1.readsBack.no_newline,
          hentry.2.readsBack.no_newline]
      have hne : Mapper.recordLine entry.1.symbol entry.1.price entry.1.quantity ≠ [] := by
        simp [Mapper.recordLine]
      rw [List.flatMap_cons, Mapper.recordText_eq, List.append_assoc, List.singleton_append,
        Split.pieces_append, Split.pieces_singleton hword hne, List.singleton_append,
        List.filterMap_cons, Reducer.parseLine_recordLine py htab hentry.1.readsBack
          hentry.2.readsBack, List.map_cons, ih hrest hothers]
      rfl

end Mapped

section Cycle

variable {G : Type} {env : Chance ℝ G} {py : PyText ℝ} {write : TradeText ℝ}

/-- No other character of the mapper's output ends a line. -/
theorem onlyLineFeeds_main {tape : List (LabeledTrade ℝ)}
    (h : ∀ entry ∈ tape, TradeWritten py write entry.1)
    (hsymbols : ∀ entry ∈ tape, entry.1.symbol ∈ symbols) :
    OnlyLineFeeds (Mapper.main py (lines (text write tape))) := by
  intro c hc hboundary
  rw [main_lines h, List.mem_flatMap] at hc
  obtain ⟨entry, hentry, hmem⟩ := hc
  obtain ⟨_, _, hline⟩ := symbols_plain _ (hsymbols entry hentry)
  have hsymbol := BatchRunner.oneLine_of_all hline
  simp only [Mapper.recordText, List.mem_append, List.mem_cons, List.not_mem_nil,
    or_false] at hmem
  rcases hmem with ((hc | rfl | hc) | rfl | hc) | rfl
  · exact absurd hboundary (hsymbol c hc)
  · exact absurd hboundary (by decide)
  · exact absurd hboundary (BatchRunner.oneLine_format _ _ c hc)
  · exact absurd hboundary (by decide)
  · exact absurd hboundary (BatchRunner.oneLine_format _ _ c hc)
  · rfl

/-- From the generator to the heartbeat: a cycle counts the anomalies that the
per-symbol specification finds on the tape as the simulator made it. -/
theorem cycle_counts_tape {trades : ℤ} {anomalyRate : ℝ} {rng : G}
    {tape : List (LabeledTrade ℝ)} {sim : MarketSimulator ℝ G}
    (htape : labeledBatch env trades (init env symbols anomalyRate rng) = .ok (tape, sim))
    (hwritten : ∀ entry ∈ tape, TradeWritten py write entry.1)
    {thresholds : Reducer.Thresholds ℝ} {s : BatchRunner.Surroundings} {cycle : ℕ}
    {hb : BatchRunner.Heartbeat}
    (hhistory : s.history = (main env write trades anomalyRate rng).map lines)
    (hcycle : BatchRunner.runCycle py thresholds s cycle trades = .ok hb) :
    hb.mrAnomalies =
      (specification (Reducer.labelOf thresholds) thresholds.minTrades
        (tape.map recordOf)).card := by
  obtain ⟨_, honly⟩ := keeps_labeledBatch trades _ _ (lists_init symbols anomalyRate rng) htape
  have hsymbols : ∀ entry ∈ tape, entry.1.symbol ∈ symbols := fun entry hentry =>
    mem_of_onlyOf symbols_normal honly entry.1 (List.mem_map_of_mem hentry)
  have hfile : s.history = .ok (lines (text write tape)) := by
    rw [hhistory, main, htape]
    rfl
  unfold BatchRunner.runCycle at hcycle
  rw [hfile] at hcycle
  obtain ⟨_, _, hcycle⟩ := StateExcept.exists_of_bind_eq_ok hcycle
  obtain ⟨_, _, hcycle⟩ := StateExcept.exists_of_bind_eq_ok hcycle
  obtain ⟨_, _, hcycle⟩ := StateExcept.exists_of_bind_eq_ok hcycle
  cases hcycle
  dsimp only
  rw [BatchRunner.mapreduce_eq_card py thresholds (onlyLineFeeds_main hwritten hsymbols),
    records_lines hwritten hsymbols]

end Cycle

section Example

/-- Shocks that are none, on a calendar that has no end. -/
noncomputable def noShocks : Chance ℝ Unit := (steadyShocks (0 : ℝ)).endless

noncomputable def noAnomalies : MarketSimulator ℝ Unit := init noShocks symbols 0 ()

/-- The first symbol, at the price it starts from. -/
noncomputable def apple (price : ℝ) : SymbolState ℝ :=
  ⟨"AAPL", price, ofRat (-2 / 100000), ofRat (8 / 10000), ofRat 50⟩

/-- The text of whole numbers. -/
noncomputable def wholeText : TradeText ℝ where
  repr x := (format x .plain).toList
  literal x := .finite ⌊x⌋
  isoformat _ := sampleTime

/-- A cycle in which everything works. -/
noncomputable def oneTrade : BatchRunner.Surroundings where
  mkdir := .ok ()
  randint := 7
  generate _ := .ok 0
  backtest := .ok 0
  history := (main noShocks wholeText 1 0 ()).map lines
  time := 1735689600
  gmtime := sampleTime

theorem written_whole {n : ℕ}
    (hword : wordNumber (word? (format (n : ℚ) .plain).toList) = some (n : ℚ))
    (hends : (format (n : ℚ) .plain).toList.all (fun c => !Lexer.endsWord c) = true)
    (hback : PyText.decimal.ReadsBack (n : ℚ)) :
    Written PyText.decimal.toReal wholeText (n : ℝ) := by
  have hformat : format (n : ℝ) .plain = format (n : ℚ) .plain := by
    rw [← format_cast, Rat.cast_natCast]
  have hfloor : ((⌊(n : ℝ)⌋ : ℤ) : ℚ) = n := by simp
  refine ⟨⟨?_, ?_⟩, ?_, ?_⟩
  · change word? (format (n : ℝ) .plain).toList = some (.float (.finite (⌊(n : ℝ)⌋ : ℤ)))
    rw [hformat, hfloor]
    exact eq_of_wordNumber hword
  · change ∀ c ∈ (format (n : ℝ) .plain).toList, Lexer.endsWord c = false
    rw [hformat]
    exact Lexer.endsWord_of_all hends
  · change PyText.decimal.toReal.ofLiteral (.finite (⌊(n : ℝ)⌋ : ℤ)) = n
    rw [hfloor, PyText.ofLiteral_toReal]
    simp [PyText.ofLiteral, ofRat]
  · constructor
    · rw [hformat]
      change (PyText.decimal.parse (format (n : ℚ) .plain)).map (fun q => (q : ℝ)) = some (n : ℝ)
      rw [hback.parse_format]
      simp
    · exact hformat ▸ hback.no_tab
    · exact hformat ▸ hback.no_newline

/-- What the first batch comes down to. Both numbers are drawn, and might as well have
been given. -/
theorem normalBatch_noAnomalies :
    normalBatch noShocks (apple (ofRat 195)) noAnomalies = (do
      let (trade, state) ← tradeAt noShocks (1 / 100)
        { price := some 195, quantity := some 50 } 195 (apple 195)
      return ([(trade, none)], state) : Sim ℝ Unit _) noAnomalies := by
  have hgap : pyMax (ofRat (1 / 100)) (0 : ℝ) = 1 / 100 := by
    rw [pyMax_real]
    norm_num
  have hprice : pyMax (ofRat (1 / 100)) (mul (ofRat 195) (add (ofRat 1) (0 : ℝ))) = 195 := by
    rw [pyMax_real]
    norm_num
  have hrounded : round (195 : ℝ) 4 = 195 := by
    have hexact : roundDigits (195 : ℚ) 4 = 195 := by decide +kernel
    simpa [hexact, round_real] using roundDigits_cast 195 4
  have hsize : round (pyMax (ofRat 1) (mul 1 (ofRat 50 : ℝ))) 2 = 50 := by
    have hexact : roundDigits (50 : ℚ) 2 = 50 := by decide +kernel
    have hlarger : pyMax (ofRat 1) (mul 1 (ofRat 50 : ℝ)) = 50 := by
      rw [pyMax_real]
      norm_num
    rw [hlarger]
    simpa [hexact, round_real] using roundDigits_cast 50 2
  have hdrawn : normalBatch noShocks (apple (ofRat 195)) noAnomalies = (do
      let (trade, state) ← tradeAt noShocks (pyMax (ofRat (1 / 100)) 0)
        { price := some 195
          quantity := some (round (pyMax (ofRat 1) (mul 1 (ofRat 50))) 2) }
        (round (pyMax (ofRat (1 / 100)) (mul (ofRat 195) (add (ofRat 1) 0))) 4)
        (apple (pyMax (ofRat (1 / 100)) (mul (ofRat 195) (add (ofRat 1) 0))))
      return ([(trade, none)], state) : Sim ℝ Unit _) noAnomalies := rfl
  rw [hdrawn, hgap, hprice, hrounded, hsize]

/-- A trade is made at the price and of the size that its symbol starts with. -/
theorem labeledBatch_noAnomalies : ∃ trade sim,
    labeledBatch noShocks 1 noAnomalies = .ok ([(trade, none)], sim) ∧
      trade.price = (195 : ℕ) ∧ trade.quantity = (50 : ℕ) := by
  have hsound : noAnomalies.Sound :=
    sound_init (steadyShocks_documented (0 : ℝ)) (List.cons_ne_nil "AAPL" _)
      (by decide : ∀ symbol ∈ symbols, 1 ≤ symbol.length ∧ symbol.length ≤ 32) 0 ()
  have hstate : SoundSymbol (apple 195) := by
    refine ⟨by decide, ?_, ?_⟩
    · norm_num [apple]
    · norm_num [apple]
  have hmeets : StateExcept.Meets (clockLimit Unit)
      (tradeAt noShocks (1 / 100) { price := some 195, quantity := some 50 } 195 (apple 195))
      (tradeAt (steadyShocks (0 : ℝ)) (1 / 100) { price := some 195, quantity := some 50 } 195
        (apple 195))
      (noAnomalies.withRng ())
      (MarketSimulator.Built noAnomalies (1 / 100) { price := some 195, quantity := some 50 }) :=
    meets_tradeAt (steadyShocks_documented 0) hsound hstate (by norm_num) (by norm_num)
      (by simp) (by norm_num)
  obtain ⟨⟨trade, state⟩, sim, htrade, hbuilt, _⟩ := hmeets
  have hrate : lt 0 noAnomalies.anomalyRate = false := by
    change lt (0 : ℝ) (pyMin (pyMax 0 (ofRat 0)) (ofRat 1)) = false
    rw [Bool.eq_false_iff, ne_eq, lt_real, pyMin_real, pyMax_real]
    simp
  have hnext : nextBatch noShocks noAnomalies = (do
      let (batch, state) ← (if lt 0 noAnomalies.anomalyRate
        then anomalous noShocks (apple (ofRat 195)) else normalBatch noShocks (apple (ofRat 195)))
      modify (fun sim : MarketSimulator ℝ Unit =>
        { sim with states := sim.states.set "AAPL" state })
      return batch : Sim ℝ Unit (List (LabeledTrade ℝ))) noAnomalies := rfl
  have hnormal : normalBatch noShocks (apple (ofRat 195)) noAnomalies =
      .ok (([(trade, none)], state), sim) := by
    rw [normalBatch_noAnomalies]
    exact StateExcept.bind_of_ok htrade _
  have hbatch : nextBatch noShocks noAnomalies =
      .ok ([(trade, none)], { sim with states := sim.states.set "AAPL" state }) := by
    rw [hnext, hrate, if_neg Bool.false_ne_true]
    exact StateExcept.bind_of_ok hnormal _
  have hextend : extendTo noShocks 1 1 [] noAnomalies =
      .ok ([(trade, none)], { sim with states := sim.states.set "AAPL" state }) := by
    unfold extendTo
    rw [List.length_nil, if_pos (by decide)]
    exact StateExcept.bind_of_ok hbatch _
  refine ⟨trade, _, StateExcept.bind_of_ok hextend _, ?_, ?_⟩
  · exact_mod_cast hbuilt.price.2 195 rfl
  · exact_mod_cast hbuilt.quantity.2 50 rfl

/-- Rules under which one trade is enough, and is a block. -/
noncomputable def loneRules : Reducer.Thresholds ℝ := { volRatio := 1, minTrades := 1 }

theorem specification_lone (symbol : String) :
    (specification (Reducer.labelOf loneRules) 1
      [(symbol, (195 : ℝ), (50 : ℝ))]).card = 1 := by
  have hlabel : Reducer.labelOf loneRules ⟨195, 0, 50⟩ (195, 50) = some .volumeSpike := by
    have htiny : ¬ (1 / 10 ^ 12 : ℝ) < 0 := by norm_num
    simp only [Reducer.labelOf, Reducer.PriceOutlier, SampleStatistics.outlier_eq,
      Reducer.VolumeBlock, loneRules, htiny, if_false, ofRat_real]
    norm_num
  have hstats : Reducer.statisticsOf [((195 : ℝ), (50 : ℝ))] = ⟨195, 0, 50⟩ :=
    statisticsOf_replicate 0 195 50
  simp [specification, GroupBy.collect, GroupBy.valuesOf, Reducer.judged, hstats, hlabel]

theorem cycle_counts_tape_one : ∃ tape sim hb,
    labeledBatch noShocks 1 noAnomalies = .ok (tape, sim) ∧ tape.length = 1 ∧
      BatchRunner.runCycle PyText.decimal.toReal loneRules oneTrade 1 1 = .ok hb ∧
      hb.mrAnomalies = 1 := by
  obtain ⟨trade, sim, htape, hprice, hquantity⟩ := labeledBatch_noAnomalies
  have hwritten : ∀ entry ∈ [(trade, (none : Option String))],
      TradeWritten PyText.decimal.toReal wholeText entry.1 := by
    intro entry hentry
    rw [List.mem_singleton.mp hentry]
    refine ⟨?_, ?_⟩
    · dsimp only
      rw [hprice]
      exact written_whole (by decide +kernel) (by decide +kernel)
        ⟨by decide +kernel, by decide +kernel, by decide +kernel⟩
    · dsimp only
      rw [hquantity]
      exact written_whole (by decide +kernel) (by decide +kernel)
        ⟨by decide +kernel, by decide +kernel, by decide +kernel⟩
  have hhistory : oneTrade.history = .ok (lines (text wholeText [(trade, none)])) := by
    change (main noShocks wholeText 1 0 ()).map lines = _
    rw [main]
    change ((labeledBatch noShocks 1 noAnomalies >>= _ : Except PyError _)).map lines = _
    rw [htape]
    rfl
  obtain ⟨hb, hcycle⟩ : ∃ hb,
      BatchRunner.runCycle PyText.decimal.toReal loneRules oneTrade 1 1 = .ok hb := by
    unfold BatchRunner.runCycle
    rw [hhistory]
    exact ⟨_, rfl⟩
  refine ⟨_, sim, hb, htape, rfl, hcycle, ?_⟩
  rw [cycle_counts_tape htape hwritten rfl hcycle]
  change ((specification (Reducer.labelOf loneRules) 1
    [(trade.symbol, trade.price, trade.quantity)]).card : ℤ) = 1
  rw [hprice, hquantity]
  exact_mod_cast specification_lone trade.symbol

end Example

end TradeWatch.GenerateHistory
