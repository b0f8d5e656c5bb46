import TradeWatch.Accounting
import TradeWatch.Sinks.JsonlFile
import TradeWatch.Streaming

/-!
`tradewatch simulate --out`: the simulator through the engine into two sinks, the
console and the JSONL file. Printing may fail and so may opening the file; the
pipeline logs it and goes on, and the alert is missing in the file.
-/

namespace TradeWatch.Simulate

open PyFloat Transducer Streaming Sinks Json

/-- What the two sinks leave behind: the file, and how many alerts have been handed
to them. -/
structure Terminal where
  file : List Char
  appends : ℕ

section Model

variable {D F : Type} [PyFloat F] (numbers : NumberText F) (stamps : ℕ → Stamp)
  (stdout disk : ℕ → Option PyError)

/-- `ConsoleSink`. `stdout` says which of its prints raise. -/
def consoleSink : AlertSink F Terminal where
  emit _ _ w :=
    match stdout w.appends with
    | some err => (.error (.exception err), w)
    | none => (.ok (), w)

/-- `JsonlFileSink`. `disk` says at which of the appends the file cannot be opened. -/
def jsonlFileSink : AlertSink F Terminal where
  emit _ alert w :=
    match disk w.appends with
    | some err => (.error (.exception err), { w with appends := w.appends + 1 })
    | none =>
        (.ok (),
          { file := w.file ++ appended numbers ⟨stamps w.appends, alert⟩ .whole
            appends := w.appends + 1 })

/-- The pipeline of `_run_simulate` with `--out`. -/
def pipeline (engine : DetectionEngine D F) (clock : Terminal → ℤ) :
    Streaming.Pipeline D F Terminal where
  engine := engine
  sinks := [consoleSink stdout, jsonlFileSink numbers stamps disk]
  onTrade := none
  onProcessed := none
  perfCounterNs w := (clock w, w)

/-- The simulator, which stops by itself and holds nothing that has to be closed. -/
def simulator (trades : List (Trade F)) : TradeSource F Terminal where
  stream := trades
  ending := .ok ()
  close w := (.ok (), w)

/-- The writes that become of some alerts, from the `k`-th append on. -/
def writes (k : ℕ) (alerts : List (Alert F)) : List (Entry F × Write) :=
  (alerts.zipIdx k).map fun alert =>
    (⟨stamps alert.2, alert.1⟩, if disk alert.2 = none then .whole else .torn 0)

/-- What the sinks leave after some alerts. -/
def emitted (w : Terminal) (alerts : List (Alert F)) : Terminal where
  file := w.file ++ contents numbers (writes stamps disk w.appends alerts)
  appends := w.appends + alerts.length

end Model

section Run

variable {D F : Type} [PyFloat F] (numbers : NumberText F) (stamps : ℕ → Stamp)
  (stdout disk : ℕ → Option PyError)

theorem emitted_append (w : Terminal) (first second : List (Alert F)) :
    emitted numbers stamps disk (emitted numbers stamps disk w first) second =
      emitted numbers stamps disk w (first ++ second) := by
  simp [emitted, writes, contents, List.zipIdx_append, Nat.add_assoc]

/-- One alert to both sinks. -/
theorem dispatch_world (trade : Trade F) (alert : Alert F) (s : Progress D F Terminal) :
    ∃ log, Streaming.Pipeline.dispatch trade alert 0
        [consoleSink stdout, jsonlFileSink numbers stamps disk] s =
      (.ok (), { s with world := emitted numbers stamps disk s.world [alert], log := log }) := by
  have hconsole : ∃ raised, logged raised = .ok () ∧
      (consoleSink (F := F) stdout).emit trade alert s.world = (raised, s.world) := by
    rcases hstdout : stdout s.world.appends with _ | err
    · exact ⟨.ok (), rfl, by simp [consoleSink, hstdout]⟩
    · exact ⟨.error (.exception err), rfl, by simp [consoleSink, hstdout]⟩
  have hfile : ∃ raised, logged raised = .ok () ∧
      (jsonlFileSink numbers stamps disk).emit trade alert s.world =
        (raised, emitted numbers stamps disk s.world [alert]) := by
    rcases hdisk : disk s.world.appends with _ | err
    · exact ⟨.ok (), rfl, by simp [jsonlFileSink, hdisk, emitted, writes, contents]⟩
    · exact ⟨.error (.exception err), rfl,
        by simp [jsonlFileSink, hdisk, emitted, writes, contents, appended]⟩
  obtain ⟨printed, hprinted, hconsole⟩ := hconsole
  obtain ⟨written, hwritten, hfile⟩ := hfile
  refine ⟨s.log ++ [.emit 0 trade alert] ++ [.emit 1 trade alert], ?_⟩
  simp only [Streaming.Pipeline.dispatch, hconsole, hprinted, hfile, hwritten]

variable [Detector D F] {p : Streaming.Pipeline D F Terminal}
  (hsinks : p.sinks = [consoleSink stdout, jsonlFileSink numbers stamps disk])

include hsinks

omit [Detector D F] in
theorem dispatchAll_world (trade : Trade F) (alerts : List (Alert F)) (s : Progress D F Terminal) :
    ∃ log, p.dispatchAll trade alerts s =
      (.ok (), { s with world := emitted numbers stamps disk s.world alerts, log := log }) := by
  induction alerts generalizing s with
  | nil => exact ⟨s.log, by simp [Streaming.Pipeline.dispatchAll, emitted, writes, contents]⟩
  | cons alert rest ih =>
      obtain ⟨log, hdispatch⟩ := dispatch_world numbers stamps stdout disk trade alert s
      obtain ⟨last, hrest⟩ := ih
        { s with world := emitted numbers stamps disk s.world [alert], log := log }
      refine ⟨last, ?_⟩
      rw [Streaming.Pipeline.dispatchAll, hsinks, hdispatch]
      simp only [hrest, emitted_append, List.singleton_append]

/-- One trade that the engine accepts. -/
theorem handleTrade_world (htrade : p.onTrade = none) (hprocessed : p.onProcessed = none)
    (hclock : ∀ w, (p.perfCounterNs w).2 = w) (trade : Trade F) (s : Progress D F Terminal)
    {alerts : List (Alert F)} (hok : (s.engine.process trade).1 = .ok alerts) :
    ∃ log, p.handleTrade trade s =
      (.ok (), { s with
        engine := (s.engine.process trade).2
        world := emitted numbers stamps disk s.world alerts
        log := log }) := by
  rcases hprocess : s.engine.process trade with ⟨returned, engine⟩
  rw [hprocess] at hok
  obtain rfl : returned = .ok alerts := hok
  have hannounce : p.announce trade s = (.ok (), s) := by
    rw [Streaming.Pipeline.announce, htrade]
  obtain ⟨latencyUs, hdetect⟩ : ∃ latencyUs, p.detect trade s =
      (.ok (alerts, latencyUs), { s with engine := engine, log := s.log ++ [.process trade] }) := by
    rw [Streaming.Pipeline.detect, hprocess]
    simp only [hclock]
    exact ⟨_, rfl⟩
  have hreport : ∀ (latencyUs : F) (s' : Progress D F Terminal),
      p.report trade alerts latencyUs s' = (.ok (), s') := by
    intro latencyUs s'
    rw [Streaming.Pipeline.report, hprocessed]
  obtain ⟨log, hdispatch⟩ := dispatchAll_world numbers stamps stdout disk hsinks trade alerts
    { s with engine := engine, log := s.log ++ [.process trade] }
  refine ⟨log, ?_⟩
  unfold Streaming.Pipeline.handleTrade
  simp only [hannounce, hdetect, hreport, hdispatch]

/-- A whole stream of trades that the engine accepts. -/
theorem consume_world (htrade : p.onTrade = none) (hprocessed : p.onProcessed = none)
    (hclock : ∀ w, (p.perfCounterNs w).2 = w) (trades : List (Trade F))
    (s : Progress D F Terminal)
    (haccepted : ∀ entry ∈ trace DetectionEngine.process s.engine trades,
      ∃ alerts, entry.2 = .ok alerts) :
    ∃ log, p.consume trades s =
      (.ok (), { s with
        engine := final DetectionEngine.process s.engine trades
        world := emitted numbers stamps disk s.world
          ((trace DetectionEngine.process s.engine trades).flatMap
            (fun entry => Streaming.Pipeline.returnedAlerts entry.2))
        log := log }) := by
  induction trades generalizing s with
  | nil => exact ⟨s.log, by simp [Streaming.Pipeline.consume, emitted, writes, contents]⟩
  | cons trade rest ih =>
      rw [trace_cons, List.forall_mem_cons] at haccepted
      obtain ⟨⟨alerts, hok⟩, hrest⟩ := haccepted
      obtain ⟨log, hhandle⟩ := handleTrade_world numbers stamps stdout disk hsinks htrade
        hprocessed hclock trade s hok
      obtain ⟨last, hconsume⟩ := ih
        { s with
          engine := (s.engine.process trade).2
          world := emitted numbers stamps disk s.world alerts
          log := log } hrest
      have halerts : Streaming.Pipeline.returnedAlerts (s.engine.process trade).1 = alerts :=
        congrArg Streaming.Pipeline.returnedAlerts hok
      refine ⟨last, ?_⟩
      rw [Streaming.Pipeline.consume, hhandle]
      simp only [hconsume, emitted_append, trace_cons, List.flatMap_cons, final_cons, halerts]

end Run

section Shipped

variable {F M : Type} [PyFloat F] (sklearn : SkLearn F M) (cfg : DetectionConfig F)

/-- The alerts that the engine raises over a stream. -/
def raised (trades : List (Trade F)) : List (Alert F) :=
  (trace DetectionEngine.process (.init sklearn cfg) trades).flatMap
    (fun entry => Streaming.Pipeline.returnedAlerts entry.2)

theorem init_accepts (hmax : 0 ≤ cfg.window.maxTrades) (trades : List (Trade F)) :
    ∀ entry ∈ trace DetectionEngine.process (.init sklearn cfg) trades,
      ∃ alerts, entry.2 = .ok alerts := by
  rintro ⟨trade, returned⟩ hentry
  obtain ⟨before, after, _, rfl⟩ := (mem_trace_iff _ _ _ _ _).mp hentry
  have hadd := (DetectionEngine.init sklearn cfg).final_add_ok (fun _ => hmax) before trade
  exact ⟨_, congrArg Prod.fst (DetectionEngine.process_of_ok _ trade hadd)⟩

theorem alertsRaised_eq (trades : List (Trade F)) :
    (final DetectionEngine.process (.init sklearn cfg) trades).alertsRaised =
      (raised sklearn cfg trades).length := by
  have hbooked := (DetectionEngine.init sklearn cfg).run_booked
    (DetectionEngine.init_names_nodup sklearn cfg)
    (DetectionEngine.init_names_plain sklearn cfg) trades
  have halerts : ∀ (e : DetectionEngine (ShippedDetector F M) F) (trades : List (Trade F)),
      (trace DetectionEngine.watch e trades).flatMap (·.2.alerts) =
        (trace DetectionEngine.process e trades).flatMap
          (fun entry => Streaming.Pipeline.returnedAlerts entry.2) := by
    intro e trades
    induction trades generalizing e with
    | nil => rfl
    | cons trade rest ih =>
        rw [trace_cons, trace_cons, List.flatMap_cons, List.flatMap_cons]
        exact congrArg _ (ih _)
  rw [raised, ← halerts]
  exact hbooked.raised.trans (Nat.zero_add _)

variable (numbers : NumberText F) (stamps : ℕ → Stamp) (stdout disk : ℕ → Option PyError)

/-- The alerts whose append could open the file, each with its place. -/
def kept (alerts : List (Alert F)) : List (Alert F × ℕ) :=
  alerts.zipIdx.filter (fun alert => disk alert.2 = none)

theorem survivors_writes (k : ℕ) (alerts : List (Alert F)) :
    survivors numbers .fresh (writes stamps disk k alerts) =
      ((alerts.zipIdx k).filter (fun alert => disk alert.2 = none)).map
        (fun alert => ⟨stamps alert.2, alert.1⟩) := by
  induction alerts generalizing k with
  | nil => rfl
  | cons alert rest ih =>
      have hnext := ih (k + 1)
      unfold writes at hnext ⊢
      rw [List.zipIdx_cons, List.map_cons]
      by_cases hdisk : disk k = none
      · rw [if_pos hdisk, survivors, hnext, List.filter_cons_of_pos (by simpa using hdisk)]
        rfl
      · rw [if_neg hdisk, survivors, List.filter_cons_of_neg (by simpa using hdisk)]
        exact hnext

theorem readable_behind {before : List Char} (h : before = [] ∨ ∃ lines, before = lines ++ ['\n'])
    (chars : List Char) : readable (before ++ chars) = readable before ++ readable chars := by
  rcases h with rfl | ⟨lines, rfl⟩
  · rfl
  · rw [List.append_assoc, List.singleton_append, readable, readable, readable,
      Split.pieces_append, Split.pieces_snoc, List.filterMap_append]

end Shipped

section Example

/-- The texts of the two numbers in the alert of a self-trade. -/
def selfTradeNumbers : NumberText ℚ where
  repr x := if x = 100 then "100.0".toList else "0.98".toList
  literal := .finite

/-- That alert as the engine raises it. -/
def washTradeAlert : Alert ℚ :=
  .build (selfTradeAt "a" 0) "wash_trade" .critical (49 / 50)
    "self-trade: account acct-1 is both buyer and seller of ACME"
    [("account_id", .text "acct-1"), ("signal", .text "self_counterparty"), ("price", .float 100)]

theorem prints_washTradeAlert (stamp : Stamp) :
    (⟨stamp, washTradeAlert⟩ : Entry ℚ).Prints selfTradeNumbers := by
  have hscore : washTradeAlert.score.value = 49 / 50 := by decide +kernel
  have hprice : word? (selfTradeNumbers.repr 100) = some (.float (.finite 100)) ∧
      ∀ c ∈ selfTradeNumbers.repr 100, Lexer.endsWord c = false := by
    have htext : selfTradeNumbers.repr 100 = ['1', '0', '0', '.', '0'] := rfl
    rw [htext]
    refine ⟨?_, Lexer.endsWord_of_all (by decide)⟩
    simp [word?, number?, spanDigits, fraction?, exponent?, digitsValue, List.span, List.span.loop]
    norm_num
  have htext : selfTradeNumbers.repr washTradeAlert.score.value = ['0', '.', '9', '8'] := by
    rw [hscore]
    decide +kernel
  refine ⟨trivial, trivial, trivial, trivial, trivial, trivial, ⟨?_, ?_⟩, trivial,
    ⟨trivial, trivial, hprice, trivial⟩, trivial⟩
  · rw [htext, hscore]
    simp [word?, number?, spanDigits, fraction?, exponent?, digitsValue, List.span, List.span.loop,
      selfTradeNumbers]
    norm_num
  · rw [htext]
    exact Lexer.endsWord_of_all (by decide)

end Example

end TradeWatch.Simulate
