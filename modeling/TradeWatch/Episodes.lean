import TradeWatch.Evaluate

/-!
What an episode of the report is in terms of what the simulator injected. The
batches of the tape are kept apart here, the last one cut where the tape ends. A
report is made from the labels of the flat tape, so batches of one kind that
stand next to each other are one event of it.
-/

namespace TradeWatch

open PyFloat GroupBy StateExcept MarketSimulator

/-- A batch of the evaluated tape: its label, and the flag of each of its trades. -/
abbrev TapeBatch := Option String × List Bool

/-- The batches as far as the first `n` entries go. -/
def cut {α : Type} : ℕ → List (List α) → List (List α)
  | _, [] => []
  | n, batch :: rest => if n = 0 then [] else batch.take n :: cut (n - batch.length) rest

theorem flatten_cut {α : Type} (n : ℕ) (batches : List (List α)) :
    (cut n batches).flatten = batches.flatten.take n := by
  induction batches generalizing n with
  | nil => simp [cut]
  | cons batch rest ih =>
      rw [cut, List.flatten_cons, List.take_append]
      split
      · rename_i hzero
        simp [hzero]
      · rw [List.flatten_cons, ih]

theorem oneLabel_cut {F : Type} [PyFloat F] {n : ℕ} {batches : List (List (LabeledTrade F))}
    (h : ∀ batch ∈ batches, ∃ label, OneLabel label batch) :
    ∀ batch ∈ cut n batches, ∃ label, OneLabel label batch := by
  induction batches generalizing n with
  | nil => simp [cut]
  | cons batch rest ih =>
      obtain ⟨⟨label, hne, hlabel⟩, hrest⟩ := List.forall_mem_cons.mp h
      rw [cut]
      split
      · simp
      · rename_i hpos
        refine List.forall_mem_cons.mpr ⟨⟨label, ?_, ?_⟩, ih hrest⟩
        · simp [hne, hpos]
        · exact fun entry hentry => hlabel entry (List.mem_of_mem_take hentry)

section Records

variable {D F : Type} [PyFloat F] [Detector D F]

/-- The loop over the tape, batch by batch. -/
def recordBatches (e : DetectionEngine D F) :
    List (List (LabeledTrade F)) → Except PyError (List (List EvalRecord) × DetectionEngine D F)
  | [] => .ok ([], e)
  | batch :: rest => do
      let (records, e) ← recordTape e batch
      let (others, e) ← recordBatches e rest
      return (records :: others, e)

theorem recordTape_append (e : DetectionEngine D F) (tape more : List (LabeledTrade F)) :
    recordTape e (tape ++ more) = (do
      let (records, e) ← recordTape e tape
      let (others, e) ← recordTape e more
      return (records ++ others, e)) := by
  induction tape generalizing e with
  | nil =>
      simp only [recordTape, bind, Except.bind, pure, Except.pure, List.nil_append]
      cases recordTape e more <;> rfl
  | cons entry rest ih =>
      obtain ⟨trade, label⟩ := entry
      rw [List.cons_append, recordTape, recordTape]
      rcases e.process trade with ⟨_ | alerts, e'⟩
      · rfl
      · dsimp only
        rw [ih]
        cases recordTape e' rest with
        | error err => rfl
        | ok result =>
            simp only [bind, Except.bind, pure, Except.pure]
            cases recordTape result.2 more <;> rfl

theorem recordTape_flatten (e : DetectionEngine D F) (batches : List (List (LabeledTrade F))) :
    recordTape e batches.flatten = (do
      let (records, e) ← recordBatches e batches
      return (records.flatten, e)) := by
  induction batches generalizing e with
  | nil => rfl
  | cons batch rest ih =>
      rw [List.flatten_cons, recordTape_append, recordBatches]
      cases recordTape e batch with
      | error err => rfl
      | ok result =>
          simp only [bind, Except.bind, pure, Except.pure, ih]
          cases recordBatches result.2 rest <;> rfl

theorem recordTape_labels {e e' : DetectionEngine D F} {tape : List (LabeledTrade F)}
    {records : List EvalRecord} (h : recordTape e tape = .ok (records, e')) :
    records.map Prod.fst = tape.map Prod.snd := by
  induction tape generalizing e records with
  | nil =>
      cases h
      rfl
  | cons entry rest ih =>
      obtain ⟨trade, label⟩ := entry
      rw [recordTape] at h
      rcases hprocess : e.process trade with ⟨_ | alerts, next⟩
      · rw [hprocess] at h
        cases h
      · rw [hprocess] at h
        obtain ⟨⟨others, last⟩, hrest, hrecords⟩ := exists_of_bind_eq_ok h
        cases hrecords
        rw [List.map_cons, List.map_cons, ih hrest]

theorem recordBatches_oneLabel {e e' : DetectionEngine D F} {batches : List (List (LabeledTrade F))}
    {records : List (List EvalRecord)} (h : recordBatches e batches = .ok (records, e'))
    (hbatches : ∀ batch ∈ batches, ∃ label, OneLabel label batch) :
    ∀ batch ∈ records, batch ≠ [] ∧ ∃ label, ∀ record ∈ batch, record.1 = label := by
  induction batches generalizing e records with
  | nil =>
      cases h
      simp
  | cons batch rest ih =>
      obtain ⟨⟨label, hne, hlabel⟩, hrest⟩ := List.forall_mem_cons.mp hbatches
      rw [recordBatches] at h
      obtain ⟨⟨first, middle⟩, hfirst, h⟩ := exists_of_bind_eq_ok h
      obtain ⟨⟨others, last⟩, hothers, hrecords⟩ := exists_of_bind_eq_ok h
      cases hrecords
      have hlabels := recordTape_labels hfirst
      refine List.forall_mem_cons.mpr ⟨⟨?_, label, ?_⟩, ih hothers hrest⟩
      · intro hempty
        rw [hempty, List.map_nil, eq_comm, List.map_eq_nil_iff] at hlabels
        exact hne hlabels
      · intro record hrecord
        have hmem : record.1 ∈ batch.map Prod.snd := by
          rw [← hlabels]
          exact List.mem_map_of_mem hrecord
        obtain ⟨entry, hentry, heq⟩ := List.mem_map.mp hmem
        rw [← heq, hlabel entry hentry]

theorem recordBatches_length {e e' : DetectionEngine D F} {batches : List (List (LabeledTrade F))}
    {records : List (List EvalRecord)} (h : recordBatches e batches = .ok (records, e')) :
    records.flatten.length = batches.flatten.length := by
  have htape : recordTape e batches.flatten = .ok (records.flatten, e') := by
    rw [recordTape_flatten, h]
    rfl
  have hlengths := congrArg List.length (recordTape_labels htape)
  rwa [List.length_map, List.length_map] at hlengths

end Records

section Merged

/-- The records of a batch as one entry. -/
def tapeBatch (records : List EvalRecord) : TapeBatch :=
  (records.head?.bind Prod.fst, records.map Prod.snd)

/-- Labelled batches of one kind with nothing between them, together. -/
def mergedBatches (batches : List TapeBatch) : List (String × List (List Bool)) :=
  labelled (runs batches)

/-- One of its trades was flagged. -/
def TapeBatch.caught (batch : TapeBatch) : Bool := batch.1.isSome && batch.2.any id

/-- No labelled batch is followed by one of its kind. -/
def Separated (batches : List TapeBatch) : Prop :=
  batches.IsChain (fun batch next => batch.1.isSome → next.1 ≠ batch.1)

theorem episodes_flatten {batches : List (List EvalRecord)}
    (h : ∀ batch ∈ batches, batch ≠ [] ∧ ∃ label, ∀ record ∈ batch, record.1 = label) :
    episodes batches.flatten =
      (mergedBatches (batches.map tapeBatch)).map (fun group => (group.1, group.2.flatten)) := by
  have hentries : batches.flatten =
      (batches.map tapeBatch).flatMap (fun batch => batch.2.map (batch.1, ·)) := by
    rw [List.flatMap_map, List.flatten_eq_flatMap]
    apply List.flatMap_congr
    intro batch hbatch
    obtain ⟨hne, label, hlabel⟩ := h batch hbatch
    have hkey : (tapeBatch batch).1 = label := by
      obtain ⟨first, rest, rfl⟩ := List.exists_cons_of_ne_nil hne
      exact hlabel first List.mem_cons_self
    have hsame : ∀ record ∈ batch, record = (label, record.2) := by
      intro record hrecord
      rw [← hlabel record hrecord]
    calc
      batch = batch.map id := (List.map_id batch).symm
      _ = batch.map (fun record => (label, record.2)) := List.map_congr_left hsame
      _ = (tapeBatch batch).2.map ((tapeBatch batch).1, ·) := by
        rw [hkey, tapeBatch, List.map_map]
        rfl
  have hne : ∀ batch ∈ batches.map tapeBatch, batch.2 ≠ [] := by
    intro batch hbatch
    obtain ⟨records, hrecords, rfl⟩ := List.mem_map.mp hbatch
    simpa [tapeBatch] using (h records hrecords).1
  rw [episodes, hentries, runs_flatMap hne, mergedBatches]
  unfold labelled
  rw [List.filterMap_map, List.map_filterMap]
  congr 1
  funext group
  obtain ⟨_ | label, values⟩ := group <;> rfl

theorem mergedBatches_of_separated {batches : List TapeBatch} (h : Separated batches) :
    mergedBatches batches = (labelled batches).map (fun batch => (batch.1, [batch.2])) := by
  induction batches with
  | nil => rfl
  | cons batch rest ih =>
      obtain ⟨label | label, flags⟩ := batch
      · rw [mergedBatches, runs, labelled_extend_none]
        exact ih h.tail
      · have hruns : runs ((some label, flags) :: rest) = (some label, [flags]) :: runs rest := by
          cases rest with
          | nil => rfl
          | cons next rest =>
              obtain ⟨values, groups, hgroups⟩ := runs_head next.1 next.2 rest
              have hne : next.1 ≠ some label := (List.isChain_cons_cons.mp h).1 rfl
              rw [runs, hgroups]
              simp [extend, hne]
        rw [mergedBatches, hruns]
        exact congrArg ((label, [flags]) :: ·) (ih h.tail)

theorem length_labelled {α : Type} (groups : List (Option String × α)) :
    (labelled groups).length = groups.countP (·.1.isSome) := by
  induction groups with
  | nil => rfl
  | cons group rest ih =>
      obtain ⟨_ | label, values⟩ := group <;> simpa [labelled] using ih

theorem countP_labelled (batches : List TapeBatch) :
    (labelled batches).countP (fun batch => batch.2.any id) =
      batches.countP TapeBatch.caught := by
  induction batches with
  | nil => rfl
  | cons batch rest ih =>
      obtain ⟨_ | label, flags⟩ := batch <;>
        simpa [labelled, TapeBatch.caught, List.countP_cons] using ih

end Merged

section Evaluate

variable {F G M : Type} [PyFloat F] (env : Chance F G) (sklearn : SkLearn F M)
  (config : DetectionConfig F) (trades : ℤ) (anomalyRate : F) (rng : G)
  (symbols : Option (List String))

/-- The batches that the simulator injected into the evaluated tape, as the engine
flagged them. -/
def evaluatedBatches : Except PyError (List TapeBatch) := do
  let engine := DetectionEngine.init sklearn config
  let sim := MarketSimulator.init env (evalSymbols symbols) anomalyRate rng
  let (taken, _) ← batches env trades trades.toNat 0 sim
  let (records, _) ← recordBatches engine (cut trades.toNat taken)
  return records.map tapeBatch

theorem labeledBatch_apply (sim : MarketSimulator F G) :
    labeledBatch env trades sim =
      match batches env trades trades.toNat 0 sim with
      | .error err => .error err
      | .ok (taken, sim) => .ok ((cut trades.toNat taken).flatten, sim) := by
  rw [labeledBatch, extendTo_eq, bind_apply, bind_apply, List.length_nil]
  cases batches env trades trades.toNat 0 sim with
  | error err => rfl
  | ok result =>
      simp only [flatten_cut]
      rfl

/-- The simulator gives as many trades as it is asked for. -/
theorem length_cut_batches {sim sim' : MarketSimulator F G} {taken : List (List (LabeledTrade F))}
    (h : batches env trades trades.toNat 0 sim = .ok (taken, sim')) :
    (cut trades.toNat taken).flatten.length = trades.toNat := by
  have henough := batches_enough env trades trades.toNat 0 (by omega) sim (taken, sim') h
  rw [flatten_cut, List.length_take]
  dsimp only at henough
  omega

/-- A report is made of the batches, run together where they are of one kind. -/
theorem evaluate_eq :
    match evaluatedBatches env sklearn config trades anomalyRate rng symbols with
    | .error err => evaluate env sklearn config trades anomalyRate rng symbols = .error err
    | .ok injected => ∃ records,
        evaluate env sklearn config trades anomalyRate rng symbols = .ok (score records) ∧
          records.length = trades.toNat ∧
          episodes records =
            (mergedBatches injected).map (fun group => (group.1, group.2.flatten)) := by
  unfold evaluatedBatches evaluate
  simp only [labeledBatch_apply]
  cases htaken : batches env trades trades.toNat 0
      (MarketSimulator.init env (evalSymbols symbols) anomalyRate rng) with
  | error err => rfl
  | ok result =>
      obtain ⟨taken, sim⟩ := result
      have hone := oneLabel_cut (n := trades.toNat)
        (batches_returns env trades trades.toNat 0 _ (taken, sim) htaken)
      simp only [bind, Except.bind, pure, Except.pure, recordTape_flatten]
      cases hrecords : recordBatches (DetectionEngine.init sklearn config)
          (cut trades.toNat taken) with
      | error err => rfl
      | ok recorded =>
          obtain ⟨records, e⟩ := recorded
          have hlength := recordBatches_length hrecords
          rw [length_cut_batches env trades htaken] at hlength
          exact ⟨records.flatten, rfl, hlength,
            episodes_flatten (recordBatches_oneLabel hrecords hone)⟩

/-- An event of the report is a stretch of injected batches of one kind with
nothing between them, and it is detected when a trade of one of them was flagged.
Where no two batches of one kind stand next to each other, these are the batches. -/
theorem evaluate_counts_merged :
    match evaluatedBatches env sklearn config trades anomalyRate rng symbols with
    | .error err => evaluate env sklearn config trades anomalyRate rng symbols = .error err
    | .ok injected => ∃ report,
        evaluate env sklearn config trades anomalyRate rng symbols = .ok report ∧
          report.totalTrades = trades.toNat ∧
          report.totalEvents = (mergedBatches injected).length ∧
          report.detectedEvents =
            (mergedBatches injected).countP (fun group => group.2.any (·.any id)) ∧
          (Separated injected → report.totalEvents = injected.countP (·.1.isSome) ∧
            report.detectedEvents = injected.countP TapeBatch.caught) := by
  have heq := evaluate_eq env sklearn config trades anomalyRate rng symbols
  cases hinjected : evaluatedBatches env sklearn config trades anomalyRate rng symbols with
  | error err =>
      rw [hinjected] at heq
      exact heq
  | ok injected =>
      rw [hinjected] at heq
      obtain ⟨records, hreport, hlength, hepisodes⟩ := heq
      have htrades : (score records).totalTrades = trades.toNat := hlength
      have htotal : (score records).totalEvents = (mergedBatches injected).length := by
        rw [score_eq, reportOf, hepisodes, List.length_map]
      have hdetected : (score records).detectedEvents =
          (mergedBatches injected).countP (fun group => group.2.any (·.any id)) := by
        have hcount : (score records).detectedEvents =
            (episodes records).countP Episode.detected := by
          rw [score_eq]
          rfl
        rw [hcount, hepisodes, List.countP_map]
        congr 1
        funext group
        simp [Episode.detected, List.any_flatten]
      refine ⟨score records, hreport, htrades, htotal, hdetected, ?_⟩
      intro hseparated
      rw [htotal, hdetected, mergedBatches_of_separated hseparated, List.length_map,
        length_labelled, List.countP_map, ← countP_labelled]
      refine ⟨rfl, ?_⟩
      congr 1
      funext batch
      simp

end Evaluate

/-- Two price spikes in a row. The engine misses the first. -/
theorem evaluatedBatches_steady :
    evaluatedBatches steadyChance SkLearn.missing {} 2 1 () (some ["ACME"]) =
      .ok [(some "price_spike", [false]), (some "price_spike", [true])] := by
  decide +kernel

/-- The one that was missed hides behind the one that was caught: two batches, one
of them flagged, are reported as one event that was detected. -/
theorem two_batches_one_event :
    ∃ injected report,
      evaluatedBatches steadyChance SkLearn.missing {} 2 1 () (some ["ACME"]) = .ok injected ∧
        evaluate steadyChance SkLearn.missing {} 2 1 () (some ["ACME"]) = .ok report ∧
        injected.countP (·.1.isSome) = 2 ∧ injected.countP TapeBatch.caught = 1 ∧
        report.totalEvents = 1 ∧ report.detectedEvents = 1 := by
  have heq := evaluate_eq steadyChance SkLearn.missing {} 2 1 () (some ["ACME"])
  rw [evaluatedBatches_steady] at heq
  obtain ⟨records, hreport, _, hepisodes⟩ := heq
  have hmerged : episodes records = [("price_spike", [false, true])] := by
    rw [hepisodes]
    decide
  refine ⟨_, _, evaluatedBatches_steady, hreport, by decide, by decide, ?_, ?_⟩
  · rw [score_eq]
    exact congrArg List.length hmerged
  · rw [score_eq]
    exact congrArg (List.countP Episode.detected) hmerged

end TradeWatch
