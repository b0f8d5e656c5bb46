import TradeWatch.Engine
import TradeWatch.Lib.GroupBy
import TradeWatch.Lib.Rounding
import TradeWatch.Sources.Simulator

/-!
The evaluation harness: the simulator's tape through the engine, and the score
of what the engine flagged. Each record is the label of a trade, `None` for a
normal one, and whether the engine raised an alert on it. The scoring walks the
records with one index through three nested loops; what it counts are the
maximal runs of one label and the maximal runs of flagged normal trades. The
index is modelled by the records from it on.
-/

namespace TradeWatch

open PyFloat GroupBy

/-- `(label, was_flagged)` of one trade. -/
abbrev EvalRecord := Option String × Bool

structure EvalReport where
  totalTrades : ℕ
  totalEvents : ℕ
  detectedEvents : ℕ
  falseAlarmEpisodes : ℕ
  normalTrades : ℕ
  normalTradesFlagged : ℕ
  /-- Detected and all episodes of each label. -/
  perLabelRecall : OrderedDict String (ℕ × ℕ)

namespace EvalReport

variable {F : Type} [PyFloat F]

/-- `m / n if n else 0.0`. -/
def share (m n : ℕ) : Except PyError F :=
  if n = 0 then .ok (ofRat 0) else intDiv m n

def precision (report : EvalReport) : Except PyError F :=
  share report.detectedEvents (report.detectedEvents + report.falseAlarmEpisodes)

/-- `recall`, which is a keyword here. -/
def eventRecall (report : EvalReport) : Except PyError F :=
  share report.detectedEvents report.totalEvents

def f1 (report : EvalReport) : Except PyError F := do
  let p ← report.precision
  let r ← report.eventRecall
  if isZero (add p r) then .ok (ofRat 0)
  else trueDiv (mul (mul (ofRat 2) p) r) (add p r)

def falsePositiveRate (report : EvalReport) : Except PyError F :=
  share report.normalTradesFlagged report.normalTrades

end EvalReport

/-- The counters of the walk. -/
@[ext]
structure ScoreState where
  totalEvents : ℕ
  detectedEvents : ℕ
  falseAlarmEpisodes : ℕ
  normalTrades : ℕ
  normalFlagged : ℕ
  perLabel : OrderedDict String (ℕ × ℕ)

def ScoreState.zero : ScoreState := ⟨0, 0, 0, 0, 0, .empty⟩

/-- `per_label[label]` of a `defaultdict(lambda: [0, 0])`, changed in place. -/
def bumpLabel (perLabel : OrderedDict String (ℕ × ℕ)) (label : String)
    (change : ℕ × ℕ → ℕ × ℕ) : OrderedDict String (ℕ × ℕ) :=
  perLabel.set label (change ((perLabel.get? label).getD (0, 0)))

/-- `while j < n and records[j][0] == label`. -/
def consumeEpisode (label : String) (anyFlag : Bool) : List EvalRecord → Bool × List EvalRecord
  | [] => (anyFlag, [])
  | (other, flagged) :: rest =>
      if other = some label then consumeEpisode label (anyFlag || flagged) rest
      else (anyFlag, (other, flagged) :: rest)

/-- `while i < n and records[i][0] is None`. -/
def walkNormal (inEpisode : Bool) (s : ScoreState) : List EvalRecord → ScoreState × List EvalRecord
  | [] => (s, [])
  | (some label, flagged) :: rest => (s, (some label, flagged) :: rest)
  | (none, flagged) :: rest =>
      let s := { s with normalTrades := s.normalTrades + 1 }
      if flagged then
        let s := { s with normalFlagged := s.normalFlagged + 1 }
        if inEpisode then walkNormal true s rest
        else walkNormal true { s with falseAlarmEpisodes := s.falseAlarmEpisodes + 1 } rest
      else walkNormal false s rest

theorem consumeEpisode_length_le (label : String) (anyFlag : Bool) (records : List EvalRecord) :
    (consumeEpisode label anyFlag records).2.length ≤ records.length := by
  induction records generalizing anyFlag with
  | nil => rfl
  | cons record rest ih =>
      obtain ⟨other, flagged⟩ := record
      rw [consumeEpisode]
      split
      · exact (ih _).trans (Nat.le_succ _)
      · exact le_rfl

theorem walkNormal_length_le (inEpisode : Bool) (s : ScoreState) (records : List EvalRecord) :
    (walkNormal inEpisode s records).2.length ≤ records.length := by
  induction records generalizing inEpisode s with
  | nil => rfl
  | cons record rest ih =>
      obtain ⟨label | label, flagged⟩ := record
      · rw [walkNormal]
        dsimp only
        split
        · split <;> exact (ih _ _).trans (Nat.le_succ _)
        · exact (ih _ _).trans (Nat.le_succ _)
      · rfl

/-- What one episode adds to the counters. -/
def ScoreState.countEpisode (s : ScoreState) (label : String) (anyFlag : Bool) : ScoreState :=
  let s := { s with
    totalEvents := s.totalEvents + 1
    perLabel := bumpLabel s.perLabel label (fun counts => (counts.1, counts.2 + 1)) }
  if anyFlag then
    { s with
      detectedEvents := s.detectedEvents + 1
      perLabel := bumpLabel s.perLabel label (fun counts => (counts.1 + 1, counts.2)) }
  else s

theorem consumeEpisode_length_lt (label : String) (flagged : Bool) (rest : List EvalRecord) :
    (consumeEpisode label false ((some label, flagged) :: rest)).2.length < rest.length + 1 := by
  rw [consumeEpisode, if_pos rfl]
  exact Nat.lt_succ_of_le (consumeEpisode_length_le _ _ _)

theorem walkNormal_length_lt (s : ScoreState) (flagged : Bool) (rest : List EvalRecord) :
    (walkNormal false s ((none, flagged) :: rest)).2.length < rest.length + 1 := by
  rw [walkNormal]
  cases flagged <;> exact Nat.lt_succ_of_le (walkNormal_length_le _ _ _)

/-- `while i < n`. -/
def scoreLoop (s : ScoreState) : List EvalRecord → ScoreState
  | [] => s
  | (some label, flagged) :: rest =>
      let episode := consumeEpisode label false ((some label, flagged) :: rest)
      scoreLoop (s.countEpisode label episode.1) episode.2
  | (none, flagged) :: rest =>
      let region := walkNormal false s ((none, flagged) :: rest)
      scoreLoop region.1 region.2
termination_by records => records.length
decreasing_by
  · exact consumeEpisode_length_lt label flagged rest
  · exact walkNormal_length_lt s flagged rest

/-- `_score`. -/
def score (records : List EvalRecord) : EvalReport :=
  let s := scoreLoop .zero records
  { totalTrades := records.length
    totalEvents := s.totalEvents
    detectedEvents := s.detectedEvents
    falseAlarmEpisodes := s.falseAlarmEpisodes
    normalTrades := s.normalTrades
    normalTradesFlagged := s.normalFlagged
    perLabelRecall := s.perLabel }

section Harness

variable {D F G M : Type} [PyFloat F]

/-- `symbols or [...]`. -/
def evalSymbols : Option (List String) → List String
  | some (symbol :: rest) => symbol :: rest
  | _ => ["AAPL", "MSFT", "BTC-USD", "ETH-USD", "TSLA"]

/-- The loop over the tape: `(label, bool(alerts))` for each trade. -/
def recordTape [Detector D F] (e : DetectionEngine D F) :
    List (LabeledTrade F) → Except PyError (List EvalRecord × DetectionEngine D F)
  | [] => .ok ([], e)
  | (trade, label) :: rest =>
      match e.process trade with
      | (.error err, _) => .error err
      | (.ok alerts, e) => do
          let (records, e) ← recordTape e rest
          return ((label, !alerts.isEmpty) :: records, e)

/-- `evaluate`, on a loaded ruleset and a seeded generator. -/
def evaluate (env : Chance F G) (sklearn : SkLearn F M) (config : DetectionConfig F) (trades : ℤ)
    (anomalyRate : F) (rng : G) (symbols : Option (List String)) :
    Except PyError EvalReport := do
  let engine := DetectionEngine.init sklearn config
  let sim := MarketSimulator.init env (evalSymbols symbols) anomalyRate rng
  let (tape, _) ← MarketSimulator.labeledBatch env trades sim
  let (records, _) ← recordTape engine tape
  return score records

end Harness

section Episodes

/-- An anomaly event: a maximal run of trades of one label, with the flag of
each. -/
abbrev Episode := String × List Bool

/-- The engine raised an alert on one of its trades. -/
def Episode.detected (episode : Episode) : Bool := episode.2.any id

/-- The groups that have a label. -/
def labelled {α : Type} (groups : List (Option String × α)) : List (String × α) :=
  groups.filterMap (fun group => group.1.map (·, group.2))

/-- `runs` is the one division into maximal groups. -/
def episodes (records : List EvalRecord) : List Episode := labelled (runs records)

/-- A normal trade that was flagged. -/
def EvalRecord.falseAlarm (record : EvalRecord) : Bool := record.1.isNone && record.2

/-- The maximal runs of flagged normal trades. -/
def falseAlarms (records : List EvalRecord) : List (Bool × List EvalRecord) :=
  (runs (records.map (fun record => (record.falseAlarm, record)))).filter (·.1)

/-- Detected and all episodes of a label, if it has any. -/
def labelCounts (label : String) (found : List Episode) : Option (ℕ × ℕ) :=
  if label ∈ found.map Prod.fst then
    some (found.countP (fun episode => episode.1 = label && episode.detected),
      found.countP (fun episode => episode.1 = label))
  else none

theorem consumeEpisode_eq (label : String) (anyFlag : Bool) (records : List EvalRecord) :
    consumeEpisode label anyFlag records =
      (anyFlag || ((records.takeWhile (·.1 = some label)).map Prod.snd).any id,
        records.dropWhile (·.1 = some label)) := by
  induction records generalizing anyFlag with
  | nil => simp [consumeEpisode]
  | cons record rest ih =>
      obtain ⟨other, flagged⟩ := record
      rw [consumeEpisode]
      by_cases h : other = some label
      · rw [if_pos h, ih]
        simp [h, Bool.or_assoc]
      · simp [h]

/-- The inner loop takes the first episode off the records and leaves the rest. -/
theorem episodes_consume (label : String) (flagged : Bool) (rest : List EvalRecord) :
    ∃ flags, episodes ((some label, flagged) :: rest) = (label, flags) ::
        episodes (consumeEpisode label false ((some label, flagged) :: rest)).2 ∧
      (consumeEpisode label false ((some label, flagged) :: rest)).1 =
        Episode.detected (label, flags) := by
  refine ⟨flagged :: (rest.takeWhile (·.1 = some label)).map Prod.snd, ?_, ?_⟩
  · rw [episodes, runs_cons, consumeEpisode_eq]
    simp [episodes, labelled]
  · rw [consumeEpisode_eq]
    simp [Episode.detected]

theorem labelled_extend_none {α : Type} (values : List α)
    (groups : List (Option String × List α)) :
    labelled (extend none values groups) = labelled groups := by
  cases groups with
  | nil => rfl
  | cons group groups =>
      obtain ⟨next, more⟩ := group
      by_cases h : next = none <;> simp [extend, labelled, h]

theorem episodes_normal (flagged : Bool) (rest : List EvalRecord) :
    episodes ((none, flagged) :: rest) = episodes rest :=
  labelled_extend_none [flagged] (runs rest)

/-- The records begin with a flagged normal trade. -/
def startsAlarm : List EvalRecord → Bool
  | [] => false
  | record :: _ => record.falseAlarm

/-- A flagged normal trade begins a false alarm unless it goes on with the one
that the next trade is in. -/
theorem falseAlarms_cons (record : EvalRecord) (rest : List EvalRecord) :
    (falseAlarms (record :: rest)).length +
        (if record.falseAlarm && startsAlarm rest then 1 else 0) =
      (falseAlarms rest).length + if record.falseAlarm then 1 else 0 := by
  unfold falseAlarms
  rw [List.map_cons, runs]
  cases rest with
  | nil => cases record.falseAlarm <;> simp [runs, extend, startsAlarm]
  | cons next rest =>
      obtain ⟨values, groups, hruns⟩ := runs_head next.falseAlarm next
        (rest.map (fun record => (record.falseAlarm, record)))
      rw [List.map_cons, hruns]
      cases record.falseAlarm <;> cases hnext : next.falseAlarm <;>
        simp [extend, startsAlarm, hnext]

theorem falseAlarms_length_le (records : List EvalRecord) :
    (falseAlarms records).length ≤ records.countP EvalRecord.falseAlarm := by
  induction records with
  | nil => exact le_rfl
  | cons record rest ih =>
      have hstep := falseAlarms_cons record rest
      rw [List.countP_cons]
      omega

theorem falseAlarms_labelled (label : String) (flagged : Bool) (rest : List EvalRecord) :
    (falseAlarms ((some label, flagged) :: rest)).length = (falseAlarms rest).length := by
  simpa [EvalRecord.falseAlarm] using falseAlarms_cons (some label, flagged) rest

end Episodes

section Walk

/-- `per_label` after an episode. -/
def countLabel (perLabel : OrderedDict String (ℕ × ℕ)) (episode : Episode) :
    OrderedDict String (ℕ × ℕ) :=
  let s := { ScoreState.zero with perLabel := perLabel }
  (s.countEpisode episode.1 episode.detected).perLabel

/-- The counters once the records are counted by the definitions. -/
def ScoreState.after (s : ScoreState) (records : List EvalRecord) : ScoreState where
  totalEvents := s.totalEvents + (episodes records).length
  detectedEvents := s.detectedEvents + (episodes records).countP Episode.detected
  falseAlarmEpisodes := s.falseAlarmEpisodes + (falseAlarms records).length
  normalTrades := s.normalTrades + records.countP (·.1.isNone)
  normalFlagged := s.normalFlagged + records.countP EvalRecord.falseAlarm
  perLabel := (episodes records).foldl countLabel s.perLabel

/-- The trades of an episode are not normal ones. -/
theorem consumeEpisode_normal (label : String) (anyFlag : Bool) (records : List EvalRecord) :
    let ahead := (consumeEpisode label anyFlag records).2
    (falseAlarms ahead).length = (falseAlarms records).length ∧
      ahead.countP (·.1.isNone) = records.countP (·.1.isNone) ∧
      ahead.countP EvalRecord.falseAlarm = records.countP EvalRecord.falseAlarm := by
  intro ahead
  unfold ahead
  induction records generalizing anyFlag with
  | nil => simp [consumeEpisode]
  | cons record rest ih =>
      obtain ⟨other, flagged⟩ := record
      rw [consumeEpisode]
      by_cases h : other = some label
      · obtain ⟨halarms, hnormal, hflagged⟩ := ih (anyFlag || flagged)
        subst h
        rw [if_pos rfl, falseAlarms_labelled]
        refine ⟨halarms, ?_, ?_⟩
        · simpa using hnormal
        · simpa [EvalRecord.falseAlarm] using hflagged
      · simp [h]

theorem ScoreState.countEpisode_after (s : ScoreState) (episode : Episode)
    (records : List EvalRecord) :
    (s.countEpisode episode.1 episode.detected).after records =
      { s.after records with
        totalEvents := (s.after records).totalEvents + 1
        detectedEvents := (s.after records).detectedEvents + if episode.detected then 1 else 0
        perLabel := (episodes records).foldl countLabel (countLabel s.perLabel episode) } := by
  unfold after countLabel countEpisode
  cases episode.detected <;> ext1 <;> simp [Nat.add_right_comm]

theorem ScoreState.after_consume (s : ScoreState) (label : String) (flagged : Bool)
    (rest : List EvalRecord) :
    let episode := consumeEpisode label false ((some label, flagged) :: rest)
    (s.countEpisode label episode.1).after episode.2 = s.after ((some label, flagged) :: rest) := by
  intro episode
  obtain ⟨flags, hepisodes, hdetected⟩ := episodes_consume label flagged rest
  obtain ⟨halarms, hnormal, hflagged⟩ :=
    consumeEpisode_normal label false ((some label, flagged) :: rest)
  unfold episode
  rw [hdetected, countEpisode_after _ (label, flags)]
  unfold after
  rw [hepisodes, halarms, hnormal, hflagged]
  ext1 <;> simp [List.countP_cons, Nat.add_assoc]

/-- The carried flag: a run that began before the records is not counted again. -/
def continued (inEpisode : Bool) (records : List EvalRecord) : ℕ :=
  if inEpisode && startsAlarm records then 1 else 0

@[simp] theorem continued_false (records : List EvalRecord) : continued false records = 0 := rfl

def ScoreState.addAlarms (s : ScoreState) (n : ℕ) : ScoreState :=
  { s with falseAlarmEpisodes := s.falseAlarmEpisodes + n }

@[simp] theorem ScoreState.addAlarms_zero (s : ScoreState) : s.addAlarms 0 = s := rfl

theorem ScoreState.addAlarms_inj {s s' : ScoreState} {n : ℕ} (h : s.addAlarms n = s'.addAlarms n) :
    s = s' := by
  obtain ⟨htotal, hdetected, halarms, hnormal, hflagged, hlabel⟩ := ScoreState.ext_iff.mp h
  exact ScoreState.ext htotal hdetected (Nat.add_right_cancel halarms) hnormal hflagged hlabel

theorem ScoreState.addAlarms_comm (s : ScoreState) (m n : ℕ) :
    (s.addAlarms m).addAlarms n = (s.addAlarms n).addAlarms m := by
  simp [addAlarms, Nat.add_right_comm]

theorem ScoreState.after_addAlarms (s : ScoreState) (n : ℕ) (records : List EvalRecord) :
    (s.addAlarms n).after records = (s.after records).addAlarms n := by
  simp [after, addAlarms, Nat.add_right_comm]

theorem ScoreState.after_quiet (s : ScoreState) (rest : List EvalRecord) :
    s.after ((none, false) :: rest) =
      { s with normalTrades := s.normalTrades + 1 }.after rest := by
  have halarms := falseAlarms_cons (none, false) rest
  simp only [EvalRecord.falseAlarm, Bool.and_false, Bool.false_and, Bool.false_eq_true, if_false,
    Nat.add_zero] at halarms
  unfold after
  rw [episodes_normal, halarms]
  ext1 <;> simp [EvalRecord.falseAlarm, Nat.add_assoc, Nat.add_comm 1]

theorem ScoreState.after_flagged (s : ScoreState) (rest : List EvalRecord) :
    (s.after ((none, true) :: rest)).addAlarms (continued true rest) =
      { s with
        normalTrades := s.normalTrades + 1
        normalFlagged := s.normalFlagged + 1
        falseAlarmEpisodes := s.falseAlarmEpisodes + 1 }.after rest := by
  have halarms := falseAlarms_cons (none, true) rest
  simp only [EvalRecord.falseAlarm, Option.isNone_none, Bool.and_self, Bool.true_and, if_true]
    at halarms
  unfold after addAlarms continued
  rw [episodes_normal]
  ext1 <;> simp [EvalRecord.falseAlarm] <;> omega

/-- The walk over a normal region. A flagged trade that goes on with the run in
hand is the one case in which a run counted by the rest is not a new one. -/
theorem walkNormal_after (inEpisode : Bool) (s : ScoreState) (records : List EvalRecord) :
    let region := walkNormal inEpisode s records
    (region.1.after region.2).addAlarms (continued inEpisode records) = s.after records := by
  induction records generalizing inEpisode s with
  | nil => simp [walkNormal, continued, startsAlarm]
  | cons record rest ih =>
      obtain ⟨label | label, flagged⟩ := record
      · cases flagged with
        | false =>
            have hcontinued : continued inEpisode ((none, false) :: rest) = 0 := by
              simp [continued, startsAlarm, EvalRecord.falseAlarm]
            rw [hcontinued, ScoreState.after_quiet]
            exact ih false _
        | true =>
            apply ScoreState.addAlarms_inj (n := continued true rest)
            rw [ScoreState.after_flagged]
            cases inEpisode with
            | false => exact ih true _
            | true =>
                have hstep := congrArg (ScoreState.addAlarms · 1) (ih true { s with
                  normalTrades := s.normalTrades + 1
                  normalFlagged := s.normalFlagged + 1 })
                rw [ScoreState.addAlarms_comm, ← ScoreState.after_addAlarms _ 1 rest] at hstep
                exact hstep
      · simp [walkNormal, continued, startsAlarm, EvalRecord.falseAlarm]

/-- The walk counts what the definitions do, in whatever state it starts. -/
theorem scoreLoop_eq (s : ScoreState) (records : List EvalRecord) :
    scoreLoop s records = s.after records := by
  fun_induction scoreLoop s records with
  | case1 s => rfl
  | case2 s label flagged rest episode ih => rw [ih, ScoreState.after_consume]
  | case3 s flagged rest region ih =>
      rw [ih, ← walkNormal_after false s]
      rfl

end Walk

section Labels

theorem get?_bumpLabel (perLabel : OrderedDict String (ℕ × ℕ)) (label other : String)
    (change : ℕ × ℕ → ℕ × ℕ) :
    (bumpLabel perLabel label change).get? other =
      if other = label then some (change ((perLabel.get? label).getD (0, 0)))
      else perLabel.get? other :=
  OrderedDict.get?_set perLabel label other _

theorem get?_countLabel (perLabel : OrderedDict String (ℕ × ℕ)) (episode : Episode)
    (label : String) :
    (countLabel perLabel episode).get? label =
      if label = episode.1 then
        some (((perLabel.get? label).getD (0, 0)).1 + (if episode.detected then 1 else 0),
          ((perLabel.get? label).getD (0, 0)).2 + 1)
      else perLabel.get? label := by
  unfold countLabel ScoreState.countEpisode
  by_cases h : label = episode.1
  · subst h
    cases episode.detected <;> simp [get?_bumpLabel]
  · cases episode.detected <;> simp [get?_bumpLabel, h]

theorem countP_label_eq_zero {label : String} {found : List Episode}
    (h : label ∉ found.map Prod.fst) (keep : Episode → Bool) :
    found.countP (fun episode => episode.1 = label && keep episode) = 0 := by
  rw [List.countP_eq_zero]
  intro episode hmem
  have hne : episode.1 ≠ label := fun heq => h (List.mem_map.mpr ⟨episode, hmem, heq⟩)
  simp [hne]

theorem get?_foldl_countLabel (perLabel : OrderedDict String (ℕ × ℕ)) (found : List Episode)
    (label : String) :
    (found.foldl countLabel perLabel).get? label =
      if label ∈ found.map Prod.fst then
        some (((perLabel.get? label).getD (0, 0)).1 +
            found.countP (fun episode => episode.1 = label && episode.detected),
          ((perLabel.get? label).getD (0, 0)).2 + found.countP (fun episode => episode.1 = label))
      else perLabel.get? label := by
  induction found generalizing perLabel with
  | nil => rfl
  | cons episode rest ih =>
      rw [List.foldl_cons, ih, get?_countLabel, List.map_cons]
      by_cases h : label = episode.1
      · subst h
        by_cases hrest : episode.1 ∈ rest.map Prod.fst
        · simp only [hrest, List.mem_cons, true_or, if_true, Option.getD_some, List.countP_cons,
            decide_true, Bool.true_and, Option.some.injEq, Prod.mk.injEq]
          omega
        · have hhit := countP_label_eq_zero hrest Episode.detected
          have htot := countP_label_eq_zero hrest (fun _ => true)
          simp only [Bool.and_true] at htot
          simp [hrest, hhit, htot, List.countP_cons]
      · simp only [h, Ne.symm h, List.mem_cons, false_or, if_false, List.countP_cons, decide_false,
          Bool.false_and, Bool.false_eq_true, Nat.add_zero]

theorem sum_bumpLabel (perLabel : OrderedDict String (ℕ × ℕ)) (label : String)
    (change : ℕ × ℕ → ℕ × ℕ) :
    ((bumpLabel perLabel label change).values.map Prod.snd).sum +
        ((perLabel.get? label).getD (0, 0)).2 =
      (perLabel.values.map Prod.snd).sum + (change ((perLabel.get? label).getD (0, 0))).2 := by
  have hsum := OrderedDict.sum_values_set perLabel Prod.snd label
    (change ((perLabel.get? label).getD (0, 0)))
  have hget : ((perLabel.get? label).map Prod.snd).getD 0 =
      ((perLabel.get? label).getD (0, 0)).2 := by
    cases perLabel.get? label <;> rfl
  rw [hget] at hsum
  exact hsum

theorem sum_countLabel (perLabel : OrderedDict String (ℕ × ℕ)) (episode : Episode) :
    ((countLabel perLabel episode).values.map Prod.snd).sum =
      (perLabel.values.map Prod.snd).sum + 1 := by
  have htotal := sum_bumpLabel perLabel episode.1 (fun counts => (counts.1, counts.2 + 1))
  unfold countLabel ScoreState.countEpisode
  cases episode.detected with
  | false =>
      dsimp only at htotal ⊢
      simp only [Bool.false_eq_true, if_false]
      omega
  | true =>
      have hhit := sum_bumpLabel
        (bumpLabel perLabel episode.1 (fun counts => (counts.1, counts.2 + 1))) episode.1
        (fun counts => (counts.1 + 1, counts.2))
      dsimp only at htotal hhit ⊢
      simp only [if_true]
      omega

theorem sum_foldl_countLabel (perLabel : OrderedDict String (ℕ × ℕ)) (found : List Episode) :
    ((found.foldl countLabel perLabel).values.map Prod.snd).sum =
      (perLabel.values.map Prod.snd).sum + found.length := by
  induction found generalizing perLabel with
  | nil => rfl
  | cons episode rest ih =>
      rw [List.foldl_cons, ih, sum_countLabel, List.length_cons]
      omega

end Labels

section Rates

variable {F : Type} [PyFloat F]

theorem EvalReport.share_eq {m n : ℕ} (h : m ≤ n) :
    ∃ q : ℚ, 0 ≤ q ∧ q ≤ 1 ∧ (share m n : Except PyError F) = .ok (ofRat q) := by
  unfold share
  split
  · exact ⟨0, le_rfl, zero_le_one, rfl⟩
  · rename_i hn
    refine ⟨m / n, by positivity, div_le_one_of_le₀ (by exact_mod_cast h) (by positivity), ?_⟩
    rw [intDiv_eq_ok (by exact_mod_cast hn)]
    push_cast
    rfl

variable [Rounding F]

theorem EvalReport.f1_inUnit {report : EvalReport} {p r : ℚ} (hp0 : 0 ≤ p) (hp1 : p ≤ 1)
    (hr0 : 0 ≤ r) (hr1 : r ≤ 1) (hp : (report.precision : Except PyError F) = .ok (ofRat p))
    (hr : (report.eventRecall : Except PyError F) = .ok (ofRat r)) :
    ∃ x : F, report.f1 = .ok x ∧ InUnit x := by
  unfold f1
  rw [hp, hr]
  cases hsum : isZero (add (ofRat p) (ofRat r) : F) with
  | true => exact ⟨ofRat 0, by simp [hsum, bind, Except.bind], inUnit_zero⟩
  | false =>
      exact ⟨_, by simp [hsum, bind, Except.bind, trueDiv],
        inUnit_harmonic hp0 hp1 hr0 hr1 hsum⟩

end Rates

/-- The report by the definitions. -/
def reportOf (records : List EvalRecord) : EvalReport where
  totalTrades := records.length
  totalEvents := (episodes records).length
  detectedEvents := (episodes records).countP Episode.detected
  falseAlarmEpisodes := (falseAlarms records).length
  normalTrades := records.countP (·.1.isNone)
  normalTradesFlagged := records.countP EvalRecord.falseAlarm
  perLabelRecall := (episodes records).foldl countLabel .empty

theorem score_eq (records : List EvalRecord) : score records = reportOf records := by
  simp only [score, scoreLoop_eq, ScoreState.after, ScoreState.zero, Nat.zero_add, reportOf]

/-- The report of the three loops is the one of the definitions: every record is
counted once, in the run that it is in. -/
theorem score_event_based (F : Type) [PyFloat F] [Rounding F] (records : List EvalRecord) :
    let report := score records
    (∀ groups, Maximal records groups ↔ groups = runs records) ∧
      report.totalTrades = records.length ∧
      report.totalEvents = (episodes records).length ∧
      report.detectedEvents = (episodes records).countP Episode.detected ∧
      (∀ label, report.perLabelRecall.get? label = labelCounts label (episodes records)) ∧
      report.falseAlarmEpisodes = (falseAlarms records).length ∧
      report.normalTrades = records.countP (·.1.isNone) ∧
      report.normalTradesFlagged = records.countP EvalRecord.falseAlarm ∧
      (report.perLabelRecall.values.map Prod.snd).sum = report.totalEvents ∧
      report.detectedEvents ≤ report.totalEvents ∧
      report.falseAlarmEpisodes ≤ report.normalTradesFlagged ∧
      report.normalTradesFlagged ≤ report.normalTrades ∧
      (∃ x : F, report.precision = .ok x ∧ InUnit x) ∧
      (∃ x : F, report.eventRecall = .ok x ∧ InUnit x) ∧
      (∃ x : F, report.f1 = .ok x ∧ InUnit x) ∧
      ∃ x : F, report.falsePositiveRate = .ok x ∧ InUnit x := by
  have hlabels : ∀ label, ((episodes records).foldl countLabel .empty).get? label =
      labelCounts label (episodes records) := by
    intro label
    rw [get?_foldl_countLabel]
    simp [labelCounts]
  have hsum := sum_foldl_countLabel .empty (episodes records)
  have hdetected : (episodes records).countP Episode.detected ≤ (episodes records).length :=
    List.countP_le_length
  have hflagged : records.countP EvalRecord.falseAlarm ≤ records.countP (·.1.isNone) := by
    apply List.countP_mono_left
    intro record _ hrecord
    exact (Bool.and_eq_true_iff.mp hrecord).1
  obtain ⟨p, hp0, hp1, hp⟩ := EvalReport.share_eq (F := F)
    (Nat.le_add_right ((episodes records).countP Episode.detected) (falseAlarms records).length)
  obtain ⟨r, hr0, hr1, hr⟩ := EvalReport.share_eq (F := F) hdetected
  obtain ⟨q, hq0, hq1, hq⟩ := EvalReport.share_eq (F := F) hflagged
  intro report
  unfold report
  rw [score_eq]
  refine ⟨fun groups => maximal_iff, rfl, rfl, rfl, hlabels, rfl, rfl, rfl, ?_, hdetected,
    falseAlarms_length_le records, hflagged, ⟨_, hp, inUnit_ofRat hp0 hp1⟩,
    ⟨_, hr, inUnit_ofRat hr0 hr1⟩, EvalReport.f1_inUnit hp0 hp1 hr0 hr1 hp hr,
    ⟨_, hq, inUnit_ofRat hq0 hq1⟩⟩
  exact hsum.trans (Nat.zero_add _)

end TradeWatch
