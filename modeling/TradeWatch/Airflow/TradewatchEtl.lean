import TradeWatch.Lib.TaskGraph
import TradeWatch.Warehouse.LoadSnowflake

/-!
The daily ETL: the tasks of the DAG with their dependencies, and what an attempt
at each of them does to the partition of the day and to the gold tables. Attempts
may fail after they have had their effect, and are then repeated.
-/

namespace TradeWatch.TradewatchEtl

open TaskGraph

inductive Task
  | sparkBacktest
  | mapreduceCrosscheck
  | registerHive
  | loadSnowflake
  | qualityGate
  deriving DecidableEq, Repr

instance : Fintype Task where
  elems := {.sparkBacktest, .mapreduceCrosscheck, .registerHive, .loadSnowflake, .qualityGate}
  complete task := by cases task <;> decide

/-- `spark_backtest >> [mapreduce_crosscheck, register_hive] >> load_snowflake >>
quality_gate`, with the retries of `DEFAULT_ARGS`. -/
def dag : Plan Task where
  upstream
    | .sparkBacktest => []
    | .mapreduceCrosscheck | .registerHive => [.sparkBacktest]
    | .loadSnowflake => [.mapreduceCrosscheck, .registerHive]
    | .qualityGate => [.loadSnowflake]
  retries := 2

/-- What the tasks share. -/
structure World where
  /-- The anomalies of the day on HDFS, once the write is complete and `_SUCCESS` is
  there. -/
  partition : Option DataFrame
  gold : LoadSnowflake.Tables

/-- An attempt, with what comes of it outside. `lost` is an attempt whose worker
dies after the program has done its work. -/
inductive Attempt
  | sparkBacktest (anomalies : DataFrame)
  /-- Spark fails. It may have removed the partition, or have been killed after it
  had written it. -/
  | sparkFails (left : Option DataFrame)
  | mapreduceCrosscheck (ok : Bool)
  | registerHive (ok : Bool)
  | loadSnowflake (connect : Except PyError Unit) (lost : Bool)
  | qualityGate (hdfs lost : Bool)

def Attempt.task : Attempt → Task
  | .sparkBacktest _ => .sparkBacktest
  | .sparkFails _ => .sparkBacktest
  | .mapreduceCrosscheck _ => .mapreduceCrosscheck
  | .registerHive _ => .registerHive
  | .loadSnowflake _ _ => .loadSnowflake
  | .qualityGate _ _ => .qualityGate

inductive Event
  | start (task : Task)
  | finish (attempt : Attempt)
  | giveUp (task : Task)

/-- `_data_quality_check`. `hdfs` says whether the command can be run at all. -/
def dataQualityCheck (w : World) (hdfs : Bool) : Except PyError Unit :=
  if hdfs && w.partition.isSome then .ok () else .error .valueError

section Run

variable (cases : CaseMap) (ds : String)

/-- The arguments that `load_snowflake` is called with. -/
def loadArgs : LoadSnowflake.Args := { dt := ds }

/-- Whether the attempt succeeds, and what it leaves. -/
def perform (w : World) : Attempt → Bool × World
  | .sparkBacktest anomalies => (true, { w with partition := some anomalies })
  | .sparkFails left => (false, { w with partition := left })
  | .mapreduceCrosscheck ok => (ok, w)
  | .registerHive ok => (ok, w)
  | .loadSnowflake connect lost =>
      match w.partition with
      -- without a partition there is no Parquet to read
      | none => (false, w)
      | some anomalies =>
          let (result, gold) := LoadSnowflake.main cases (loadArgs ds) anomalies connect w.gold
          (result.isOk && !lost, { w with gold := gold })
  | .qualityGate hdfs lost => ((dataQualityCheck w hdfs).isOk && !lost, w)

def step (run : Run Task) (w : World) : Event → Option (Run Task × World)
  | .start task => (TaskGraph.step dag run (.start task)).map (·, w)
  | .finish attempt =>
      let (ok, w) := perform cases ds w attempt
      (TaskGraph.step dag run (.finish attempt.task ok)).map (·, w)
  | .giveUp task => (TaskGraph.step dag run (.giveUp task)).map (·, w)

/-- A run of the DAG for one day. -/
def steps : Run Task → World → List Event → Option (Run Task × World)
  | run, w, [] => some (run, w)
  | run, w, event :: rest => (step cases ds run w event).bind (fun next => steps next.1 next.2 rest)

/-- The scheduler's view of an event. -/
def scheduled (w : World) : Event → TaskGraph.Event Task
  | .start task => .start task
  | .finish attempt => .finish attempt.task (perform cases ds w attempt).1
  | .giveUp task => .giveUp task

/-- What the event leaves of the world. -/
def effect (w : World) : Event → World
  | .start _ => w
  | .finish attempt => (perform cases ds w attempt).2
  | .giveUp _ => w

theorem step_eq (run : Run Task) (w : World) (event : Event) :
    step cases ds run w event =
      (TaskGraph.step dag run (scheduled cases ds w event)).map (·, effect cases ds w event) := by
  cases event <;> rfl

/-- A run of the DAG is a run of its task graph. -/
theorem scheduled_of_steps {run run' : Run Task} {w w' : World} {events : List Event}
    (h : steps cases ds run w events = some (run', w')) :
    ∃ events' : List (TaskGraph.Event Task), events'.length = events.length ∧
      TaskGraph.steps dag run events' = some run' := by
  induction events generalizing run w with
  | nil =>
      cases h
      exact ⟨[], rfl, rfl⟩
  | cons event rest ih =>
      obtain ⟨⟨middle, w''⟩, hstep, hrest⟩ := Option.bind_eq_some_iff.mp h
      rw [step_eq] at hstep
      obtain ⟨next, hnext, hpair⟩ := Option.map_eq_some_iff.mp hstep
      cases hpair
      obtain ⟨events', hlength, hsteps⟩ := ih hrest
      refine ⟨scheduled cases ds w event :: events', by simp [hlength], ?_⟩
      rw [TaskGraph.steps, hnext, Option.bind_some, hsteps]

theorem sound_of_steps {run : Run Task} {w w' : World} {events : List Event}
    (h : steps cases ds .initial w events = some (run, w')) : Sound dag run := by
  obtain ⟨events', _, hsteps⟩ := scheduled_of_steps cases ds h
  exact sound_steps dag (sound_initial dag) hsteps

/-- How many attempts at a task are over. -/
def attempts (i : Instance) : ℕ := if i.status = .running then i.tries - 1 else i.tries

/-- How the gold tables and the partition go back to what the attempts did. -/
structure Accounted (before : LoadSnowflake.Tables) (run : Run Task) (w : World) : Prop where
  partition : (run .sparkBacktest).status = .success → w.partition.isSome
  gold : ∃ anomalies connects,
    w.gold = LoadSnowflake.runs cases (loadArgs ds) anomalies connects before ∧
      connects.length ≤ attempts (run .loadSnowflake) ∧
      (connects ≠ [] → w.partition = some anomalies) ∧
      ((run .loadSnowflake).status = .success → 1 ≤ LoadSnowflake.loads connects)

/-- The tasks that are done before a later one is tried. -/
theorem before_load {run : Run Task} (hsound : Sound dag run)
    (h : 1 ≤ (run .loadSnowflake).tries) :
    (run .sparkBacktest).status = .success ∧ (run .mapreduceCrosscheck).status = .success ∧
      (run .registerHive).status = .success := by
  have hready := hsound.begun .loadSnowflake h
  have hmapreduce := hready .mapreduceCrosscheck (by simp [dag])
  have hhive := hready .registerHive (by simp [dag])
  have htried := (hsound.tasks .registerHive).tried (by simp [hhive]) (by simp [hhive])
  exact ⟨hsound.begun .registerHive htried .sparkBacktest (by simp [dag]), hmapreduce, hhive⟩

/-- An event that leaves the load, the backtest and the world alone. -/
theorem accounted_of_eq {before : LoadSnowflake.Tables} {run run' : Run Task} {w : World}
    (h : Accounted cases ds before run w)
    (hspark : (run' .sparkBacktest).status = .success → (run .sparkBacktest).status = .success)
    (hload : attempts (run .loadSnowflake) ≤ attempts (run' .loadSnowflake))
    (hdone : (run' .loadSnowflake).status = .success → (run .loadSnowflake).status = .success) :
    Accounted cases ds before run' w := by
  obtain ⟨anomalies, connects, hgold, hlength, hsome, hsuccess⟩ := h.gold
  refine ⟨fun h' => h.partition (hspark h'), anomalies, connects, hgold, ?_, hsome,
    fun h' => hsuccess (hdone h')⟩
  omega

theorem runs_snoc (args : LoadSnowflake.Args) (df : DataFrame)
    (connects : List (Except PyError Unit)) (connect : Except PyError Unit)
    (tables : LoadSnowflake.Tables) :
    LoadSnowflake.runs cases args df (connects ++ [connect]) tables =
      (LoadSnowflake.main cases args df connect
        (LoadSnowflake.runs cases args df connects tables)).2 := by
  simp [LoadSnowflake.runs]

theorem loads_snoc (connects : List (Except PyError Unit)) (connect : Except PyError Unit) :
    LoadSnowflake.loads (connects ++ [connect]) =
      LoadSnowflake.loads connects + if connect.isOk then 1 else 0 := by
  rw [LoadSnowflake.loads, LoadSnowflake.loads, List.countP_append, List.countP_singleton]

/-- The attempt that ends at a task other than the backtest and the load. -/
theorem accounted_of_update {before : LoadSnowflake.Tables} {run : Run Task} {w : World}
    (h : Accounted cases ds before run w) {task : Task} (hspark : task ≠ .sparkBacktest)
    (hload : task ≠ .loadSnowflake) (i : Instance) :
    Accounted cases ds before (Function.update run task i) w := by
  apply accounted_of_eq cases ds h
  · rw [Function.update_of_ne hspark.symm]
    exact id
  · rw [Function.update_of_ne hload.symm]
  · rw [Function.update_of_ne hload.symm]
    exact id

/-- An attempt begins, or a task is given up. -/
theorem accounted_of_unsettled {before : LoadSnowflake.Tables} {run : Run Task} {w : World}
    (h : Accounted cases ds before run w) {task : Task} {i : Instance}
    (hne : i.status ≠ .success) (hattempts : attempts (run task) ≤ attempts i) :
    Accounted cases ds before (Function.update run task i) w := by
  have hstatus : ∀ other, (Function.update run task i other).status = .success →
      (run other).status = .success := by
    intro other hsuccess
    by_cases hother : other = task
    · rw [hother, Function.update_self] at hsuccess
      exact absurd hsuccess hne
    · rwa [Function.update_of_ne hother] at hsuccess
  apply accounted_of_eq cases ds h (hstatus _) ?_ (hstatus _)
  by_cases hother : Task.loadSnowflake = task
  · rw [hother, Function.update_self]
    exact hattempts
  · rw [Function.update_of_ne hother]

/-- The backtest is over before anything is loaded. -/
theorem accounted_spark {before : LoadSnowflake.Tables} {run : Run Task} {w : World}
    (hsound : Sound dag run) (h : Accounted cases ds before run w)
    (hrunning : (run .sparkBacktest).status = .running) (ok : Bool) {left : Option DataFrame}
    (hleft : ok = true → left.isSome) :
    Accounted cases ds before
      (Function.update run .sparkBacktest
        ⟨if ok then .success else afterFailure dag (run .sparkBacktest).tries,
          (run .sparkBacktest).tries⟩)
      { w with partition := left } := by
  have huntried : (run .loadSnowflake).tries = 0 := by
    by_contra htries
    have hspark := (before_load hsound (Nat.one_le_iff_ne_zero.mpr htries)).1
    rw [hrunning] at hspark
    cases hspark
  obtain ⟨anomalies, connects, hgold, hlength, _, hsuccess⟩ := h.gold
  have hzero : attempts (run .loadSnowflake) = 0 := by
    unfold attempts
    split <;> omega
  obtain rfl : connects = [] := List.length_eq_zero_iff.mp (by omega)
  have hload : Function.update run Task.sparkBacktest
      ⟨if ok then .success else afterFailure dag (run .sparkBacktest).tries,
        (run .sparkBacktest).tries⟩ .loadSnowflake = run .loadSnowflake :=
    Function.update_of_ne (by decide) _ _
  constructor
  · intro hdone
    rw [Function.update_self] at hdone
    cases ok with
    | true => exact hleft rfl
    | false =>
        simp only [Bool.false_eq_true, if_false, afterFailure] at hdone
        split_ifs at hdone
  · refine ⟨anomalies, [], hgold, ?_, by simp, ?_⟩
    · exact Nat.zero_le _
    · rw [hload]
      exact hsuccess

/-- A load that connects appends the rows of the day once more, whether or not the
attempt counts as a success. -/
theorem accounted_load {before : LoadSnowflake.Tables} {run : Run Task} {w : World}
    (hsound : Sound dag run) (h : Accounted cases ds before run w)
    (hrunning : (run .loadSnowflake).status = .running) (connect : Except PyError Unit)
    (lost : Bool) :
    Accounted cases ds before
      (Function.update run .loadSnowflake
        ⟨if (perform cases ds w (.loadSnowflake connect lost)).1 then .success
          else afterFailure dag (run .loadSnowflake).tries, (run .loadSnowflake).tries⟩)
      (perform cases ds w (.loadSnowflake connect lost)).2 := by
  have hone := (hsound.tasks .loadSnowflake).tried (by simp [hrunning]) (by simp [hrunning])
  obtain ⟨hspark, _, _⟩ := before_load hsound hone
  obtain ⟨held, hheld⟩ := Option.isSome_iff_exists.mp (h.partition hspark)
  obtain ⟨anomalies, connects, hgold, hlength, hsome, _⟩ := h.gold
  have hperform : perform cases ds w (.loadSnowflake connect lost) =
      ((LoadSnowflake.main cases (loadArgs ds) held connect w.gold).1.isOk && !lost,
        { w with gold := (LoadSnowflake.main cases (loadArgs ds) held connect w.gold).2 }) := by
    rw [perform, hheld]
  -- all loads are of one partition
  have hruns : w.gold = LoadSnowflake.runs cases (loadArgs ds) held connects before := by
    by_cases hconnects : connects = []
    · rw [hgold, hconnects]
      rfl
    · have hsame := hsome hconnects
      rw [hheld, Option.some.injEq] at hsame
      rw [hgold, hsame]
  have hbefore : attempts (run .loadSnowflake) = (run .loadSnowflake).tries - 1 := by
    rw [attempts, if_pos hrunning]
  have hover : ∀ status, status ≠ Status.running →
      attempts ⟨status, (run .loadSnowflake).tries⟩ = (run .loadSnowflake).tries := by
    intro status hne
    rw [attempts, if_neg hne]
  have hafter : ∀ ok : Bool, (if ok then Status.success
      else afterFailure dag (run .loadSnowflake).tries) ≠ .running := by
    intro ok
    unfold afterFailure
    split_ifs <;> simp
  rw [hperform]
  constructor
  · intro _
    change w.partition.isSome = true
    rw [hheld]
    rfl
  · refine ⟨held, connects ++ [connect], ?_, ?_, fun _ => hheld, ?_⟩
    · rw [runs_snoc, ← hruns]
    · rw [Function.update_self, hover _ (hafter _), List.length_append]
      change connects.length + 1 ≤ _
      omega
    · intro hsuccess
      rw [Function.update_self] at hsuccess
      rw [loads_snoc]
      rcases connect with err | ⟨⟩
      · exfalso
        simp only [LoadSnowflake.main, Except.isOk, Except.toBool, Bool.false_and,
          Bool.false_eq_true, if_false, afterFailure] at hsuccess
        split_ifs at hsuccess
      · simp [Except.toBool]

theorem accounted_step {before : LoadSnowflake.Tables} {run run' : Run Task} {w w' : World}
    {event : Event} (hsound : Sound dag run) (h : Accounted cases ds before run w)
    (hstep : step cases ds run w event = some (run', w')) :
    Accounted cases ds before run' w' := by
  rw [step_eq] at hstep
  obtain ⟨next, hnext, hpair⟩ := Option.map_eq_some_iff.mp hstep
  obtain ⟨rfl, rfl⟩ := Prod.mk.inj hpair
  rcases step_cases dag hnext with ⟨task, hevent, hstatus, -, rfl⟩ |
    ⟨task, ok, hevent, hstatus, rfl⟩ | ⟨task, hevent, hstatus, -, rfl⟩
  · have hworld : effect cases ds w event = w := by cases event <;> first | rfl | cases hevent
    rw [hworld]
    apply accounted_of_unsettled cases ds h (by simp)
    rcases hstatus with hstatus | hstatus <;> simp [attempts, hstatus]
  · cases event with
    | start other => cases hevent
    | giveUp other => cases hevent
    | finish attempt =>
        obtain ⟨rfl, rfl⟩ := TaskGraph.Event.finish.inj hevent
        cases attempt with
        | sparkBacktest anomalies => exact accounted_spark cases ds hsound h hstatus true (by simp)
        | sparkFails left => exact accounted_spark cases ds hsound h hstatus false (by simp)
        | mapreduceCrosscheck ok =>
            exact accounted_of_update cases ds h (by simp [Attempt.task]) (by simp [Attempt.task]) _
        | registerHive ok =>
            exact accounted_of_update cases ds h (by simp [Attempt.task]) (by simp [Attempt.task]) _
        | loadSnowflake connect lost => exact accounted_load cases ds hsound h hstatus connect lost
        | qualityGate hdfs lost =>
            exact accounted_of_update cases ds h (by simp [Attempt.task]) (by simp [Attempt.task]) _
  · have hworld : effect cases ds w event = w := by cases event <;> first | rfl | cases hevent
    rw [hworld]
    apply accounted_of_unsettled cases ds h (by simp)
    simp [attempts, hstatus]

theorem accounted_steps {before : LoadSnowflake.Tables} {run run' : Run Task} {w w' : World}
    (hsound : Sound dag run) (h : Accounted cases ds before run w) {events : List Event}
    (hsteps : steps cases ds run w events = some (run', w')) :
    Accounted cases ds before run' w' := by
  induction events generalizing run w with
  | nil =>
      cases hsteps
      exact h
  | cons event rest ih =>
      obtain ⟨⟨middle, w''⟩, hstep, hrest⟩ := Option.bind_eq_some_iff.mp hsteps
      have hnext := hstep
      rw [step_eq] at hnext
      obtain ⟨next, hgraph, hpair⟩ := Option.map_eq_some_iff.mp hnext
      obtain ⟨rfl, _⟩ := Prod.mk.inj hpair
      exact ih (sound_step dag hsound hgraph) (accounted_step cases ds hsound h hstep) hrest

theorem accounted_of_steps {before : LoadSnowflake.Tables} {left : Option DataFrame}
    {run : Run Task} {w : World} {events : List Event}
    (h : steps cases ds .initial ⟨left, before⟩ events = some (run, w)) :
    Accounted cases ds before run w := by
  refine accounted_steps cases ds (sound_initial dag) ?_ h
  exact ⟨fun hspark => (by cases hspark), ⟨[], [], by simp⟩, [], rfl, Nat.zero_le _, by simp,
    fun hload => (by cases hload)⟩

theorem attempts_le {i : Instance} (h : i.Sound dag.retries) : attempts i ≤ 3 := by
  have htries : i.tries ≤ 2 + 1 := h.tries_le
  unfold attempts
  split <;> omega

/-- The gold tables after any run, whatever order the tasks take and wherever their
attempts fail: the rows of the day's partition stand behind what was there, at most
three times over; not before the backtest, the cross-check and the partitions of
Hive are done, and at least once when the load has succeeded. -/
theorem gold_after_run {before : LoadSnowflake.Tables} {left : Option DataFrame}
    {run : Run Task} {w : World} {events : List Event}
    (h : steps cases ds .initial ⟨left, before⟩ events = some (run, w)) :
    ∃ (anomalies : DataFrame) (copies : ℕ), copies ≤ 3 ∧
      w.gold (LoadSnowflake.upper cases "ANOMALIES") =
        before (LoadSnowflake.upper cases "ANOMALIES") ++
          (List.replicate copies
            (LoadSnowflake.stage cases (loadArgs ds) anomalies).records).flatten ∧
      (∀ name, name ≠ LoadSnowflake.upper cases "ANOMALIES" → w.gold name = before name) ∧
      (1 ≤ copies → w.partition = some anomalies ∧ (run .sparkBacktest).status = .success ∧
        (run .mapreduceCrosscheck).status = .success ∧ (run .registerHive).status = .success) ∧
      ((run .loadSnowflake).status = .success → 1 ≤ copies) := by
  have hsound := sound_of_steps cases ds h
  obtain ⟨anomalies, connects, hgold, hlength, hsome, hsuccess⟩ :=
    (accounted_of_steps cases ds h).gold
  have hcopies : LoadSnowflake.loads connects ≤ connects.length := List.countP_le_length
  have hattempts := attempts_le (hsound.tasks .loadSnowflake)
  refine ⟨anomalies, LoadSnowflake.loads connects, by omega, ?_, ?_, ?_, hsuccess⟩
  · rw [hgold]
    exact LoadSnowflake.runs_table cases (loadArgs ds) anomalies connects before
  · intro name hname
    rw [hgold]
    exact LoadSnowflake.runs_other cases (loadArgs ds) anomalies connects before hname
  · intro hone
    have htried : 1 ≤ (run .loadSnowflake).tries := by
      have hle : attempts (run .loadSnowflake) ≤ (run .loadSnowflake).tries := by
        unfold attempts
        split <;> omega
      omega
    refine ⟨hsome ?_, before_load hsound htried⟩
    rintro rfl
    simp [LoadSnowflake.loads] at hone

/-- A day on which the cross-check and Hive overlap and the first load is lost after
its write, up to the start of the gate. -/
def lostLoad (anomalies : DataFrame) : List Event :=
  [.start .sparkBacktest, .finish (.sparkBacktest anomalies), .start .registerHive,
    .start .mapreduceCrosscheck, .finish (.registerHive true), .finish (.mapreduceCrosscheck true),
    .start .loadSnowflake, .finish (.loadSnowflake (.ok ()) true), .start .loadSnowflake,
    .finish (.loadSnowflake (.ok ()) false), .start .qualityGate]

/-- The Parquet of a day without anomalies. -/
def noAnomalies : DataFrame where
  columns := ["symbol", "score"]
  rows := []
  shape := by simp

/-- Both attempts have written: the row is there twice. -/
theorem gold_after_lost_load :
    ∃ run w, steps .asciiOnly "2026-07-21" .initial ⟨none, fun _ => []⟩
        (lostLoad LoadSnowflake.oneAnomaly) = some (run, w) ∧
      w.gold (LoadSnowflake.upper .asciiOnly "ANOMALIES") =
        (List.replicate 2 (LoadSnowflake.stage .asciiOnly (loadArgs "2026-07-21")
          LoadSnowflake.oneAnomaly).records).flatten := by
  have hruns : (steps .asciiOnly "2026-07-21" .initial ⟨none, fun _ => []⟩
      (lostLoad LoadSnowflake.oneAnomaly)).map (fun done => ((done.1 .loadSnowflake).status,
        done.2.partition, (done.2.gold (LoadSnowflake.upper .asciiOnly "ANOMALIES")).length)) =
          some (.success, some LoadSnowflake.oneAnomaly, 2) := by rfl
  obtain ⟨⟨run, w⟩, h, hends⟩ := Option.map_eq_some_iff.mp hruns
  rw [Prod.mk.injEq, Prod.mk.injEq] at hends
  obtain ⟨hstatus, hpartition, hrows⟩ := hends
  obtain ⟨anomalies, copies, _, hgold, _, hsome, hloaded⟩ :=
    gold_after_run .asciiOnly "2026-07-21" h
  have hday : anomalies = LoadSnowflake.oneAnomaly := by
    have hpart := (hsome (hloaded hstatus)).1
    rw [hpartition] at hpart
    exact (Option.some.inj hpart).symm
  have hone : (LoadSnowflake.stage .asciiOnly (loadArgs "2026-07-21")
      LoadSnowflake.oneAnomaly).records.length = 1 := by rfl
  subst hday
  rw [List.nil_append] at hgold
  have htwo : copies = 2 := by
    rw [hgold, List.length_flatten, List.map_replicate, List.sum_replicate, hone] at hrows
    simpa using hrows
  exact ⟨run, w, h, htwo ▸ hgold⟩

/-- The quality gate comes after the load and can no longer hold anything back:
whenever it has been tried, the partition has its marker, so the check passes as
soon as `hdfs` runs, with however many anomalies, and their rows are in the gold
table already. -/
theorem gate_after_load {before : LoadSnowflake.Tables} {left : Option DataFrame}
    {run : Run Task} {w : World} {events : List Event}
    (h : steps cases ds .initial ⟨left, before⟩ events = some (run, w))
    (hgate : 1 ≤ (run .qualityGate).tries) :
    (∀ hdfs, dataQualityCheck w hdfs = .ok () ↔ hdfs = true) ∧
      ∃ anomalies, w.partition = some anomalies ∧
        ∀ record ∈ (LoadSnowflake.stage cases (loadArgs ds) anomalies).records,
          record ∈ w.gold (LoadSnowflake.upper cases "ANOMALIES") := by
  have hsound := sound_of_steps cases ds h
  have hload := hsound.begun .qualityGate hgate .loadSnowflake (by simp [dag])
  obtain ⟨anomalies, connects, hgold, _, hsome, hsuccess⟩ := (accounted_of_steps cases ds h).gold
  have hone := hsuccess hload
  have hconnects : connects ≠ [] := by
    rintro rfl
    simp [LoadSnowflake.loads] at hone
  have hpartition := hsome hconnects
  constructor
  · intro hdfs
    cases hdfs <;> simp [dataQualityCheck, hpartition]
  · refine ⟨anomalies, hpartition, ?_⟩
    intro record hrecord
    rw [hgold]
    refine (LoadSnowflake.runs_table cases (loadArgs ds) anomalies connects before) ▸ ?_
    apply List.mem_append_right
    refine List.mem_flatten.mpr ⟨_, ?_, hrecord⟩
    exact List.mem_replicate.mpr ⟨by omega, rfl⟩

/-- The day without anomalies passes as well. -/
theorem gate_after_empty_load :
    ∃ run w, steps .asciiOnly "2026-07-21" .initial ⟨none, fun _ => []⟩
        (lostLoad noAnomalies) = some (run, w) ∧
      dataQualityCheck w true = .ok () := by
  have hruns : (steps .asciiOnly "2026-07-21" .initial ⟨none, fun _ => []⟩
      (lostLoad noAnomalies)).map (fun done => (done.1 .qualityGate).tries) = some 1 := by rfl
  obtain ⟨⟨run, w⟩, h, htries⟩ := Option.map_eq_some_iff.mp hruns
  have hone : 1 ≤ (run .qualityGate).tries := le_of_eq htries.symm
  exact ⟨run, w, h, ((gate_after_load .asciiOnly "2026-07-21" h hone).1 true).mpr rfl⟩

/-- No task comes before itself. -/
theorem wellFounded_dag : WellFounded fun before task => before ∈ dag.upstream task := by
  let rank : Task → ℕ
    | .sparkBacktest => 0
    | .mapreduceCrosscheck | .registerHive => 1
    | .loadSnowflake => 2
    | .qualityGate => 3
  refine Subrelation.wf ?_ (measure rank).wf
  intro before task h
  change rank before < rank task
  cases task <;> simp [dag] at h
  case loadSnowflake => rcases h with rfl | rfl <;> decide
  all_goals
    subst h
    decide

/-- Every run of the day ends: it has at most thirty events, and where it can go no
further either all five tasks have succeeded, or one has failed three times and
the quality gate has not passed. -/
theorem run_ends {left : Option DataFrame} {before : LoadSnowflake.Tables} {run : Run Task}
    {w : World} {events : List Event}
    (h : steps cases ds .initial ⟨left, before⟩ events = some (run, w)) :
    events.length ≤ 30 ∧
      ((∀ event, step cases ds run w event = none) →
        (∀ task, (run task).status = .success) ∨
          (∃ task, (run task).status = .failed ∧ (run task).tries = 3) ∧
            (run .qualityGate).status ≠ .success) := by
  obtain ⟨events', hlength, hsteps⟩ := scheduled_of_steps cases ds h
  have hsound := sound_steps dag (sound_initial dag) hsteps
  constructor
  · have hle := length_le dag hsteps
    have hcard : Fintype.card Task = 5 := by rfl
    rw [hcard, hlength] at hle
    exact hle
  · intro hstuck
    have hgraph : ∀ event, TaskGraph.step dag run event = none := by
      intro event
      cases event with
      | start task => exact Option.map_eq_none_iff.mp (hstuck (.start task))
      | giveUp task => exact Option.map_eq_none_iff.mp (hstuck (.giveUp task))
      | finish task ok =>
          have hidle : ∀ attempt : Attempt, (run attempt.task).status ≠ .running := by
            intro attempt hrunning
            have hnone := hstuck (.finish attempt)
            rw [step_eq] at hnone
            have hstep := Option.map_eq_none_iff.mp hnone
            rw [scheduled, TaskGraph.step, if_pos hrunning] at hstep
            cases hstep
          have hnot : (run task).status ≠ .running := by
            cases task with
            | sparkBacktest => exact hidle (.sparkFails none)
            | mapreduceCrosscheck => exact hidle (.mapreduceCrosscheck true)
            | registerHive => exact hidle (.registerHive true)
            | loadSnowflake => exact hidle (.loadSnowflake (.ok ()) false)
            | qualityGate => exact hidle (.qualityGate true false)
          rw [TaskGraph.step, if_neg hnot]
    rcases success_or_failed_of_stuck dag wellFounded_dag hsound hgraph with
      hall | ⟨task, hfailed, htries⟩
    · exact Or.inl hall
    · right
      refine ⟨⟨task, hfailed, htries⟩, ?_⟩
      -- a gate that has passed has all the others behind it
      intro hgate
      have hone := (hsound.tasks .qualityGate).tried (by simp [hgate]) (by simp [hgate])
      have hload := hsound.begun .qualityGate hone .loadSnowflake (by simp [dag])
      have hloaded := (hsound.tasks .loadSnowflake).tried (by simp [hload]) (by simp [hload])
      obtain ⟨hspark, hmapreduce, hhive⟩ := before_load hsound hloaded
      cases task <;> simp_all

theorem run_ends_lost_load :
    (lostLoad noAnomalies).length ≤ 30 := by
  have hruns : (steps .asciiOnly "2026-07-21" .initial ⟨none, fun _ => []⟩
      (lostLoad noAnomalies)).isSome := by rfl
  obtain ⟨⟨run, w⟩, h⟩ := Option.isSome_iff_exists.mp hruns
  exact (run_ends .asciiOnly "2026-07-21" h).1

end Run

end TradeWatch.TradewatchEtl
