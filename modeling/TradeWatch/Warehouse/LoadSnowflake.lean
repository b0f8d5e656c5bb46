import TradeWatch.Models

/-!
The loader of the gold layer. It stages the day's anomaly Parquet (column names
in capitals, the event time renamed, the partition date in a column) and appends
the staged rows to a table. Nothing looks at what the table already holds, so
the runs of one day add up.
-/

namespace TradeWatch

/-- A value in a column. -/
inductive Cell
  | null
  | number (x : ℚ)
  | text (s : String)
  | timestamp (t : ℚ)
  deriving DecidableEq, Repr

/-- A row by column name. -/
abbrev Record := List (String × Cell)

structure DataFrame where
  columns : List String
  rows : List (List Cell)
  shape : ∀ row ∈ rows, row.length = columns.length

namespace DataFrame

def records (df : DataFrame) : List Record := df.rows.map (df.columns.zip ·)

/-- `df.columns = [f(c) for c in df.columns]`, and what `rename` comes to. -/
def mapColumns (df : DataFrame) (f : String → String) : DataFrame where
  columns := df.columns.map f
  rows := df.rows
  shape row hrow := by rw [List.length_map, df.shape row hrow]

/-- `df[name] = value`: every column of the name, or a new one. -/
def setColumn (df : DataFrame) (name : String) (value : Cell) : DataFrame :=
  if name ∈ df.columns then
    { columns := df.columns
      rows := df.rows.map
        (List.zipWith (fun c cell => if c = name then value else cell) df.columns ·)
      shape := by
        intro row hrow
        obtain ⟨old, hold, rfl⟩ := List.mem_map.mp hrow
        rw [List.length_zipWith, df.shape old hold, min_self] }
  else
    { columns := df.columns ++ [name]
      rows := df.rows.map (· ++ [value])
      shape := by
        intro row hrow
        obtain ⟨old, hold, rfl⟩ := List.mem_map.mp hrow
        rw [List.length_append, List.length_append, df.shape old hold, List.length_singleton,
          List.length_singleton] }

theorem lookup_zip_overwritten {columns : List String} {row : List Cell} {name : String}
    (value : Cell) (hlength : row.length = columns.length) (hmem : name ∈ columns) :
    (columns.zip (List.zipWith (fun c cell => if c = name then value else cell) columns
      row)).lookup name = some value := by
  induction columns generalizing row with
  | nil => simp at hmem
  | cons c columns ih =>
      cases row with
      | nil => simp at hlength
      | cons cell row =>
          rw [List.zipWith_cons_cons, List.zip_cons_cons, List.lookup_cons]
          rcases eq_or_ne c name with rfl | hne
          · simp
          · have hrest : name ∈ columns := by
              rcases List.mem_cons.mp hmem with heq | hmem
              · exact absurd heq.symm hne
              · exact hmem
            rw [beq_false_of_ne hne.symm]
            exact ih (by simpa using hlength) hrest

theorem lookup_zip_appended {columns : List String} {row : List Cell} {name : String}
    (value : Cell) (hlength : row.length = columns.length) (hnew : name ∉ columns) :
    ((columns ++ [name]).zip (row ++ [value])).lookup name = some value := by
  induction columns generalizing row with
  | nil =>
      rw [List.length_eq_zero_iff.mp hlength]
      simp
  | cons c columns ih =>
      cases row with
      | nil => simp at hlength
      | cons cell row =>
          rw [List.mem_cons, not_or] at hnew
          obtain ⟨hne, hrest⟩ := hnew
          rw [List.cons_append, List.cons_append, List.zip_cons_cons, List.lookup_cons,
            beq_false_of_ne hne]
          exact ih (by simpa using hlength) hrest

/-- Every row has the new value in the column. -/
theorem lookup_setColumn (df : DataFrame) (name : String) (value : Cell) :
    ∀ record ∈ (df.setColumn name value).records, record.lookup name = some value := by
  intro record hrecord
  obtain ⟨row, hrow, rfl⟩ := List.mem_map.mp hrecord
  unfold setColumn at hrow ⊢
  split_ifs at hrow ⊢ with hmem
  · obtain ⟨old, hold, rfl⟩ := List.mem_map.mp hrow
    exact lookup_zip_overwritten value (df.shape old hold) hmem
  · obtain ⟨old, hold, rfl⟩ := List.mem_map.mp hrow
    exact lookup_zip_appended value (df.shape old hold) hmem

end DataFrame

namespace LoadSnowflake

/-- The command line, without the path that the Parquet is read from. -/
structure Args where
  dt : String
  table : String := "ANOMALIES"

/-- `text.upper()`. -/
def upper (cases : CaseMap) (text : String) : String :=
  String.ofList (text.toList.flatMap cases.upper)

/-- The frame that is written. -/
def stage (cases : CaseMap) (args : Args) (df : DataFrame) : DataFrame :=
  let df := df.mapColumns (upper cases)
  let df :=
    if "TIMESTAMP" ∈ df.columns then
      df.mapColumns (fun c => if c = "TIMESTAMP" then "EVENT_TS" else c)
    else df
  df.setColumn "DT" (.text args.dt)

/-- The tables of the schema, by name. -/
abbrev Tables := String → List Record

/-- `write_pandas` without an overwrite option: the rows are appended. -/
def writePandas (df : DataFrame) (table : String) (tables : Tables) : Tables :=
  Function.update tables table (tables table ++ df.records)

/-- `main`, with the frame that the Parquet holds and what comes of connecting.
A run that does not connect has written nothing. -/
def main (cases : CaseMap) (args : Args) (df : DataFrame) (connect : Except PyError Unit)
    (tables : Tables) : Except PyError Unit × Tables :=
  match connect with
  | .error err => (.error err, tables)
  | .ok () => (.ok (), writePandas (stage cases args df) (upper cases args.table) tables)

/-- The tables after a number of runs for one day, retries among them. -/
def runs (cases : CaseMap) (args : Args) (df : DataFrame)
    (connects : List (Except PyError Unit)) (tables : Tables) : Tables :=
  connects.foldl (fun tables connect => (main cases args df connect tables).2) tables

/-- How many of the runs connect. -/
def loads (connects : List (Except PyError Unit)) : ℕ :=
  connects.countP (fun connect => connect.toBool)

/-- The row is one of the partition `dt`. -/
def onDay (dt : String) (record : Record) : Bool := record.lookup "DT" = some (.text dt)

/-- For `dt` the table holds the rows of the Parquet, each once, and the rows of
other dates are as they were. -/
def LoadedOnce (dt : String) (staged before after : List Record) : Prop :=
  (after.filter (onDay dt)).Perm staged ∧
    after.filter (fun record => !onDay dt record) = before.filter (fun record => !onDay dt record)

theorem onDay_stage (cases : CaseMap) (args : Args) (df : DataFrame) :
    ∀ record ∈ (stage cases args df).records, onDay args.dt record = true := by
  intro record hrecord
  exact decide_eq_true (DataFrame.lookup_setColumn _ "DT" (.text args.dt) record hrecord)

/-- A run touches one table. -/
theorem runs_other (cases : CaseMap) (args : Args) (df : DataFrame)
    (connects : List (Except PyError Unit)) (tables : Tables) {name : String}
    (hname : name ≠ upper cases args.table) :
    runs cases args df connects tables name = tables name := by
  induction connects generalizing tables with
  | nil => rfl
  | cons connect rest ih =>
      refine (ih _).trans ?_
      rcases connect with err | ⟨⟩
      · rfl
      · exact Function.update_of_ne hname _ _

/-- Every run that connects adds the staged rows once more. -/
theorem runs_table (cases : CaseMap) (args : Args) (df : DataFrame)
    (connects : List (Except PyError Unit)) (tables : Tables) :
    runs cases args df connects tables (upper cases args.table) =
      tables (upper cases args.table) ++
        (List.replicate (loads connects) (stage cases args df).records).flatten := by
  induction connects generalizing tables with
  | nil => simp [runs, loads]
  | cons connect rest ih =>
      refine (ih _).trans ?_
      rcases connect with err | ⟨⟩
      · rfl
      · have hloads : loads (.ok () :: rest) = loads rest + 1 := by simp [loads, Except.toBool]
        rw [hloads, List.replicate_succ, List.flatten_cons, ← List.append_assoc]
        simp only [main, writePandas, Function.update_self]

theorem length_stage (cases : CaseMap) (args : Args) (df : DataFrame) :
    (stage cases args df).records.length = df.rows.length := by
  have hset : ∀ (df : DataFrame) (name : String) (value : Cell),
      (df.setColumn name value).rows.length = df.rows.length := by
    intro df name value
    unfold DataFrame.setColumn
    split_ifs <;> simp
  unfold stage
  dsimp only
  rw [DataFrame.records, List.length_map, hset]
  split_ifs <;> rfl

/-- Copies of some rows behind others make up those rows once: there is one copy
and nothing else, or none and the rows are there already. -/
theorem append_copies_perm_iff {α : Type} (held rows : List α) (copies : ℕ) :
    (held ++ (List.replicate copies rows).flatten).Perm rows ↔
      (held = [] ∧ (copies = 1 ∨ rows = [])) ∨ (copies = 0 ∧ held.Perm rows) := by
  cases copies with
  | zero =>
      simp only [List.replicate_zero, List.flatten_nil, List.append_nil, true_and]
      constructor
      · exact Or.inr
      · rintro (⟨rfl, hone | rfl⟩ | hperm)
        · cases hone
        · exact List.Perm.refl []
        · exact hperm
  | succ more =>
      constructor
      · -- the rows that are there once are all there is room for
        intro hperm
        have hlength : held.length + (more * rows.length + rows.length) = rows.length := by
          rw [← Nat.succ_mul]
          simpa only [List.length_append, List.length_flatten, List.map_replicate,
            List.sum_replicate, smul_eq_mul] using hperm.length_eq
        have hheld : held.length = 0 := by omega
        have hmore : more * rows.length = 0 := by omega
        refine Or.inl ⟨List.length_eq_zero_iff.mp hheld, ?_⟩
        rcases Nat.mul_eq_zero.mp hmore with rfl | hrows
        · exact Or.inl rfl
        · exact Or.inr (List.length_eq_zero_iff.mp hrows)
      · rintro (⟨rfl, hone | rfl⟩ | ⟨hzero, _⟩)
        · obtain rfl : more = 0 := by omega
          simp
        · simp
        · omega

/-- Loading is idempotent exactly where there is nothing to add up: the first
load into an empty partition, any number of loads of an empty Parquet into one,
or no load at all where the rows are already there. -/
theorem runs_loadedOnce_iff (cases : CaseMap) (args : Args) (df : DataFrame)
    (connects : List (Except PyError Unit)) (tables : Tables) :
    let before := tables (upper cases args.table)
    let staged := (stage cases args df).records
    LoadedOnce args.dt staged before
        (runs cases args df connects tables (upper cases args.table)) ↔
      (before.filter (onDay args.dt) = [] ∧ (loads connects = 1 ∨ df.rows = [])) ∨
        (loads connects = 0 ∧ (before.filter (onDay args.dt)).Perm staged) := by
  intro before staged
  have hday := onDay_stage cases args df
  have hall : ∀ record ∈ (List.replicate (loads connects) staged).flatten,
      onDay args.dt record = true := by
    intro record hrecord
    obtain ⟨copy, hcopy, hmem⟩ := List.mem_flatten.mp hrecord
    obtain rfl := List.eq_of_mem_replicate hcopy
    exact hday record hmem
  have hmine := List.filter_eq_self.mpr hall
  have hothers : (List.replicate (loads connects) staged).flatten.filter
      (fun record => !onDay args.dt record) = [] := by
    apply List.filter_eq_nil_iff.mpr
    intro record hrecord
    simp [hall record hrecord]
  have hempty : df.rows = [] ↔ staged = [] := by
    rw [← List.length_eq_zero_iff, ← length_stage cases args df, List.length_eq_zero_iff]
  unfold LoadedOnce
  rw [runs_table, List.filter_append, List.filter_append, hmine, hothers, List.append_nil, hempty]
  rw [and_iff_left rfl]
  exact append_copies_perm_iff (before.filter (onDay args.dt)) staged (loads connects)

/-- The anomaly that the Parquet of a day may hold. -/
def oneAnomaly : DataFrame where
  columns := ["symbol", "score"]
  rows := [[.text "ACME", .number (98 / 100)]]
  shape := by simp

/-- A retry after a run whose write went through leaves every row twice. -/
theorem not_loadedOnce_retry :
    ¬ LoadedOnce "2026-07-21" (stage .asciiOnly ⟨"2026-07-21", "ANOMALIES"⟩ oneAnomaly).records []
      (runs .asciiOnly ⟨"2026-07-21", "ANOMALIES"⟩ oneAnomaly [.ok (), .ok ()] (fun _ => [])
        (upper .asciiOnly "ANOMALIES")) := by
  unfold LoadedOnce
  decide +kernel

end LoadSnowflake

end TradeWatch
