import TradeWatch.Isolation

/-!
When the multivariate detector trains. For each symbol it counts the feature
rows it could compute: the first fit comes with row `trainSize` and one more
with every `retrainEvery` rows after it, each on the last `trainSize` rows. The
counter also runs before the first fit, but nothing asks it then.
-/

namespace TradeWatch

open PyFloat Transducer

/-- Rows since the last fit, after row `n`. -/
def rowsSinceFit (first period n : ℕ) : ℕ := (n - first) % period

/-- A row either starts the count again, as it does on schedule, or is one more. -/
theorem rowsSinceFit_succ {first period n : ℕ} (hperiod : 0 < period) (hn : first ≤ n) :
    (period ∣ n + 1 - first ↔ period ≤ rowsSinceFit first period n + 1) ∧
      rowsSinceFit first period (n + 1) =
        if period ≤ rowsSinceFit first period n + 1 then 0
        else rowsSinceFit first period n + 1 := by
  have hshift : n + 1 - first = n - first + 1 := by omega
  have hlt : (n - first) % period < period := Nat.mod_lt _ hperiod
  have hsplit : (n - first + 1) % period = ((n - first) % period + 1) % period :=
    (Nat.mod_add_mod (n - first) period 1).symm
  unfold rowsSinceFit
  rw [hshift, Nat.dvd_iff_mod_eq_zero, hsplit]
  rcases Nat.lt_or_ge ((n - first) % period + 1) period with hwithin | hfull
  · rw [Nat.mod_eq_of_lt hwithin, if_neg (by omega)]
    refine ⟨?_, rfl⟩
    omega
  · have hwhole : (n - first) % period + 1 = period := by omega
    rw [hwhole, Nat.mod_self]
    simp

namespace IsolationForestDetector

variable {F M : Type} [PyFloat F]

def step (d : IsolationForestDetector F M) (input : Trade F × SymbolWindow F) :
    Except PyError (Option (Alert F)) × IsolationForestDetector F M :=
  d.inspect input.1 input.2

/-- The feature row of a trade, where one is computed. -/
def featureRow (d : IsolationForestDetector F M) (input : Trade F × SymbolWindow F) :
    Option (List F) :=
  if !d.available then none
  else
    match d.features input.1 input.2 with
    | .ok (some row) => some row
    | _ => none

/-- The feature rows of a symbol, in order. -/
def rowsOf (d : IsolationForestDetector F M) (symbol : String)
    (inputs : List (Trade F × SymbolWindow F)) : List (List F) :=
  inputs.filterMap fun input => if input.1.symbol = symbol then d.featureRow input else none

/-- The rows that `maybeFit` fits a model on, when it does. -/
def dueRows (d : IsolationForestDetector F M) (symbol : String) : Option (List (List F)) :=
  let rows := (d.buffers.get? symbol).getD []
  if rows.length < d.cfg.trainSize then none
  else if !d.models.contains symbol ∨ d.cfg.retrainEvery ≤ Counter.count d.sinceFit symbol then
    some rows
  else none

theorem maybeFit_eq (d : IsolationForestDetector F M) (symbol : String) :
    d.maybeFit symbol =
      match d.dueRows symbol with
      | none => (.ok (d.models.get? symbol), d)
      | some rows =>
          match d.sklearn.fit d.cfg.contamination rows with
          | .error err => (.error err, d)
          | .ok model =>
              (.ok (some model),
                { d with
                  models := d.models.set symbol model
                  sinceFit := d.sinceFit.set symbol 0 }) := by
  unfold maybeFit dueRows
  dsimp only
  split_ifs <;> rfl

/-- The detector once the row of a trade is in its buffer. -/
def remembering (d : IsolationForestDetector F M) (symbol : String) (row : List F) :
    IsolationForestDetector F M :=
  d.remember symbol ((d.buffers.get? symbol).getD []) row

/-- The rows that a model is fitted on when a trade comes in, if one is. -/
def fittedOn (d : IsolationForestDetector F M) (input : Trade F × SymbolWindow F) :
    Option (List (List F)) :=
  (d.featureRow input).bind fun row => (d.remembering input.1.symbol row).dueRows input.1.symbol

/-- The fit that a trade calls for, if it does, does not raise. -/
def FitSucceeds (d : IsolationForestDetector F M) (input : Trade F × SymbolWindow F) : Prop :=
  ∀ rows, d.fittedOn input = some rows →
    ∃ model, d.sklearn.fit d.cfg.contamination rows = .ok model

/-- What a detector is built with. -/
structure SameSettings (d d' : IsolationForestDetector F M) : Prop where
  sklearn : d.sklearn = d'.sklearn
  cfg : d.cfg = d'.cfg
  minTrades : d.minTrades = d'.minTrades

theorem SameSettings.featureRow {d d' : IsolationForestDetector F M} (h : SameSettings d d')
    (input : Trade F × SymbolWindow F) : d.featureRow input = d'.featureRow input := by
  have havailable : d.available = d'.available := by
    simp only [available, h.sklearn, h.cfg]
  have hfeatures : d.features input.1 input.2 = d'.features input.1 input.2 := by
    simp only [features, h.minTrades]
  unfold IsolationForestDetector.featureRow
  rw [havailable, hfeatures]

theorem SameSettings.judge {d d' : IsolationForestDetector F M} (h : SameSettings d d') (model : M)
    (row : List F) (trade : Trade F) : d.judge model row trade = d'.judge model row trade := by
  simp only [IsolationForestDetector.judge, h.sklearn, h.cfg]

section Step

variable {d : IsolationForestDetector F M} {input : Trade F × SymbolWindow F}

/-- Without a feature row nothing changes and nothing is reported. -/
theorem step_of_no_row (h : d.featureRow input = none) :
    (d.step input).2 = d ∧ ∀ alert, (d.step input).1 ≠ .ok (some alert) := by
  obtain ⟨trade, window⟩ := input
  unfold featureRow at h
  unfold step inspect
  split_ifs at h ⊢ with hoff
  · exact ⟨rfl, by simp⟩
  · rcases hfeatures : d.features trade window with err | _ | row
    · exact ⟨rfl, by simp⟩
    · exact ⟨rfl, by simp⟩
    · simp [hfeatures] at h

/-- A feature row is remembered, then the model is asked for and used. -/
theorem step_of_row (hsize : 0 ≤ d.cfg.trainSize) {row : List F}
    (h : d.featureRow input = some row) :
    d.step input =
      match (d.remembering input.1.symbol row).maybeFit input.1.symbol with
      | (.error err, next) => (.error err, next)
      | (.ok none, next) => (.ok none, next)
      | (.ok (some model), next) => (next.judge model row input.1, next) := by
  obtain ⟨trade, window⟩ := input
  have hbuffer : d.buffer trade.symbol = .ok ((d.buffers.get? trade.symbol).getD []) := by
    unfold buffer
    cases d.buffers.get? trade.symbol with
    | some rows => rfl
    | none => simp [not_lt.mpr hsize]
  unfold featureRow at h
  unfold step inspect
  split_ifs at h ⊢ with hoff
  rcases hfeatures : d.features trade window with err | _ | found
  · simp [hfeatures] at h
  · simp [hfeatures] at h
  · obtain rfl : found = row := by simpa [hfeatures] using h
    simp only [hbuffer]
    rfl

end Step

/-- What the detector holds for a symbol whose feature rows so far are `rows`: the
last `first` of them, how many came since the last fit, and the model of that fit,
if there was one. -/
structure OnSchedule (first period : ℕ) (d : IsolationForestDetector F M) (symbol : String)
    (rows : List (List F)) : Prop where
  buffer : (d.buffers.get? symbol).getD [] = rows.rtake first
  since : Counter.count d.sinceFit symbol =
    if rows.length < first then rows.length else rowsSinceFit first period rows.length
  early : rows.length < first → d.models.get? symbol = none
  fitted : first ≤ rows.length → ∃ model, d.models.get? symbol = some model ∧
    d.sklearn.fit d.cfg.contamination
      ((rows.take (rows.length - rowsSinceFit first period rows.length)).rtake first) = .ok model

theorem onSchedule_init (sklearn : SkLearn F M) (cfg : IsolationForestConfig F) (minTrades : ℤ)
    {first period : ℕ} (hfirst : 0 < first) (symbol : String) :
    OnSchedule first period (init sklearn cfg minTrades) symbol [] where
  buffer := by simp [init]
  since := by simp [init, hfirst, Counter.count]
  early _ := rfl
  fitted h := absurd h (by simpa using hfirst.ne')

/-- What a detector forgets or learns of other symbols is no matter. -/
theorem OnSchedule.of_sameFor {first period : ℕ} {d d' : IsolationForestDetector F M}
    {symbol : String} {rows : List (List F)} (hsame : SameFor symbol d d')
    (h : OnSchedule first period d' symbol rows) : OnSchedule first period d symbol rows where
  buffer := by rw [hsame.buffer, h.buffer]
  since := by rw [Counter.count, hsame.since, ← h.since, Counter.count]
  early hfew := by rw [hsame.model, h.early hfew]
  fitted henough := by
    rw [hsame.model, hsame.sklearn, hsame.cfg]
    exact h.fitted henough

section Schedule

variable {first period : ℕ} {d : IsolationForestDetector F M} {symbol : String}
  {rows : List (List F)}

theorem OnSchedule.buffer_remembering (hsize : d.cfg.trainSize = first)
    (h : OnSchedule first period d symbol rows) (row : List F) :
    ((d.remembering symbol row).buffers.get? symbol).getD [] = (rows ++ [row]).rtake first := by
  simp [remembering, remember, h.buffer, hsize, Suffix.rtake_append_rtake]

/-- A fit is due with row `first` and with every `period` rows after it. -/
theorem OnSchedule.dueRows_remembering (hperiod : 0 < period)
    (hsize : d.cfg.trainSize = first) (hevery : d.cfg.retrainEvery = period)
    (h : OnSchedule first period d symbol rows) (row : List F) :
    (d.remembering symbol row).dueRows symbol =
      if first ≤ rows.length + 1 ∧ period ∣ rows.length + 1 - first then
        some ((rows ++ [row]).rtake first)
      else none := by
  have hheld := h.buffer_remembering hsize row
  have hsince : Counter.count (d.remembering symbol row).sinceFit symbol =
      Counter.count d.sinceFit symbol + 1 := Counter.count_incr_self _ _
  have hmodels : (d.remembering symbol row).models = d.models := rfl
  have hcfg : (d.remembering symbol row).cfg = d.cfg := rfl
  have hlength : ((rows ++ [row]).rtake first).length = min first (rows.length + 1) := by
    simp [Suffix.length_rtake]
  unfold dueRows
  dsimp only
  rw [hheld, hsince, hmodels, hcfg, hsize, hevery, hlength, h.since]
  rcases Nat.lt_trichotomy (rows.length + 1) first with hfew | hexact | hmany
  · -- not enough rows for a first fit
    rw [if_pos (by omega), if_neg (by omega)]
  · -- the first fit: there is no model yet
    have hnone : d.models.contains symbol = false := by
      simp [OrderedDict.contains, h.early (by omega)]
    rw [if_neg (by omega), if_pos (Or.inl (by simp [hnone])), if_pos ⟨by omega, by simp [hexact]⟩]
  · -- there is a model, so the counter decides
    obtain ⟨model, hmodel, _⟩ := h.fitted (by omega)
    have hsome : d.models.contains symbol = true := by simp [OrderedDict.contains, hmodel]
    obtain ⟨hdue, _⟩ := rowsSinceFit_succ hperiod (show first ≤ rows.length by omega)
    rw [if_neg (by omega), if_neg (show ¬ rows.length < first by omega)]
    by_cases hfull : period ≤ rowsSinceFit first period rows.length + 1
    · rw [if_pos (Or.inr (by exact_mod_cast hfull)), if_pos ⟨by omega, hdue.mpr hfull⟩]
    · rw [if_neg, if_neg (fun hgoal => hfull (hdue.mp hgoal.2))]
      rintro (hmissing | hreached)
      · simp [hsome] at hmissing
      · exact hfull (by exact_mod_cast hreached)

/-- What comes of a row: the model that judges it, and a detector that is still on
schedule. -/
theorem OnSchedule.maybeFit_remembering (hperiod : 0 < period)
    (hsize : d.cfg.trainSize = first) (hevery : d.cfg.retrainEvery = period)
    (h : OnSchedule first period d symbol rows) (row : List F)
    (hfit : ∀ due, (d.remembering symbol row).dueRows symbol = some due →
      ∃ model, d.sklearn.fit d.cfg.contamination due = .ok model) :
    ∃ next, (d.remembering symbol row).maybeFit symbol = (.ok (next.models.get? symbol), next) ∧
      SameSettings next d ∧ OnSchedule first period next symbol (rows ++ [row]) := by
  have hdue := h.dueRows_remembering hperiod hsize hevery row
  have hheld := h.buffer_remembering hsize row
  have hlength : (rows ++ [row]).length = rows.length + 1 := by simp
  rw [maybeFit_eq, hdue]
  split_ifs with hnow
  · obtain ⟨henough, hdivides⟩ := hnow
    have hzero : rowsSinceFit first period (rows.length + 1) = 0 :=
      Nat.mod_eq_zero_of_dvd hdivides
    obtain ⟨model, hmodel⟩ := hfit _ (by rw [hdue, if_pos ⟨henough, hdivides⟩])
    have hsame : (d.remembering symbol row).sklearn.fit (d.remembering symbol row).cfg.contamination
        ((rows ++ [row]).rtake first) = .ok model := hmodel
    simp only [hsame]
    let next := { d.remembering symbol row with
      models := (d.remembering symbol row).models.set symbol model
      sinceFit := (d.remembering symbol row).sinceFit.set symbol 0 }
    have hnext : next.models.get? symbol = some model := OrderedDict.get?_set_self _ _ _
    refine ⟨next, by rw [hnext], ⟨rfl, rfl, rfl⟩, hheld, ?_, ?_, ?_⟩
    · rw [hlength, if_neg (by omega), hzero]
      simp [Counter.count, next]
    · intro hfew
      omega
    · intro _
      refine ⟨model, hnext, ?_⟩
      rw [hlength, hzero, Nat.sub_zero, ← hlength, List.take_length]
      exact hmodel
  · -- past the first fit, or before it, but not at a row that is due
    have hstarted : first ≤ rows.length + 1 → first ≤ rows.length := by
      intro henough
      by_contra hfew
      exact hnow ⟨henough, by simp [show rows.length + 1 = first by omega]⟩
    have hgap : first ≤ rows.length + 1 → rowsSinceFit first period (rows.length + 1) =
        rowsSinceFit first period rows.length + 1 := by
      intro henough
      obtain ⟨hiff, hsucc⟩ := rowsSinceFit_succ hperiod (hstarted henough)
      rw [hsucc, if_neg (fun hreached => hnow ⟨henough, hiff.mpr hreached⟩)]
    refine ⟨_, rfl, ⟨rfl, rfl, rfl⟩, hheld, ?_, ?_, ?_⟩
    · have hcount : Counter.count (d.remembering symbol row).sinceFit symbol =
          Counter.count d.sinceFit symbol + 1 := Counter.count_incr_self _ _
      rw [hcount, h.since, hlength]
      rcases Nat.lt_or_ge (rows.length + 1) first with hfew | hmany
      · rw [if_pos (by omega), if_pos hfew]
      · rw [if_neg (by have := hstarted hmany; omega), if_neg (by omega)]
        exact (hgap hmany).symm
    · intro hfew
      exact h.early (by omega)
    · intro henough
      rw [hlength] at henough
      obtain ⟨model, hmodel, hfitted⟩ := h.fitted (hstarted henough)
      refine ⟨model, hmodel, ?_⟩
      rw [hlength, hgap henough, Nat.add_sub_add_right,
        List.take_append_of_le_length (Nat.sub_le _ _)]
      exact hfitted

end Schedule

section Run

variable {sklearn : SkLearn F M} {cfg : IsolationForestConfig F} {minTrades : ℤ}
  {first period : ℕ} (hfirst : 0 < first) (hperiod : 0 < period)
  (hsize : cfg.trainSize = first) (hevery : cfg.retrainEvery = period)
include hperiod hsize hevery

/-- One trade with a feature row, in terms of the model that the detector then has. -/
theorem step_onSchedule {d : IsolationForestDetector F M}
    (hsettings : SameSettings d (init sklearn cfg minTrades)) {rows : List (List F)}
    {input : Trade F × SymbolWindow F} (h : OnSchedule first period d input.1.symbol rows)
    (hfit : d.FitSucceeds input) {row : List F} (hrow : d.featureRow input = some row) :
    (d.step input).1 =
        (match (d.step input).2.models.get? input.1.symbol with
          | none => .ok none
          | some model => (init sklearn cfg minTrades).judge model row input.1) ∧
      SameSettings (d.step input).2 (init sklearn cfg minTrades) ∧
      OnSchedule first period (d.step input).2 input.1.symbol (rows ++ [row]) := by
  have hcfg : d.cfg = cfg := hsettings.cfg
  obtain ⟨next, hmaybe, hkept, hnext⟩ := h.maybeFit_remembering hperiod (by rw [hcfg, hsize])
    (by rw [hcfg, hevery]) row
    (fun due hdue => hfit due (by rw [fittedOn, hrow, Option.bind_some, hdue]))
  have hsame : SameSettings next (init sklearn cfg minTrades) :=
    ⟨hkept.sklearn.trans hsettings.sklearn, hkept.cfg.trans hsettings.cfg,
      hkept.minTrades.trans hsettings.minTrades⟩
  have hstep := step_of_row (d := d) (by rw [hcfg, hsize]; exact Int.natCast_nonneg first) hrow
  rw [hmaybe] at hstep
  cases hmodel : next.models.get? input.1.symbol with
  | none =>
      simp only [hmodel] at hstep
      rw [hstep]
      exact ⟨by rw [hmodel], hsame, hnext⟩
  | some model =>
      simp only [hmodel] at hstep
      rw [hstep]
      exact ⟨by rw [hmodel]; exact hsame.judge model row input.1, hsame, hnext⟩

include hfirst in
/-- After any run the detector is on schedule for every symbol. -/
theorem onSchedule_run {inputs : List (Trade F × SymbolWindow F)}
    (hfit : Along step FitSucceeds (init sklearn cfg minTrades) inputs) :
    SameSettings (final step (init sklearn cfg minTrades) inputs) (init sklearn cfg minTrades) ∧
      ∀ symbol, OnSchedule first period (final step (init sklearn cfg minTrades) inputs) symbol
        ((init sklearn cfg minTrades).rowsOf symbol inputs) := by
  induction inputs using List.reverseRecOn with
  | nil => exact ⟨⟨rfl, rfl, rfl⟩, onSchedule_init sklearn cfg minTrades hfirst⟩
  | append_singleton before input ih =>
      obtain ⟨hearlier, hnow⟩ := along_snoc step hfit
      obtain ⟨hsettings, hschedule⟩ := ih hearlier
      rw [final_append, final_cons, final_nil]
      generalize final step (init sklearn cfg minTrades) before = d at hsettings hschedule hnow
      have hrows : ∀ symbol, (init sklearn cfg minTrades).rowsOf symbol (before ++ [input]) =
          (init sklearn cfg minTrades).rowsOf symbol before ++
            (if input.1.symbol = symbol then d.featureRow input else none).toList := by
        intro symbol
        rw [rowsOf, rowsOf, List.filterMap_append, hsettings.featureRow input]
        rfl
      rcases hrow : d.featureRow input with _ | row
      · obtain ⟨hkept, _⟩ := step_of_no_row hrow
        rw [hkept]
        refine ⟨hsettings, fun symbol => ?_⟩
        rw [hrows symbol, hrow]
        simpa using hschedule symbol
      · obtain ⟨_, hsame, hnext⟩ := step_onSchedule hperiod hsize hevery hsettings
          (hschedule input.1.symbol) hnow hrow
        refine ⟨hsame, fun symbol => ?_⟩
        rw [hrows symbol, hrow]
        rcases eq_or_ne input.1.symbol symbol with rfl | hother
        · simpa using hnext
        · rw [if_neg hother, Option.toList_none, List.append_nil]
          exact (hschedule symbol).of_sameFor ((SameFor.refl symbol d).inspect_other hother)

end Run

/-- The training schedule of any run. Of each symbol's feature rows the first fit is
on row `trainSize` and one more on every `retrainEvery` rows after it, always on
the last `trainSize` rows; before there is no alert, and afterwards every row is
judged by a model fitted fewer than `retrainEvery` rows ago. A trade without a
feature row leaves the detector as it is. All that is asked is that the fits of the
run do not raise. -/
theorem training_schedule (sklearn : SkLearn F M) (cfg : IsolationForestConfig F) (minTrades : ℤ)
    (first period : ℕ) (hfirst : 0 < first) (hperiod : 0 < period)
    (hsize : cfg.trainSize = first) (hevery : cfg.retrainEvery = period)
    (before : List (Trade F × SymbolWindow F)) (input : Trade F × SymbolWindow F)
    (hfit : Along step FitSucceeds (init sklearn cfg minTrades) (before ++ [input])) :
    let start := init sklearn cfg minTrades
    let d := final step start before
    (∀ row, start.featureRow input = some row →
        let rows := start.rowsOf input.1.symbol before ++ [row]
        let n := rows.length
        (d.fittedOn input = if first ≤ n ∧ period ∣ n - first then some (rows.rtake first)
          else none) ∧
        (n < first → (d.step input).1 = .ok none) ∧
        (first ≤ n → ∃ m model, m ≤ n ∧ n < m + period ∧ first ≤ m ∧ period ∣ m - first ∧
          sklearn.fit cfg.contamination ((rows.take m).rtake first) = .ok model ∧
          (d.step input).1 = start.judge model row input.1)) ∧
      (start.featureRow input = none → d.fittedOn input = none ∧ (d.step input).2 = d ∧
        ∀ alert, (d.step input).1 ≠ .ok (some alert)) ∧
      (input.2.ready minTrades = false → start.featureRow input = none) := by
  intro start d
  obtain ⟨hsettings, hschedule⟩ : SameSettings d start ∧
      ∀ symbol, OnSchedule first period d symbol (start.rowsOf symbol before) :=
    onSchedule_run hfirst hperiod hsize hevery (along_snoc step hfit).1
  have hcfg : d.cfg = cfg := hsettings.cfg
  refine ⟨?_, ?_, ?_⟩
  · intro row hrow rows n
    rw [← hsettings.featureRow input] at hrow
    have hnow := hschedule input.1.symbol
    have hn : n = (start.rowsOf input.1.symbol before).length + 1 := by simp [n, rows]
    obtain ⟨hanswer, hkept, hnext⟩ :=
      step_onSchedule hperiod hsize hevery hsettings hnow (along_snoc step hfit).2 hrow
    refine ⟨?_, ?_, ?_⟩
    · rw [hn]
      change (d.featureRow input).bind _ = _
      rw [hrow, Option.bind_some]
      exact hnow.dueRows_remembering hperiod (by rw [hcfg, hsize]) (by rw [hcfg, hevery]) row
    · intro hfew
      have hnone := hnext.early hfew
      rw [hnone] at hanswer
      exact hanswer
    · intro henough
      obtain ⟨model, hmodel, hfitted⟩ := hnext.fitted henough
      rw [hmodel] at hanswer
      have hlearn : (d.step input).2.sklearn = sklearn := hkept.sklearn
      have hafter : (d.step input).2.cfg = cfg := hkept.cfg
      rw [hlearn, hafter] at hfitted
      have hage : rowsSinceFit first period n < period := Nat.mod_lt _ hperiod
      have hstart : rowsSinceFit first period n ≤ n - first := Nat.mod_le _ _
      have hcycle : n - rowsSinceFit first period n - first =
          n - first - (n - first) % period := by
        change n - (n - first) % period - first = _
        omega
      refine ⟨n - rowsSinceFit first period n, model, Nat.sub_le _ _, by omega, by omega, ?_,
        hfitted, hanswer⟩
      rw [hcycle]
      exact Nat.dvd_sub_mod _
  · intro hrow
    rw [← hsettings.featureRow input] at hrow
    obtain ⟨hkept, hquiet⟩ := step_of_no_row hrow
    refine ⟨?_, hkept, hquiet⟩
    change (d.featureRow input).bind _ = _
    rw [hrow]
    rfl
  · intro hready
    unfold featureRow
    split_ifs
    · rfl
    · simp [features, start, init, hready]

/-- A forest that is its own training data, and wants more than one row of it. -/
def recallForest : SkLearn ℚ (List (List ℚ)) where
  available := true
  fit _ rows := if rows.length < 2 then .error .valueError else .ok rows
  decisionFunction _ _ := .ok 0
  exp x := x

/-- Three trades at one price, each shown with the window that holds those so far. -/
def shownTrades : List (Trade ℚ × SymbolWindow ℚ) :=
  [(selfTradeAt "a" 0, ⟨"ACME", 200, 300, [selfTradeAt "a" 0]⟩),
    (selfTradeAt "b" 1, ⟨"ACME", 200, 300, [selfTradeAt "a" 0, selfTradeAt "b" 1]⟩)]

def lastShown : Trade ℚ × SymbolWindow ℚ :=
  (selfTradeAt "c" 2,
    ⟨"ACME", 200, 300, [selfTradeAt "a" 0, selfTradeAt "b" 1, selfTradeAt "c" 2]⟩)

def pairForest : IsolationForestConfig ℚ := { trainSize := 2, retrainEvery := 1 }

theorem fitSucceeds_of_isOk {d : IsolationForestDetector F M}
    {input : Trade F × SymbolWindow F}
    (h : (d.fittedOn input).all (fun rows => (d.sklearn.fit d.cfg.contamination rows).isOk)) :
    d.FitSucceeds input := by
  intro rows hrows
  rw [hrows, Option.all_some] at h
  cases hfit : d.sklearn.fit d.cfg.contamination rows with
  | error err =>
      rw [hfit] at h
      cases h
  | ok model => exact ⟨model, rfl⟩

theorem fitSucceeds_shownTrades :
    Along step FitSucceeds (init recallForest pairForest 0) (shownTrades ++ [lastShown]) := by
  refine along_cons step (fitSucceeds_of_isOk ?_) (along_cons step (fitSucceeds_of_isOk ?_)
    (along_cons step (fitSucceeds_of_isOk ?_) (along_nil _ _ _)))
  all_goals decide +kernel

/-- The third row calls for a second fit, on the second and the third row. -/
theorem training_schedule_third_row :
    (final step (init recallForest pairForest 0) shownTrades).fittedOn lastShown =
      some [[0, 0, 0, 2], [0, 0, 0, 3]] := by
  have hrow : (init recallForest pairForest 0).featureRow lastShown = some [0, 0, 0, 3] := by
    decide +kernel
  have hrows : (init recallForest pairForest 0).rowsOf lastShown.1.symbol shownTrades =
      [[0, 0, 0, 1], [0, 0, 0, 2]] := by
    decide +kernel
  have hschedule := ((training_schedule recallForest pairForest 0 2 1 Nat.two_pos Nat.one_pos rfl
    rfl shownTrades lastShown fitSucceeds_shownTrades).1 _ hrow).1
  rw [hschedule, hrows]
  rfl

end IsolationForestDetector

end TradeWatch
