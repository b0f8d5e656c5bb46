import TradeWatch.Cooldown
import TradeWatch.Episodes
import TradeWatch.Sources.Symbols

/-!
The wash trades that the simulator injects, as the evaluation finds them. Both legs are
trades of an account with itself, and on such a trade the detector answers whatever its
window holds. All that can hide one from the report is the cooldown, behind an alert of
the same kind on the same symbol.
-/

namespace TradeWatch

open PyFloat Transducer StateExcept GroupBy

namespace WashTradeDetector

variable {F : Type} [PyFloat F]

theorem selfTrade_of_accounts {trade : Trade F} {account : String} (hne : account ≠ "")
    (haccount : trade.accountId = some account) (hother : trade.counterpartyId = some account) :
    selfTrade trade = true := by
  simp [selfTrade, truthy, haccount, hother, hne]

/-- The window is not asked. -/
theorem fires_on_selfTrade (cfg : WashTradeConfig F) {trade : Trade F}
    (h : selfTrade trade = true) (window : SymbolWindow F) :
    (DetectionEngine.alertOf (inspect cfg trade window)).isSome := by
  simp [inspect, h, DetectionEngine.alertOf]

end WashTradeDetector

namespace MarketSimulator

variable {F G : Type} [PyFloat F] {env : Chance F G}

/-- No account is without a name. -/
def Named (sim : MarketSimulator F G) : Prop := ∀ account ∈ sim.accounts, account ≠ ""

omit [PyFloat F] in
theorem untimed_named : Untimed (Named : MarketSimulator F G → Prop) := fun _ _ _ hsim => hsim

theorem named_init (symbols : List String) (anomalyRate : F) (rng : G) :
    Named (init env symbols anomalyRate rng) := by
  intro account haccount
  obtain ⟨i, _, rfl⟩ := List.mem_map.mp haccount
  intro hempty
  have hlength := congrArg String.length hempty
  rw [String.length_append] at hlength
  exact absurd hlength (by simp)

/-- What is labelled a wash trade is one of an account with itself. -/
def Crossed (entry : LabeledTrade F) : Prop :=
  entry.2 = some AnomalyKind.washTrade.value → WashTradeDetector.selfTrade entry.1 = true

theorem crossed_of_label {entry : LabeledTrade F} {label : Option String} (h : entry.2 = label)
    (hne : label ≠ some AnomalyKind.washTrade.value) : Crossed entry :=
  fun hwash => absurd (h.symm.trans hwash) hne

theorem keeps_single_crossed (state : SymbolState F) (gap : F) (overrides : Overrides F)
    {label : Option String} (hne : label ≠ some AnomalyKind.washTrade.value) :
    Keeps Named (do
        let (trade, state) ← normal env state gap overrides
        return ([(trade, label)], state)) (fun result => ∀ entry ∈ result.1, Crossed entry) :=
  (keeps_normal untimed_named state gap overrides).after fun _ =>
    .pure (List.forall_mem_singleton.mpr (crossed_of_label rfl hne))

theorem keeps_burst_crossed {label : String} (hne : label ≠ AnomalyKind.washTrade.value)
    (overrides : Overrides F) (n : ℕ) (state : SymbolState F) :
    Keeps Named (burst env label overrides n state)
      (fun result => ∀ entry ∈ result.1, Crossed entry) := by
  have hlabels := (keeps_burst untimed_named label overrides n state).and_returns
    (burst_returns env label overrides n state)
  refine hlabels.mono ?_
  rintro result ⟨_, _, hlabel⟩ entry hentry
  exact crossed_of_label (hlabel entry hentry) (fun h => hne (Option.some.inj h))

theorem keeps_anomalous_crossed (state : SymbolState F) :
    Keeps Named (anomalous env state) (fun result => ∀ entry ∈ result.1, Crossed entry) := by
  unfold anomalous
  refine (keeps_choice untimed_named.unseeded anomalyKinds).after fun kind => ?_
  cases kind with
  | priceSpike =>
      refine (keeps_choice untimed_named.unseeded _).after fun direction => ?_
      refine (keeps_draw untimed_named.unseeded _).after fun move => ?_
      refine (keeps_normalGap untimed_named.unseeded).after fun gap => ?_
      exact keeps_single_crossed _ gap _ (by decide)
  | volumeSpike =>
      refine (keeps_draw untimed_named.unseeded _).after fun factor => ?_
      refine (keeps_normalGap untimed_named.unseeded).after fun gap => ?_
      exact keeps_single_crossed state gap _ (by decide)
  | velocityBurst =>
      refine (keeps_draw untimed_named.unseeded _).after fun n => ?_
      exact keeps_burst_crossed (by decide) _ n.val state
  | spoofing =>
      refine (keeps_choice untimed_named.unseeded _).after fun side => ?_
      refine (keeps_draw untimed_named.unseeded _).after fun n => ?_
      exact keeps_burst_crossed (by decide) _ n.val state
  | washTrade =>
      refine Keeps.get.bind fun sim hsim => ?_
      refine (keeps_choice untimed_named.unseeded sim.accounts).bind fun account haccount => ?_
      refine (keeps_drawSize untimed_named.unseeded state).after fun qty => ?_
      refine (keeps_normalGap untimed_named.unseeded).after fun gap => ?_
      refine (keeps_normal untimed_named state gap _).bind ?_
      rintro ⟨buy, state'⟩ hbuy
      refine (keeps_normal untimed_named state' burstInterval _).bind ?_
      rintro ⟨sell, state''⟩ hsell
      have hnamed : account ≠ "" := hsim account haccount
      refine .pure (List.forall_mem_cons.mpr ⟨?_, List.forall_mem_singleton.mpr ?_⟩)
      · exact fun _ => WashTradeDetector.selfTrade_of_accounts hnamed
          (hbuy.accountId account rfl) (hbuy.counterpartyId account rfl)
      · exact fun _ => WashTradeDetector.selfTrade_of_accounts hnamed
          (hsell.accountId account rfl) (hsell.counterpartyId account rfl)

theorem keeps_nextBatch_crossed :
    Keeps Named (nextBatch env) (fun batch => ∀ entry ∈ batch, Crossed entry) := by
  unfold nextBatch
  refine Keeps.get.after fun sim => ?_
  refine (keeps_choice untimed_named.unseeded sim.states.keys).after fun symbol => ?_
  cases hget : sim.states.get? symbol with
  | none => exact .throw _ _
  | some state =>
      refine (keeps_draw untimed_named.unseeded _).after fun x => ?_
      refine Keeps.bind (.ite (keeps_anomalous_crossed state) ?_) ?_
      · exact (keeps_normalGap untimed_named.unseeded).after fun gap =>
          keeps_single_crossed state gap {} (by decide)
      · rintro ⟨batch, state'⟩ hbatch
        exact Keeps.after (Keeps.update fun _ hsim => hsim) fun _ => .pure hbatch

/-- The wash trades on a tape of a new simulator are trades of an account with itself. -/
theorem labeledBatch_crossed {symbols : List String} {anomalyRate : F} {rng : G} {count : ℤ}
    {tape : List (LabeledTrade F)} {sim : MarketSimulator F G}
    (h : labeledBatch env count (init env symbols anomalyRate rng) = .ok (tape, sim)) :
    ∀ entry ∈ tape, Crossed entry :=
  (keeps_tape keeps_nextBatch_crossed count _ _ (named_init symbols anomalyRate rng) h).2

end MarketSimulator

namespace DetectionEngine

variable {F M : Type} [PyFloat F] (sklearn : SkLearn F M) (cfg : DetectionConfig F)

/-- An answer of a detector becomes an alert unless an alert of its own is recent. -/
theorem alerted_or_recent (before : List (Trade F)) (trade : Trade F) {name : String}
    {alert : Alert F} (hanswer : (name, .ok (some alert)) ∈
      ((final watch (init sklearn cfg) before).watch trade).1.answers) :
    ((final watch (init sklearn cfg) before).watch trade).1.alerts ≠ [] ∨
      0 < cfg.alertCooldownSeconds ∧
        ∃ entry ∈ emissions (trace watch (init sklearn cfg) before) trade.symbol name,
          trade.timestamp - cfg.alertCooldownSeconds < eventTime entry := by
  let start := init sklearn cfg
  have hnames : start.names.Nodup := init_names_nodup sklearn cfg
  have hlater : (final watch start before).names.Nodup := by rwa [start.final_names before]
  rcases returned_or_cooling (final watch start before) trade hlater hanswer with hout | hwithin
  · exact Or.inl (List.ne_nil_of_mem hout)
  · obtain ⟨hpos, last, hlast, hlt⟩ := (withinCooldown_iff _ _ _ _).mp hwithin
    have hcooldown : (final watch start before).cooldown = max 0 cfg.alertCooldownSeconds :=
      start.final_cooldown before
    rw [hcooldown] at hpos hlt
    have hon : 0 < cfg.alertCooldownSeconds := (lt_max_iff.mp hpos).resolve_left (lt_irrefl 0)
    rw [max_eq_right hon.le] at hlt
    obtain ⟨entry, hentry, rfl⟩ := start.last_is_emission hnames rfl before hlast
    exact Or.inr ⟨hon, entry, hentry, by linarith⟩

/-- A trade of an account with itself raises an alert unless one of its kind is recent. -/
theorem selfTrade_alerted (henabled : cfg.washTrade.enabled = true)
    (hmax : 0 ≤ cfg.window.maxTrades) (before : List (Trade F)) {trade : Trade F}
    (hself : WashTradeDetector.selfTrade trade = true) :
    ((final watch (init sklearn cfg) before).watch trade).1.alerts ≠ [] ∨
      0 < cfg.alertCooldownSeconds ∧
        ∃ entry ∈ emissions (trace watch (init sklearn cfg) before) trade.symbol
            WashTradeDetector.name,
          trade.timestamp - cfg.alertCooldownSeconds < eventTime entry := by
  have hbuilt : ShippedDetector.washTrade cfg.washTrade ∈ (init sklearn cfg).detectors := by
    simp [init, DetectionEngine.start, buildDetectors, henabled]
  obtain ⟨alert, hanswer⟩ := (fires_iff_of_stateless sklearn cfg (fun _ _ => rfl) hbuilt hmax
    before trade).mpr (WashTradeDetector.fires_on_selfTrade _ hself _)
  exact alerted_or_recent sklearn cfg before trade hanswer

end DetectionEngine

section Records

variable {D F : Type} [PyFloat F] [Detector D F]

open DetectionEngine

/-- The record of a trade says whether the engine, after the trades before it, alerts. -/
theorem recordTape_getElem? {e e' : DetectionEngine D F} {before after : List (LabeledTrade F)}
    {trade : Trade F} {label : Option String} {records : List EvalRecord}
    (h : recordTape e (before ++ (trade, label) :: after) = .ok (records, e')) :
    records[before.length]? = some (label,
      !((final watch e (before.map Prod.fst)).watch trade).1.alerts.isEmpty) := by
  induction before generalizing e records with
  | nil =>
      rw [List.nil_append, recordTape] at h
      rcases hprocess : e.process trade with ⟨err | alerts, next⟩
      · rw [hprocess] at h
        cases h
      · rw [hprocess] at h
        obtain ⟨⟨others, last⟩, _, hrecords⟩ := exists_of_bind_eq_ok h
        cases hrecords
        simp [watch, Observation.alerts, hprocess]
  | cons first rest ih =>
      obtain ⟨earlier, other⟩ := first
      rw [List.cons_append, recordTape] at h
      rcases hprocess : e.process earlier with ⟨err | alerts, next⟩
      · rw [hprocess] at h
        cases h
      · rw [hprocess] at h
        obtain ⟨⟨others, last⟩, hrest, hrecords⟩ := exists_of_bind_eq_ok h
        cases hrecords
        have hnext : (e.watch earlier).2 = next := congrArg Prod.snd hprocess
        rw [List.map_cons, final_cons, hnext]
        exact ih hrest

/-- A negative bound of the windows makes the first call raise. -/
theorem maxTrades_nonneg_of_recordTape {M : Type} {sklearn : SkLearn F M}
    {cfg : DetectionConfig F} {tape : List (LabeledTrade F)} {records : List EvalRecord}
    {e' : DetectionEngine (ShippedDetector F M) F} (hne : tape ≠ [])
    (h : recordTape (init sklearn cfg) tape = .ok (records, e')) : 0 ≤ cfg.window.maxTrades := by
  obtain ⟨⟨trade, label⟩, rest, rfl⟩ := List.exists_cons_of_ne_nil hne
  by_contra hneg
  have hadd : (((init sklearn cfg).windows.window trade.symbol).add trade).1 =
      .error .indexError := by
    rw [SymbolWindow.add_of_neg (not_le.mp hneg) rfl]
  rw [recordTape, process_of_error _ trade hadd] at h
  cases h

/-- Where every record of a label is flagged the label has full recall. -/
theorem score_full_recall {records : List EvalRecord} {label : String}
    (h : ∀ flag, (some label, flag) ∈ records → flag = true) {hit total : ℕ}
    (hcounts : (score records).perLabelRecall.get? label = some (hit, total)) : hit = total := by
  have hfound : ∀ episode ∈ episodes records, episode.1 = label → episode.detected = true := by
    rintro ⟨kind, flags⟩ hepisode rfl
    obtain ⟨⟨key, values⟩, hgroup, heq⟩ := List.mem_filterMap.mp hepisode
    obtain ⟨_, rfl, hpair⟩ := Option.map_eq_some_iff.mp heq
    cases hpair
    have hruns := runs_maximal records
    obtain ⟨flag, hflag⟩ := List.exists_mem_of_ne_nil _ (hruns.nonempty _ hgroup)
    have hrecord : (some kind, flag) ∈ records := by
      rw [← hruns.cover]
      exact List.mem_flatMap.mpr ⟨_, hgroup, List.mem_map_of_mem hflag⟩
    exact List.any_eq_true.mpr ⟨flag, hflag, h flag hrecord⟩
  have hsame : (episodes records).countP (fun episode => episode.1 = label && episode.detected) =
      (episodes records).countP (fun episode => episode.1 = label) := by
    refine List.countP_congr fun episode hepisode => ?_
    have hdetected := hfound episode hepisode
    simp only [Bool.and_eq_true, decide_eq_true_eq]
    exact ⟨And.left, fun hlabel => ⟨hlabel, hdetected hlabel⟩⟩
  rw [score_eq, reportOf, get?_foldl_countLabel, hsame] at hcounts
  split at hcounts
  · cases hcounts
    rfl
  · cases hcounts

end Records

section Evaluate

variable {F G M : Type} [PyFloat F]

open DetectionEngine MarketSimulator

/-- Whatever the generator draws, an injected wash trade that the evaluation does not
find flagged follows, by less than the cooldown, an alert of its kind on its symbol. With
the cooldown off the report shows full recall of wash trades. -/
theorem injected_wash_trades_found (env : Chance F G) (sklearn : SkLearn F M)
    (config : DetectionConfig F) (trades : ℤ) (anomalyRate : F) (rng : G)
    (symbols : Option (List String)) (henabled : config.washTrade.enabled = true)
    {report : EvalReport}
    (hreport : evaluate env sklearn config trades anomalyRate rng symbols = .ok report) :
    ∃ tape records sim,
      labeledBatch env trades (MarketSimulator.init env (evalSymbols symbols) anomalyRate rng) =
          .ok (tape, sim) ∧
        report = score records ∧ records.map Prod.fst = tape.map Prod.snd ∧
        (∀ before trade after,
          tape = before ++ (trade, some AnomalyKind.washTrade.value) :: after →
            records[before.length]? = some (some AnomalyKind.washTrade.value, true) ∨
              ∃ entry ∈ emissions
                  (trace watch (DetectionEngine.init sklearn config) (before.map Prod.fst))
                  trade.symbol WashTradeDetector.name,
                trade.timestamp - config.alertCooldownSeconds < eventTime entry) ∧
        (config.alertCooldownSeconds ≤ 0 → ∀ hit total,
          report.perLabelRecall.get? AnomalyKind.washTrade.value = some (hit, total) →
            hit = total) := by
  unfold evaluate at hreport
  obtain ⟨⟨tape, sim⟩, htape, hreport⟩ := exists_of_bind_eq_ok hreport
  obtain ⟨⟨records, last⟩, hrecords, hreport⟩ := exists_of_bind_eq_ok hreport
  obtain rfl : score records = report := Except.ok.inj hreport
  have hlabels := recordTape_labels hrecords
  have hfound : ∀ before trade after,
      tape = before ++ (trade, some AnomalyKind.washTrade.value) :: after →
        records[before.length]? = some (some AnomalyKind.washTrade.value, true) ∨
          0 < config.alertCooldownSeconds ∧ ∃ entry ∈ emissions
              (trace watch (DetectionEngine.init sklearn config) (before.map Prod.fst))
              trade.symbol WashTradeDetector.name,
            trade.timestamp - config.alertCooldownSeconds < eventTime entry := by
    rintro before trade after rfl
    have hself := labeledBatch_crossed htape (trade, some AnomalyKind.washTrade.value)
      (by simp) rfl
    have hmax := maxTrades_nonneg_of_recordTape (by simp) hrecords
    rcases selfTrade_alerted sklearn config henabled hmax (before.map Prod.fst) hself with
      halerted | hrecent
    · left
      rw [recordTape_getElem? hrecords]
      simp [halerted]
    · exact Or.inr hrecent
  refine ⟨tape, records, sim, htape, rfl, hlabels, ?_, ?_⟩
  · intro before trade after hsplit
    exact (hfound before trade after hsplit).imp_right And.right
  · intro hoff hit total hcounts
    refine score_full_recall ?_ hcounts
    intro flag hrecord
    obtain ⟨i, hi⟩ := List.mem_iff_getElem?.mp hrecord
    -- the tape has the label where the records have it
    have hlabel : (tape.map Prod.snd)[i]? = some (some AnomalyKind.washTrade.value) := by
      rw [← hlabels, List.getElem?_map, hi]
      rfl
    rw [List.getElem?_map] at hlabel
    obtain ⟨⟨trade, label⟩, hentry, hsame⟩ := Option.map_eq_some_iff.mp hlabel
    obtain rfl : label = some AnomalyKind.washTrade.value := hsame
    obtain ⟨hlt, hat⟩ := List.getElem?_eq_some_iff.mp hentry
    have hsplit : tape =
        tape.take i ++ (trade, some AnomalyKind.washTrade.value) :: tape.drop (i + 1) := by
      rw [← hat, ← List.drop_eq_getElem_cons hlt, List.take_append_drop]
    have hbefore : (tape.take i).length = i := List.length_take_of_le hlt.le
    rcases hfound _ _ _ hsplit with hflag | ⟨hon, _⟩
    · rw [hbefore, hi] at hflag
      exact congrArg Prod.snd (Option.some.inj hflag)
    · exact absurd hon (not_lt.mpr hoff)

/-- One injected pair, with the cooldown off. -/
theorem injected_wash_trades_found_one_pair :
    ∃ report hit total,
      evaluate lastChance SkLearn.missing { alertCooldownSeconds := 0 } 2 1 () (some ["ACME"]) =
          .ok report ∧
        report.perLabelRecall.get? AnomalyKind.washTrade.value = some (hit, total) ∧
        total = 1 ∧ hit = total := by
  have hcounts : (evaluate lastChance SkLearn.missing { alertCooldownSeconds := 0 } 2 1 ()
      (some ["ACME"])).map (·.perLabelRecall.get? AnomalyKind.washTrade.value) =
      .ok (some (1, 1)) := by
    decide +kernel
  cases hreport : evaluate lastChance SkLearn.missing { alertCooldownSeconds := 0 } 2 1 ()
      (some ["ACME"]) with
  | error err =>
      rw [hreport] at hcounts
      cases hcounts
  | ok report =>
      rw [hreport] at hcounts
      have hget : report.perLabelRecall.get? AnomalyKind.washTrade.value = some (1, 1) :=
        Except.ok.inj hcounts
      obtain ⟨_, _, _, _, _, _, _, hfull⟩ := injected_wash_trades_found lastChance
        SkLearn.missing { alertCooldownSeconds := 0 } 2 1 () (some ["ACME"]) rfl hreport
      exact ⟨report, 1, 1, rfl, hget, rfl, hfull le_rfl 1 1 hget⟩

end Evaluate

end TradeWatch
