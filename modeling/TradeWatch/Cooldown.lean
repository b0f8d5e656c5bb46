import TradeWatch.Watch

/-!
What the cooldown promises about a whole run. Per key, returned alerts are
never closer than the cooldown, and while a symbol's trades arrive in event
order every alert that is held back has a returned one less than the cooldown
before it. The comparison has no lower bound, so a trade that comes in far
behind the last alert of its key is held back as well: there the second
promise fails, and the guard below says which trades those are.
-/

namespace TradeWatch

open PyFloat Transducer

/-- Trades of one symbol come in the order of their event times. -/
def SymbolOrdered {F : Type} [PyFloat F] (trades : List (Trade F)) : Prop :=
  trades.Pairwise (fun a b => a.symbol = b.symbol → a.timestamp ≤ b.timestamp)

theorem SymbolOrdered.upTo {F : Type} [PyFloat F] {trades before after : List (Trade F)}
    {trade : Trade F} (h : SymbolOrdered trades) (hsplit : trades = before ++ trade :: after) :
    SymbolOrdered (before ++ [trade]) := by
  apply List.Pairwise.sublist _ h
  rw [hsplit]
  exact List.Sublist.append_left (by simp) before

namespace DetectionEngine

variable {D F : Type} [PyFloat F] [Detector D F]

/-- Every result of the run was returned, or an alert of its key had been returned in the
cooldown that ends at its event time. -/
def CooldownCovers [EventTime F] (start : DetectionEngine D F) (c : ℚ) (trades : List (Trade F)) :
    Prop :=
  ∀ before trade after, trades = before ++ trade :: after →
    let o := ((final watch start before).watch trade).1
    ∀ name alert, (name, .ok (some alert)) ∈ o.answers →
      alert ∈ o.alerts ∨
        ∃ entry ∈ emissions (trace watch start before) trade.symbol name,
          trade.timestamp - c < eventTime entry ∧ eventTime entry ≤ trade.timestamp

/-- Every alert of the run that was held back has an alert of its key, returned
before, whose event time is less than `c` away. -/
def SuppressionJustified (start : DetectionEngine D F) (c : ℚ) (trades : List (Trade F)) : Prop :=
  ∀ before trade after, trades = before ++ trade :: after →
    let o := ((final watch start before).watch trade).1
    ∀ name alert, (name, .ok (some alert)) ∈ o.answers → alert ∉ o.alerts →
      ∃ entry ∈ emissions (trace watch start before) trade.symbol name,
        |trade.timestamp - eventTime entry| < c

/-- No detector fires on the trade while the last alert of its key lies `c` or
more ahead of it. -/
def NotFarBehind (c : ℚ) (e : DetectionEngine D F) (trade : Trade F) : Prop :=
  ∀ a ∈ e.asked trade, (alertOf a.2).isSome →
    ∀ last ∈ e.lastAlertTs.get? (trade.symbol, a.1), last - trade.timestamp < c

instance (c : ℚ) (e : DetectionEngine D F) (trade : Trade F) :
    Decidable (NotFarBehind c e trade) :=
  inferInstanceAs (Decidable (∀ a ∈ e.asked trade, (alertOf a.2).isSome →
    ∀ last ∈ e.lastAlertTs.get? (trade.symbol, a.1), last - trade.timestamp < c))

omit [Detector D F] in
theorem withinCooldown_iff (e : DetectionEngine D F) (symbol name : String) (trade : Trade F) :
    e.withinCooldown symbol name trade = true ↔
      0 < e.cooldown ∧ ∃ last, e.lastAlertTs.get? (symbol, name) = some last ∧
        trade.timestamp - last < e.cooldown := by
  unfold withinCooldown
  cases e.lastAlertTs.get? (symbol, name) <;> simp

/-- A result of a detector goes out, or its key is cooling down. -/
theorem returned_or_cooling (e : DetectionEngine D F) (trade : Trade F)
    (hnames : e.names.Nodup) {name : String} {alert : Alert F}
    (h : (name, .ok (some alert)) ∈ e.asked trade) :
    alert ∈ (e.watch trade).1.alerts ∨
      e.withinCooldown trade.symbol name trade = true := by
  rw [e.watch_alerts trade hnames, mem_sortAlerts]
  cases hwithin : e.withinCooldown trade.symbol name trade with
  | true => exact Or.inr rfl
  | false => exact Or.inl (List.mem_filterMap.mpr ⟨_, h, due_eq_some.mpr ⟨rfl, hwithin⟩⟩)

section Fresh

variable [LawfulDetector D F] (e : DetectionEngine D F) (hnames : e.names.Nodup)
include hnames

/-- Returned alerts of one key are at least a cooldown apart. -/
theorem emissions_spaced (hc : 0 < e.cooldown) (trades : List (Trade F)) (symbol name : String) :
    (emissions (trace watch e trades) symbol name).Pairwise
      (fun a b => eventTime a < eventTime b ∧ e.cooldown ≤ eventTime b - eventTime a) := by
  rw [(e.emissions_eq_thin hnames trades symbol name).1]
  refine (Spacing.thin_spaced eventTime hc _ _).imp ?_
  intro a b hgap
  exact ⟨by linarith, hgap⟩

/-- The trades that the returned alerts of a key are on are trades of the run. -/
theorem mem_of_mem_emissions {trades : List (Trade F)} {symbol name : String}
    {entry : Trade F × Alert F} (h : entry ∈ emissions (trace watch e trades) symbol name) :
    entry.1 ∈ trades ∧ entry.1.symbol = symbol := by
  rw [(e.emissions_eq_thin hnames trades symbol name).1] at h
  obtain ⟨trade, alert⟩ := entry
  obtain ⟨o, hmem, hsymbol, _⟩ := mem_firings.mp (Spacing.mem_of_mem_thin eventTime h)
  have hinputs := List.mem_map_of_mem (f := Prod.fst) hmem
  rw [trace_inputs] at hinputs
  exact ⟨hinputs, hsymbol⟩

variable (hfresh : e.lastAlertTs = .empty)
include hfresh

/-- A result that was held back has a returned alert of its key that it
follows by less than the cooldown, or precedes. -/
theorem held_back (before : List (Trade F)) (trade : Trade F) {name : String} {alert : Alert F}
    (h : (name, .ok (some alert)) ∈ ((final watch e before).watch trade).1.answers)
    (hheld : alert ∉ ((final watch e before).watch trade).1.alerts) :
    ∃ entry ∈ emissions (trace watch e before) trade.symbol name,
      (final watch e before).lastAlertTs.get? (trade.symbol, name) = some (eventTime entry) ∧
        trade.timestamp - eventTime entry < e.cooldown := by
  have hlater : (final watch e before).names.Nodup := by rwa [e.final_names before]
  rcases returned_or_cooling (final watch e before) trade hlater h with hout | hwithin
  · exact absurd hout hheld
  · obtain ⟨_, last, hlast, hlt⟩ := (withinCooldown_iff _ _ _ _).mp hwithin
    obtain ⟨entry, hentry, rfl⟩ := e.last_is_emission hnames hfresh before hlast
    rw [e.final_cooldown before] at hlt
    exact ⟨entry, hentry, hlast, hlt⟩

/-- In event order, a result that was held back has a returned alert of its
key in the cooldown that ends at its own time. -/
theorem held_back_covered {before : List (Trade F)} {trade : Trade F}
    (hordered : SymbolOrdered (before ++ [trade])) {name : String} {alert : Alert F}
    (h : (name, .ok (some alert)) ∈ ((final watch e before).watch trade).1.answers)
    (hheld : alert ∉ ((final watch e before).watch trade).1.alerts) :
    ∃ entry ∈ emissions (trace watch e before) trade.symbol name,
      trade.timestamp - e.cooldown < eventTime entry ∧ eventTime entry ≤ trade.timestamp := by
  obtain ⟨entry, hentry, _, hlt⟩ := held_back e hnames hfresh before trade h hheld
  obtain ⟨hmem, hsymbol⟩ := mem_of_mem_emissions e hnames hentry
  have hle : entry.1.timestamp ≤ trade.timestamp :=
    (List.pairwise_append.mp hordered).2.2 entry.1 hmem trade (by simp) hsymbol
  exact ⟨entry, hentry, by linarith, hle⟩

/-- A run in which no detector fires far behind its last alert holds nothing
back without a returned alert nearby. -/
theorem justified_along {c : ℚ} (hc : e.cooldown = c) (trades : List (Trade F))
    (hguard : Along watch (NotFarBehind c) e trades) : SuppressionJustified e c trades := by
  rintro before trade after rfl o name alert hanswer hheld
  obtain ⟨entry, hentry, hlast, hlt⟩ := held_back e hnames hfresh before trade hanswer hheld
  have hbehind : eventTime entry - trade.timestamp < c :=
    hguard before trade after rfl _ hanswer rfl _ hlast
  refine ⟨entry, hentry, abs_lt.mpr ⟨by linarith, ?_⟩⟩
  rwa [hc] at hlt

end Fresh

section Shipped

variable {M : Type} (sklearn : SkLearn F M) (cfg : DetectionConfig F)

/-- Every run of the shipped engine: returned alerts of one key are spaced by
the cooldown; in event order a result is returned or covered by an earlier
alert of its key; without a cooldown every result is returned; and what one
key returns is decided by the results of that key alone. -/
theorem cooldown_spaces_and_covers (trades : List (Trade F)) :
    let start := init sklearn cfg
    let c := cfg.alertCooldownSeconds
    let log := trace watch start trades
    (0 < c → ∀ symbol name, (emissions log symbol name).Pairwise
        (fun a b => eventTime a < eventTime b ∧ c ≤ eventTime b - eventTime a)) ∧
      (0 < c → SymbolOrdered trades → CooldownCovers start c trades) ∧
      (c ≤ 0 → ∀ trade o, (trade, o) ∈ log →
        ∀ name alert, (name, .ok (some alert)) ∈ o.answers → alert ∈ o.alerts) ∧
      (∀ symbol name, emissions log symbol name =
        Spacing.thin eventTime c none (firings log symbol name)) := by
  intro start c log
  have hnames : start.names.Nodup := init_names_nodup sklearn cfg
  have hcooldown : start.cooldown = max 0 c := rfl
  refine ⟨?_, ?_, ?_, ?_⟩
  · intro hc symbol name
    rw [max_eq_right hc.le] at hcooldown
    have hspaced := emissions_spaced start hnames (hcooldown ▸ hc) trades symbol name
    rwa [hcooldown] at hspaced
  · intro hc hordered before trade after hsplit o name alert hanswer
    rw [max_eq_right hc.le] at hcooldown
    by_cases hout : alert ∈ o.alerts
    · exact Or.inl hout
    · have hcovered := held_back_covered start hnames rfl (hordered.upTo hsplit) hanswer hout
      rw [hcooldown] at hcovered
      exact Or.inr hcovered
  · intro hc trade o hmem name alert hanswer
    obtain ⟨before, after, rfl, rfl⟩ := (mem_trace_iff _ _ _ _ _).mp hmem
    have hlater : (final watch start before).names.Nodup := by rwa [start.final_names before]
    rcases returned_or_cooling (final watch start before) trade hlater hanswer with
      hout | hwithin
    · exact hout
    · have hpos := ((withinCooldown_iff _ _ _ _).mp hwithin).1
      rw [start.final_cooldown before, hcooldown, max_eq_left hc] at hpos
      exact absurd hpos (lt_irrefl 0)
  · intro symbol name
    have hthin := (start.emissions_eq_thin hnames trades symbol name).1
    rw [hcooldown] at hthin
    rcases le_or_gt c 0 with hc | hpos
    · rw [hthin, max_eq_left hc, Spacing.thin_of_nonpos eventTime le_rfl,
        Spacing.thin_of_nonpos eventTime hc]
    · rw [hthin, max_eq_right hpos.le]
      rfl

theorem cooldown_covers_second_self_trade :
    ∃ entry ∈ emissions (trace watch (init .missing {}) [selfTradeAt "a" 0]) "ACME" "wash_trade",
      1 - 8 < eventTime entry ∧ eventTime entry ≤ 1 := by
  have hordered : SymbolOrdered [selfTradeAt "a" 0, selfTradeAt "b" 1] := by
    unfold SymbolOrdered
    decide +kernel
  have hfired : ∃ alert, alert ∈ results
      ((final watch (init .missing {}) [selfTradeAt "a" 0]).asked (selfTradeAt "b" 1))
      "wash_trade" := by
    apply List.exists_mem_of_ne_nil
    decide +kernel
  have hheld : ((final watch (init .missing {}) [selfTradeAt "a" 0]).watch
      (selfTradeAt "b" 1)).1.alerts = [] := by
    decide +kernel
  obtain ⟨alert, halert⟩ := hfired
  have hcovers := (cooldown_spaces_and_covers .missing {}
    [selfTradeAt "a" 0, selfTradeAt "b" 1]).2.1 (by decide +kernel) hordered
  rcases hcovers [selfTradeAt "a" 0] (selfTradeAt "b" 1) [] rfl "wash_trade" alert
      (mem_results.mp halert) with hout | hentry
  · rw [hheld] at hout
    exact absurd hout List.not_mem_nil
  · exact hentry

/-- On doubles the cooldown is off by a rounding. Two self-trades 0.1 s apart are taken for
less than 0.1 s apart; two others are taken for 8 s apart, where the seconds that were read
are not. -/
theorem not_cooldown_covers_rounded :
    (¬ ∀ (cfg : DetectionConfig Double) (trades : List (Trade Double)),
        0 < cfg.alertCooldownSeconds → SymbolOrdered trades →
          CooldownCovers (init .missing cfg) cfg.alertCooldownSeconds trades) ∧
      ¬ (emissions (trace watch (init .missing ({} : DetectionConfig Double))
          [doubleTradeAt "a" (1 / 10), doubleTradeAt "b" (81 / 10)]) "ACME" "wash_trade").Pairwise
        (fun a b => 8 ≤ EventTime.seconds (eventTime b) - EventTime.seconds (eventTime a)) := by
  constructor
  · intro h
    let cfg : DetectionConfig Double := { alertCooldownSeconds := 1 / 10 }
    have hordered : SymbolOrdered [doubleTradeAt "a" (2 / 10), doubleTradeAt "b" (3 / 10)] := by
      unfold SymbolOrdered
      decide +kernel
    have hfired : ∃ alert, alert ∈ results
        ((final watch (init .missing cfg) [doubleTradeAt "a" (2 / 10)]).asked
          (doubleTradeAt "b" (3 / 10))) "wash_trade" := by
      apply List.exists_mem_of_ne_nil
      decide +kernel
    obtain ⟨alert, halert⟩ := hfired
    have hheld : ((final watch (init .missing cfg) [doubleTradeAt "a" (2 / 10)]).watch
        (doubleTradeAt "b" (3 / 10))).1.alerts = [] := by
      decide +kernel
    have hfar : ∀ entry ∈ emissions
        (trace watch (init .missing cfg) [doubleTradeAt "a" (2 / 10)]) "ACME" "wash_trade",
        eventTime entry ≤ 3 / 10 - 1 / 10 := by
      decide +kernel
    rcases h cfg _ (by decide +kernel) hordered [doubleTradeAt "a" (2 / 10)]
      (doubleTradeAt "b" (3 / 10)) [] rfl "wash_trade" alert (mem_results.mp halert) with
      hout | ⟨entry, hentry, hnear, _⟩
    · rw [hheld] at hout
      exact absurd hout List.not_mem_nil
    · exact absurd hnear (not_lt.mpr (hfar entry hentry))
  · decide +kernel

/-- While no detector fires far behind its last alert, whatever is held back
has a returned alert of its key nearby. -/
theorem suppression_justified (hc : 0 < cfg.alertCooldownSeconds) (trades : List (Trade F))
    (hguard : Along watch (NotFarBehind cfg.alertCooldownSeconds) (init sklearn cfg) trades) :
    SuppressionJustified (init sklearn cfg) cfg.alertCooldownSeconds trades :=
  justified_along (init sklearn cfg) (init_names_nodup sklearn cfg) rfl
    (max_eq_right hc.le) trades hguard

theorem suppression_justified_slightly_late :
    SuppressionJustified (init .missing {}) 8 [selfTradeAt "a" 100, selfTradeAt "b" 97] :=
  suppression_justified .missing {} (by decide +kernel) [selfTradeAt "a" 100, selfTradeAt "b" 97]
    (along_cons _ (by decide +kernel) (along_cons _ (by decide +kernel) (along_nil _ _ _)))

/-- One alert at 100 s silences the alert at 0 s, which is no repeat of it. -/
theorem suppression_not_justified_far_behind :
    ¬ SuppressionJustified (init .missing {}) 8 [selfTradeAt "a" 100, selfTradeAt "b" 0] := by
  intro h
  have hfired : ∃ alert, alert ∈ results
      ((final watch (init .missing {}) [selfTradeAt "a" 100]).asked (selfTradeAt "b" 0))
      "wash_trade" := by
    apply List.exists_mem_of_ne_nil
    decide +kernel
  obtain ⟨alert, halert⟩ := hfired
  have hheld : ((final watch (init .missing {}) [selfTradeAt "a" 100]).watch
      (selfTradeAt "b" 0)).1.alerts = [] := by
    decide +kernel
  obtain ⟨entry, hentry, hnear⟩ :=
    h [selfTradeAt "a" 100] (selfTradeAt "b" 0) [] rfl "wash_trade" alert
      (mem_results.mp halert) (by rw [hheld]; exact List.not_mem_nil)
  have hfar : ∀ entry ∈ emissions
      (trace watch (init .missing {}) [selfTradeAt "a" 100]) "ACME" "wash_trade",
      8 ≤ |0 - eventTime entry| := by
    decide +kernel
  exact absurd hnear (not_lt.mpr (hfar entry hentry))

end Shipped

end DetectionEngine

end TradeWatch
