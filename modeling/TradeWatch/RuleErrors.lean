import TradeWatch.Accounting
import TradeWatch.Crosses
import TradeWatch.Eviction
import TradeWatch.PriorMedian

/-!
Which of the six rule detectors can raise, in exact arithmetic. The engine
swallows an exception and goes on, so a detector that raises is switched off for
that trade and only an error counter tells. Every division is guarded but one:
spoofing divides by twice its own threshold. And the detectors that look back in
time raise on every trade of the window whose event time cannot be read.
-/

namespace TradeWatch

open PyFloat Transducer EventTime

/-- The computation does not raise. -/
def Succeeds {α : Type} (x : Except PyError α) : Prop := ∃ a, x = .ok a

namespace Succeeds

variable {α β : Type} {x y : Except PyError α}

theorem ok (a : α) : Succeeds (.ok a) := ⟨a, rfl⟩

theorem bind {f : α → Except PyError β} (hx : Succeeds x) (h : ∀ a, Succeeds (f a)) :
    Succeeds (x >>= f) := by
  obtain ⟨a, rfl⟩ := hx
  exact h a

theorem ite {p : Prop} [Decidable p] (hx : ¬ p → Succeeds x) (hy : p → Succeeds y) :
    Succeeds (if p then y else x) := by
  split_ifs with hp
  · exact hy hp
  · exact hx hp

theorem not_error (hx : Succeeds x) : ¬ ∃ err, x = .error err := by
  obtain ⟨a, rfl⟩ := hx
  rintro ⟨err, h⟩
  cases h

end Succeeds

namespace ZScoreDetector

theorem zToScore_succeeds (absZ threshold : ℝ) : Succeeds (zToScore absZ threshold) := by
  refine Succeeds.ite (fun hpos => ?_) (fun _ => Succeeds.ok _)
  rw [le_real, ofRat_real, Rat.cast_zero, not_le] at hpos
  exact Succeeds.bind ⟨_, trueDiv_real hpos.ne'⟩ fun _ => Succeeds.ok _

theorem inspect_succeeds (cfg : ZScoreConfig ℝ) (minTrades : ℤ) (trade : Trade ℝ)
    (w : SymbolWindow ℝ) : Succeeds (inspect cfg minTrades trade w) := by
  refine Succeeds.ite (fun _ => ?_) (fun _ => Succeeds.ok _)
  refine Succeeds.bind ⟨_, meanStd_real _⟩ ?_
  rintro ⟨mean, std⟩
  refine Succeeds.bind ⟨_, zscore_real _ _ _⟩ ?_
  intro priceZ
  refine Succeeds.ite (fun _ => ?_) (fun _ => Succeeds.ok _)
  exact Succeeds.bind (zToScore_succeeds _ _) fun _ => Succeeds.ok _

end ZScoreDetector

namespace PriceSpikeDetector

theorem inspect_succeeds (cfg : PriceSpikeConfig ℝ) (trade : Trade ℝ) (w : SymbolWindow ℝ) :
    Succeeds (inspect cfg trade w) := by
  unfold inspect
  cases w.previousPrice with
  | none => exact Succeeds.ok _
  | some prev =>
      refine Succeeds.ite (fun hpos => ?_) (fun _ => Succeeds.ok _)
      rw [le_real, ofRat_real, Rat.cast_zero, not_le] at hpos
      refine Succeeds.bind ⟨_, trueDiv_real hpos.ne'⟩ ?_
      intro pct
      refine Succeeds.ite (fun _ => ?_) (fun _ => Succeeds.ok _)
      exact Succeeds.bind ⟨_, trueDiv_pyMax_real (q := 1 / 10 ^ 9) (by norm_num) _ _⟩
        fun _ => Succeeds.ok _

end PriceSpikeDetector

section LookingBack

variable [EventTime ℝ] (trade : Trade ℝ) (w : SymbolWindow ℝ)

namespace VelocityDetector

theorem inspect_error_iff (cfg : VelocityConfig) (hread : readable trade = true) :
    (∃ err, inspect cfg trade (w.add trade).2 = .error err) ↔
      (w.add trade).2.trades.all readable = false := by
  have hcritical : max cfg.criticalTrades 1 ≠ 0 := by omega
  have hrecent := w.recent_add trade cfg.windowSeconds
    (show ∀ ts ∈ some trade.timestamp, ts = trade.timestamp by simp)
  simp only [inspect, timestamp, hread, if_true, bind, Except.bind,
    SymbolWindow.countWithin_eq_length_recent, hrecent]
  cases (w.add trade).2.trades.all readable with
  | false => exact iff_of_true ⟨_, rfl⟩ rfl
  | true =>
      refine iff_of_false (Succeeds.not_error ?_) (by simp)
      simp only [if_true, Except.map, intDiv_eq_ok hcritical]
      exact Succeeds.ite (fun _ => Succeeds.ok _) fun _ => Succeeds.ok _

end VelocityDetector

namespace SpoofingDetector

/-- The divisor of the score is twice the threshold, and a threshold of zero is
reached by any burst. -/
theorem inspect_error_iff (cfg : SpoofingConfig ℝ) :
    (∃ err, inspect cfg trade (w.add trade).2 = .error err) ↔
      (w.add trade).2.trades.all readable = false ∨
        (cfg.imbalanceRatio = 0 ∧
          cfg.minEvents ≤ ((w.add trade).2.reaching trade.timestamp cfg.windowSeconds).length) := by
  have hrecent := w.recent_add trade cfg.windowSeconds
    (show ∀ ts ∈ (none : Option ℚ), ts = trade.timestamp by simp)
  unfold inspect SymbolWindow.sideImbalance
  rw [hrecent]
  cases (w.add trade).2.trades.all readable with
  | false => exact iff_of_true ⟨_, rfl⟩ (Or.inl rfl)
  | true =>
      generalize (w.add trade).2.reaching trade.timestamp cfg.windowSeconds = recent
      have htotal : recent.countP (fun t => t.side = .buy) +
          (recent.length - recent.countP (fun t => t.side = .buy)) = recent.length :=
        Nat.add_sub_of_le List.countP_le_length
      simp only [if_true, bind, Except.bind, pure, Except.pure, Bool.true_eq_false, false_or]
      generalize recent.countP (fun t => t.side = .buy) = buys at htotal ⊢
      generalize recent.length - buys = sells at htotal ⊢
      rw [← htotal]
      rcases lt_or_ge ((buys + sells : ℕ) : ℤ) cfg.minEvents with hfew | hmany
      · rw [if_pos hfew]
        exact iff_of_false (by rintro ⟨_, h⟩; cases h) fun h => not_le.mpr hfew h.2
      · rw [if_neg (not_lt.mpr hmany)]
        generalize (if sells ≤ buys then (buys, sells) else (sells, buys)) = sides
        obtain ⟨heavy, light⟩ := sides
        have hlight : ((light : ℤ) + 1) ≠ 0 := by omega
        have hratio : (0 : ℝ) ≤ (((heavy : ℤ) : ℚ) / (((light : ℤ) + 1 : ℤ) : ℚ) : ℚ) := by
          push_cast
          positivity
        simp only [intDiv_eq_ok hlight, lt_real, ofRat_real, mul_real]
        generalize ((((heavy : ℤ) : ℚ) / (((light : ℤ) + 1 : ℤ) : ℚ) : ℚ) : ℝ) = ratio at hratio ⊢
        rcases lt_or_ge ratio cfg.imbalanceRatio with hlow | hhigh
        · have hne : cfg.imbalanceRatio ≠ 0 := (hratio.trans_lt hlow).ne'
          rw [if_pos hlow]
          simp [hne]
        · rw [if_neg (not_lt.mpr hhigh)]
          rcases eq_or_ne cfg.imbalanceRatio 0 with hzero | hne
          · have hraise : trueDiv ratio (cfg.imbalanceRatio * ((2 : ℚ) : ℝ)) =
                .error .zeroDivisionError := by
              simp [trueDiv, isZero, hzero]
            rw [hraise]
            exact iff_of_true ⟨_, rfl⟩ ⟨hzero, hmany⟩
          · rw [trueDiv_real (mul_ne_zero hne (by norm_num))]
            simp [hne]

end SpoofingDetector

namespace WashTradeDetector

/-- The scan for a cross is only reached for an account that is not its own counterparty. -/
theorem inspect_error_iff (cfg : WashTradeConfig ℝ) (hread : readable trade = true) :
    (∃ err, inspect cfg trade (w.add trade).2 = .error err) ↔
      (!selfTrade trade && truthy trade.accountId) = true ∧
        (w.add trade).2.trades.all readable = false := by
  have hpos : le trade.price (ofRat 0) = false := by
    rw [← Bool.not_eq_true, le_real, ofRat_real, Rat.cast_zero, not_le]
    exact trade.price_pos_real
  have hrecent := w.recent_add trade cfg.windowSeconds
    (show ∀ ts ∈ some trade.timestamp, ts = trade.timestamp by simp)
  unfold inspect matchedCross
  simp only [timestamp, hread, if_true, hrecent, bind, Except.bind, hpos, Bool.or_false]
  cases selfTrade trade with
  | true => simp
  | false =>
      cases truthy trade.accountId with
      | false => simp
      | true =>
          cases (w.add trade).2.trades.all readable with
          | false => exact iff_of_true ⟨_, rfl⟩ ⟨rfl, rfl⟩
          | true =>
              refine iff_of_false (Succeeds.not_error ?_) (by simp)
              simp only [Bool.not_true, Bool.false_eq_true, if_false, if_true, findCross_real]
              split
              · exact Succeeds.ok _
              · exact Succeeds.ok _

end WashTradeDetector

end LookingBack

namespace ShippedDetector

variable {M : Type}

/-- Every shipped detector but the multivariate one. -/
def isRule {F : Type} [PyFloat F] : ShippedDetector F M → Bool
  | isolationForest _ => false
  | _ => true

theorem inspect_of_isRule {F : Type} [PyFloat F] [EventTime F] {d : ShippedDetector F M}
    (hrule : d.isRule) (trade : Trade F) (w : SymbolWindow F) :
    (Detector.inspect d trade w).2 = d := by
  cases d with
  | isolationForest forest => cases hrule
  | _ => rfl

/-- The detector reads the event times of the window to judge this trade. -/
def readsTimes {F : Type} [PyFloat F] (trade : Trade F) : ShippedDetector F M → Bool
  | velocity _ | spoofing _ => true
  | washTrade _ => !WashTradeDetector.selfTrade trade && truthy trade.accountId
  | zscore _ _ | priceSpike _ | volumeSpike _ _ | isolationForest _ => false

/-- The rule detectors raise on event times that cannot be read, and spoofing raises with a
threshold of zero and enough events. -/
theorem raises_iff [EventTime ℝ] {d : ShippedDetector ℝ M} (hrule : d.isRule) {trade : Trade ℝ}
    (hread : readable trade = true) (w : SymbolWindow ℝ) :
    (∃ err, (Detector.inspect d trade (w.add trade).2).1 = .error err) ↔
      (d.readsTimes trade = true ∧ (w.add trade).2.trades.all readable = false) ∨
        ∃ cfg, d = spoofing cfg ∧ cfg.imbalanceRatio = 0 ∧
          cfg.minEvents ≤ ((w.add trade).2.reaching trade.timestamp cfg.windowSeconds).length := by
  cases d with
  | zscore cfg minTrades =>
      exact iff_of_false (Succeeds.not_error (ZScoreDetector.inspect_succeeds cfg minTrades trade _))
        (by simp [readsTimes])
  | priceSpike cfg =>
      exact iff_of_false (Succeeds.not_error (PriceSpikeDetector.inspect_succeeds cfg trade _))
        (by simp [readsTimes])
  | volumeSpike cfg minTrades =>
      exact iff_of_false
        (Succeeds.not_error ⟨_, VolumeSpikeDetector.inspect_real cfg minTrades trade _⟩)
        (by simp [readsTimes])
  | velocity cfg =>
      refine (VelocityDetector.inspect_error_iff trade w cfg hread).trans ?_
      simp [readsTimes]
  | washTrade cfg =>
      refine (WashTradeDetector.inspect_error_iff trade w cfg hread).trans ?_
      simp [readsTimes]
  | spoofing cfg =>
      refine (SpoofingDetector.inspect_error_iff trade w cfg).trans ?_
      simp [readsTimes]
  | isolationForest forest => cases hrule

end ShippedDetector

namespace DetectionEngine

section AnyClock

variable {M : Type} [EventTime ℝ]

/-- The names of the six rule detectors. -/
def ruleNames : List String :=
  [ZScoreDetector.name, PriceSpikeDetector.name, VolumeSpikeDetector.name,
    VelocityDetector.name, SpoofingDetector.name, WashTradeDetector.name]

theorem name_mem_ruleNames (d : ShippedDetector ℝ M) :
    Detector.name d ∈ ruleNames ↔ d.isRule := by
  cases d with
  | isolationForest forest =>
      refine iff_of_false ?_ (by simp [ShippedDetector.isRule])
      change IsolationForestDetector.name ∉ ruleNames
      decide
  | _ => exact iff_of_true (by simp [ruleNames, Detector.name, ShippedDetector.name]) rfl

/-- No rule detector raises on `trade`. -/
def RulesAnswer (e : DetectionEngine (ShippedDetector ℝ M) ℝ) (trade : Trade ℝ) : Prop :=
  ∀ name ∈ ruleNames, ∀ err, (name, .error err) ∉ e.asked trade

/-- The call on `trade` shows the detectors a window with a trade whose event time cannot be
read, and one of them would read it. -/
def MeetsUnreadable (cfg : DetectionConfig ℝ) (e : DetectionEngine (ShippedDetector ℝ M) ℝ)
    (trade : Trade ℝ) : Prop :=
  ((e.windows.window trade.symbol).add trade).1 = .ok () ∧
    (∃ t ∈ (e.windowAfter trade).trades, readable t = false) ∧
    (cfg.velocity.enabled = true ∨ cfg.spoofing.enabled = true ∨
      (cfg.washTrade.enabled = true ∧ WashTradeDetector.selfTrade trade = false ∧
        truthy trade.accountId = true))

/-- The call on `trade` shows the spoofing detector, with a threshold of zero, a window with
enough trades that are not older than its span. -/
def DividesByZero (cfg : DetectionConfig ℝ) (e : DetectionEngine (ShippedDetector ℝ M) ℝ)
    (trade : Trade ℝ) : Prop :=
  ((e.windows.window trade.symbol).add trade).1 = .ok () ∧
    cfg.spoofing.enabled = true ∧ cfg.spoofing.imbalanceRatio = 0 ∧
    cfg.spoofing.minEvents ≤
      ((e.windowAfter trade).reaching trade.timestamp cfg.spoofing.windowSeconds).length

variable (sklearn : SkLearn ℝ M) (cfg : DetectionConfig ℝ)

/-- The rule detectors of an engine stay as they were built. -/
theorem rule_mem_final_iff (trades : List (Trade ℝ)) {d : ShippedDetector ℝ M} (hrule : d.isRule) :
    d ∈ (final watch (init sklearn cfg) trades).detectors ↔ d ∈ (init sklearn cfg).detectors := by
  constructor
  · intro hmem
    have hall : ∀ d ∈ (final watch (init sklearn cfg) trades).detectors, d.isRule →
        d ∈ (init sklearn cfg).detectors := by
      refine final_invariant watch
        (P := fun s => ∀ d ∈ s.detectors, d.isRule → d ∈ (init sklearn cfg).detectors)
        (fun _ hd _ => hd) ?_ trades
      intro s trade ih d hd hrule
      rcases hadd : ((s.windows.window trade.symbol).add trade).1 with err | ⟨⟩
      · rw [watch, process_of_error s trade hadd] at hd
        exact ih d hd hrule
      · rw [watch, process_detectors_of_ok s trade hadd] at hd
        obtain ⟨before, hbefore, rfl⟩ := List.mem_map.mp hd
        cases hkind : before.isRule with
        | true =>
            rw [ShippedDetector.inspect_of_isRule hkind]
            exact ih before hbefore hkind
        | false =>
            cases before with
            | isolationForest forest => cases hrule
            | _ => cases hkind
    exact hall d hmem hrule
  · intro hbuilt
    exact mem_final_of_stateless _ (ShippedDetector.inspect_of_isRule hrule) hbuilt trades

/-- Whoever answers in a run is a detector of the engine. -/
theorem name_of_mem_answers (trades : List (Trade ℝ)) {name : String} {answer : Answer ℝ}
    (h : (name, answer) ∈ (trace watch (init sklearn cfg) trades).flatMap (·.2.answers)) :
    name ∈ (init sklearn cfg).names := by
  obtain ⟨⟨trade, o⟩, hentry, hmem⟩ := List.mem_flatMap.mp h
  obtain ⟨before, _, _, rfl⟩ := (mem_trace_iff _ _ _ _ _).mp hentry
  have hnames := (init sklearn cfg).final_names before
  rw [← hnames]
  exact (asked_names_sublist _ trade).subset (List.mem_map_of_mem hmem)

/-- An error counter counts the exceptions of its detector, whether the ruleset
enables it or not. -/
theorem count_error (trades : List (Trade ℝ)) {name : String} (hname : name ∈ shippedNames) :
    Counter.count (final watch (init sklearn cfg) trades).alertsByDetector (name ++ ":error") =
      ((trace watch (init sklearn cfg) trades).flatMap (·.2.answers)).countP
        (fun a => a.1 = name && isError a.2) := by
  have hbooked := (init sklearn cfg).run_booked (init_names_nodup sklearn cfg)
    (init_names_plain sklearn cfg) trades
  by_cases henabled : name ∈ (init sklearn cfg).names
  · exact (hbooked.errors name henabled).trans (Nat.zero_add _)
  · have hsilent : ((trace watch (init sklearn cfg) trades).flatMap (·.2.answers)).countP
        (fun a => a.1 = name && isError a.2) = 0 := by
      rw [List.countP_eq_zero]
      rintro ⟨other, answer⟩ hmem heq
      simp only [Bool.and_eq_true, decide_eq_true_eq] at heq
      exact henabled (heq.1 ▸ name_of_mem_answers sklearn cfg trades hmem)
    have habsent : name ++ ":error" ∉
        (final watch (init sklearn cfg) trades).alertsByDetector.keys := by
      intro hkey
      rcases hbooked.keys _ hkey with hold | hmem | ⟨other, hother, heq⟩
      · exact absurd hold List.not_mem_nil
      · exact shippedNames_plain _ ((init_names_sublist sklearn cfg).subset hmem) name hname rfl
      · rw [String.append_left_inj] at heq
        exact henabled (heq ▸ hother)
    rw [hsilent, Counter.count, OrderedDict.get?_eq_none_iff.mpr habsent]
    rfl

omit [EventTime ℝ] in
theorem ruleNames_subset : ∀ name ∈ ruleNames, name ∈ shippedNames := by decide

/-- The error counters of the rule detectors stay at zero in exactly the runs in
which none of these detectors raises. -/
theorem rule_counters_iff (trades : List (Trade ℝ)) :
    (∀ name ∈ ruleNames, Counter.count
        (final watch (init sklearn cfg) trades).alertsByDetector (name ++ ":error") = 0) ↔
      Along watch RulesAnswer (init sklearn cfg) trades := by
  constructor
  · intro hzero before trade after hsplit name hname err hmem
    have hcount := hzero name hname
    rw [count_error sklearn cfg trades (ruleNames_subset name hname), List.countP_eq_zero] at hcount
    have hentry : (trade, ((final watch (init sklearn cfg) before).watch trade).1) ∈
        trace watch (init sklearn cfg) trades :=
      (mem_trace_iff _ _ _ _ _).mpr ⟨before, after, hsplit, rfl⟩
    exact hcount (name, .error err) (List.mem_flatMap.mpr ⟨_, hentry, hmem⟩) (by simp [isError])
  · intro hrun name hname
    rw [count_error sklearn cfg trades (ruleNames_subset name hname), List.countP_eq_zero]
    rintro ⟨other, answer⟩ hmem heq
    simp only [Bool.and_eq_true, decide_eq_true_eq] at heq
    obtain ⟨rfl, herror⟩ := heq
    obtain ⟨⟨trade, o⟩, hentry, hanswer⟩ := List.mem_flatMap.mp hmem
    obtain ⟨before, after, hsplit, rfl⟩ := (mem_trace_iff _ _ _ _ _).mp hentry
    rcases answer with err | _
    · exact hrun before trade after hsplit other hname err hanswer
    · cases herror

omit [EventTime ℝ] in
/-- Which of the rule detectors read event times for a trade. -/
theorem exists_readsTimes_iff (trade : Trade ℝ) :
    (∃ d ∈ (init sklearn cfg).detectors, d.isRule = true ∧ d.readsTimes trade = true) ↔
      cfg.velocity.enabled = true ∨ cfg.spoofing.enabled = true ∨
        (cfg.washTrade.enabled = true ∧ WashTradeDetector.selfTrade trade = false ∧
          truthy trade.accountId = true) := by
  simp [init, start, buildDetectors, or_and_right, exists_or, ShippedDetector.isRule,
    ShippedDetector.readsTimes]

omit [EventTime ℝ] in
theorem spoofing_mem_iff (spoof : SpoofingConfig ℝ) :
    ShippedDetector.spoofing spoof ∈ (init sklearn cfg).detectors ↔
      cfg.spoofing.enabled = true ∧ spoof = cfg.spoofing := by
  cases henabled : cfg.spoofing.enabled <;> simp [init, start, buildDetectors, henabled]

/-- One step: the rule detectors answer unless one of them meets an event time that cannot
be read, or spoofing divides by zero. -/
theorem rulesAnswer_iff (before : List (Trade ℝ)) (trade : Trade ℝ) :
    RulesAnswer (final watch (init sklearn cfg) before) trade ↔
      ¬ MeetsUnreadable cfg (final watch (init sklearn cfg) before) trade ∧
        ¬ DividesByZero cfg (final watch (init sklearn cfg) before) trade := by
  let e := final watch (init sklearn cfg) before
  have hrules : ∀ {d : ShippedDetector ℝ M}, d.isRule = true →
      (d ∈ e.detectors ↔ d ∈ (init sklearn cfg).detectors) :=
    fun hrule => rule_mem_final_iff sklearn cfg before hrule
  rcases hadd : ((e.windows.window trade.symbol).add trade).1 with err | ⟨⟩
  · -- a call that raises asks no detector
    refine iff_of_true ?_ ⟨?_, ?_⟩
    · intro name _ other hmem
      rw [asked_of_error e trade hadd] at hmem
      exact absurd hmem List.not_mem_nil
    · rintro ⟨hok, _⟩
      exact absurd (hadd.symm.trans hok) (by simp)
    · rintro ⟨hok, _⟩
      exact absurd (hadd.symm.trans hok) (by simp)
  · have hread : readable trade = true := by
      by_contra hnot
      rw [SymbolWindow.add_of_unreadable _ (Bool.not_eq_true _ ▸ hnot)] at hadd
      cases hadd
    have hraises : ∀ {d : ShippedDetector ℝ M}, d.isRule = true →
        ((∃ err, (Detector.inspect d trade (e.windowAfter trade)).1 = .error err) ↔ _) :=
      fun hrule => ShippedDetector.raises_iff hrule hread (e.windows.window trade.symbol)
    constructor
    · intro hanswer
      have hquiet : ∀ d ∈ (init sklearn cfg).detectors, d.isRule = true →
          ¬ ∃ err, (Detector.inspect d trade (e.windowAfter trade)).1 = .error err := by
        rintro d hbuilt hrule ⟨err, herr⟩
        refine hanswer (Detector.name d) ((name_mem_ruleNames d).mpr hrule) err ?_
        rw [asked_of_ok e trade hadd]
        exact List.mem_map.mpr ⟨d, (hrules hrule).mpr hbuilt, by rw [herr]⟩
      constructor
      · rintro ⟨_, ⟨t, ht, hbad⟩, hreads⟩
        obtain ⟨d, hbuilt, hrule, hreads⟩ := (exists_readsTimes_iff sklearn cfg trade).mpr hreads
        have hunread : (e.windowAfter trade).trades.all readable = false :=
          List.all_eq_false.mpr ⟨t, ht, by simp [hbad]⟩
        exact hquiet d hbuilt hrule ((hraises hrule).mpr (Or.inl ⟨hreads, hunread⟩))
      · rintro ⟨_, henabled, hzero, hmany⟩
        have hbuilt := (spoofing_mem_iff sklearn cfg _).mpr ⟨henabled, rfl⟩
        exact hquiet _ hbuilt rfl ((hraises rfl).mpr (Or.inr ⟨_, rfl, hzero, hmany⟩))
    · rintro ⟨hmeets, hdivides⟩ name hname err hmem
      rw [asked_of_ok e trade hadd] at hmem
      obtain ⟨d, hd, heq⟩ := List.mem_map.mp hmem
      obtain ⟨rfl, herr⟩ := Prod.mk.inj heq
      have hrule := (name_mem_ruleNames d).mp hname
      have hbuilt := (hrules hrule).mp hd
      rcases (hraises hrule).mp ⟨err, herr⟩ with ⟨hreads, hunread⟩ | ⟨spoof, rfl, hzero, hmany⟩
      · obtain ⟨t, ht, hbad⟩ := List.all_eq_false.mp hunread
        refine hmeets ⟨hadd, ⟨t, ht, by simpa using hbad⟩, ?_⟩
        exact (exists_readsTimes_iff sklearn cfg trade).mp ⟨d, hbuilt, hrule, hreads⟩
      · obtain ⟨henabled, rfl⟩ := (spoofing_mem_iff sklearn cfg spoof).mp hbuilt
        exact hdivides ⟨hadd, henabled, hzero, hmany⟩

/-- Through a whole run no rule detector raises, and no error counter of theirs
moves, exactly if no call of the run shows them an event time that cannot be read and
none makes spoofing divide by zero. -/
theorem rules_never_raise_iff (trades : List (Trade ℝ)) :
    (Along watch RulesAnswer (init sklearn cfg) trades ∧
        ∀ name ∈ ruleNames, Counter.count
          (final watch (init sklearn cfg) trades).alertsByDetector (name ++ ":error") = 0) ↔
      Along watch (fun e trade => ¬ MeetsUnreadable cfg e trade ∧ ¬ DividesByZero cfg e trade)
        (init sklearn cfg) trades := by
  rw [rule_counters_iff, and_self]
  unfold Along
  simp only [rulesAnswer_iff]

end AnyClock

theorem rules_never_raise_default_rules :
    Along watch RulesAnswer (init SkLearn.missing ({} : DetectionConfig ℝ)) [realTradeAt 0] := by
  refine ((rules_never_raise_iff .missing {} [realTradeAt 0]).mpr ?_).1
  refine along_cons _ ⟨?_, ?_⟩ (along_nil _ _ _)
  · rintro ⟨_, ⟨t, _, hbad⟩, _⟩
    cases hbad
  · rintro ⟨_, _, hzero, _⟩
    simp at hzero

/-- A spoofing threshold of zero, with no minimum of events: the first trade
makes the detector divide by zero. -/
theorem spoofing_raises_zero_ratio :
    ¬ Along watch RulesAnswer
      (init SkLearn.missing
        ({ spoofing := { imbalanceRatio := 0, minEvents := 1 } } : DetectionConfig ℝ))
      [realTradeAt 0] := by
  intro h
  let cfg : DetectionConfig ℝ := { spoofing := { imbalanceRatio := 0, minEvents := 1 } }
  have hanswer : RulesAnswer (init SkLearn.missing cfg) (realTradeAt 0) :=
    h [] (realTradeAt 0) [] rfl
  have hkeeps := SymbolWindow.keepsNewest_of_nonneg
    (w := (⟨"ACME", cfg.window.maxTrades, cfg.window.horizonSeconds, []⟩ : SymbolWindow ℝ))
    (by decide) (by norm_num [cfg]) (realTradeAt 0)
  obtain ⟨hadd, hlast⟩ := SymbolWindow.getLast?_add_of_keepsNewest hkeeps (by simp)
  refine ((rulesAnswer_iff SkLearn.missing cfg [] (realTradeAt 0)).mp hanswer).2
    ⟨hadd, rfl, rfl, ?_⟩
  have hrecent : realTradeAt 0 ∈ ((init SkLearn.missing cfg).windowAfter (realTradeAt 0)).reaching
      (realTradeAt 0).timestamp cfg.spoofing.windowSeconds :=
    List.mem_filter.mpr ⟨List.mem_of_getLast? hlast, by simp [cfg]⟩
  exact Int.toNat_le.mp (List.length_pos_of_mem hrecent)

end DetectionEngine

end TradeWatch
