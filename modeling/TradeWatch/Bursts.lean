import TradeWatch.Injected
import TradeWatch.Lib.Ensures
import TradeWatch.Velocity

/-!
The velocity bursts that the simulator injects, as the evaluation finds them. A burst is
at least thirty trades of one symbol within two seconds, in the order of their times. A
detector that asks for no more trades, in no shorter a span, fires on the last of them.
All that can hide a whole burst is the cooldown.
-/

namespace TradeWatch

open PyFloat Transducer StateExcept

namespace MarketSimulator

variable {K : Type} [Field K] [LinearOrder K] [IsStrictOrderedRing K] [FloorRing K] [PyFloat K]

section Clock

variable {G : Type} {env : Chance K G}

/-- The clock adds its gaps without rounding. -/
structure ExactClock (K : Type) [Field K] [LinearOrder K] [PyFloat K] : Prop where
  moved : ∀ elapsed gap : K, add elapsed (pyMax gap (ofRat 0)) = elapsed + max gap 0
  interval : (burstInterval : K) = 2 / 100

theorem exactClock_real : ExactClock ℝ where
  moved elapsed gap := by
    rw [add_real, pyMax_real, ofRat_real, Rat.cast_zero]
  interval := burstInterval_real

theorem exactClock_rat : ExactClock ℚ where
  moved elapsed gap := by
    have hmax : pyMax gap (ofRat 0) = max gap 0 := by
      rw [max_def_lt]
      exact ite_congr (decide_eq_true_eq) (fun _ => rfl) (fun _ => rfl)
    rw [hmax]
    rfl
  interval := rfl

theorem timestamp_of_modelValidate {F : Type} [PyFloat F] {cases : CaseMap} {newId : String}
    {utcnow moment : ℚ} {payload : TradePayload F} {trade : Trade F}
    (h : Trade.modelValidate cases newId utcnow payload = some trade)
    (hmoment : payload.timestamp = some moment) : trade.timestamp = moment := by
  unfold Trade.modelValidate at h
  split_ifs at h
  rw [← Option.some.inj h]
  dsimp only
  rw [hmoment, Option.getD_some]

/-- The clock shows `e`. -/
def ShowsTime (e : K) (sim : MarketSimulator K G) : Prop := sim.elapsed = e

omit [Field K] [LinearOrder K] [IsStrictOrderedRing K] [FloorRing K] [PyFloat K] in
theorem unseeded_showsTime (e : K) :
    Unseeded (ShowsTime e : MarketSimulator K G → Prop) := fun _ _ hsim => hsim

variable (hexact : ExactClock K) (henv : env.Documented)

include hexact henv

omit [IsStrictOrderedRing K] in
/-- The clock goes on by the gap, and not back. -/
theorem ensures_advance (e gap : K) :
    Ensures (ShowsTime e) (advance env gap)
      (fun moment sim => ShowsTime (e + max gap 0) sim ∧ moment = clockTime (e + max gap 0)) := by
  have hmoved : ∀ sim : MarketSimulator K G, ShowsTime e sim →
      ShowsTime (e + max gap 0) { sim with elapsed := add sim.elapsed (pyMax gap (ofRat 0)) } := by
    intro sim hsim
    rw [← (show sim.elapsed = e from hsim)]
    exact hexact.moved sim.elapsed gap
  unfold advance
  refine (Ensures.update hmoved).bind fun _ => ?_
  refine Ensures.get.bind fun sim => ?_
  rw [henv.timedelta, calendar]
  split
  · refine Ensures.pure ?_
    rintro s ⟨rfl, hshows⟩
    refine ⟨hshows, ?_⟩
    rw [clockTime, ← hshows]
  · exact Ensures.throw _ _

omit [IsStrictOrderedRing K] in
/-- A trade bears the time that the clock shows after it. -/
theorem ensures_normal (e : K) (state : SymbolState K) (gap : K)
    (overrides : Overrides K) :
    Ensures (ShowsTime e) (normal env state gap overrides) (fun result sim =>
      ShowsTime (e + max gap 0) sim ∧ result.1.timestamp = clockTime (e + max gap 0)) := by
  have hnow := unseeded_showsTime (G := G) e
  have hlater := unseeded_showsTime (G := G) (e + max gap 0)
  rw [normal_eq]
  refine (keeps_pricing hnow state overrides.price).followed ?_
  rintro ⟨price, state'⟩ -
  unfold tradeAt
  refine (keeps_drawSize hnow state').followed fun size _ => ?_
  refine Keeps.get.followed fun sim _ => ?_
  refine (keeps_choice hnow sim.accounts).followed fun account _ => ?_
  refine (keeps_choice hnow _).followed fun counterparty _ => ?_
  refine (keeps_choice hnow _).followed fun side _ => ?_
  refine (keeps_choice hnow _).followed fun venue _ => ?_
  refine (ensures_advance hexact henv e gap).bind fun timestamp => ?_
  refine Ensures.assume fun htime => ?_
  refine (keeps_draw hlater _).followed fun tradeId _ => ?_
  dsimp only
  split
  · rename_i trade htrade
    refine Ensures.pure fun sim hsim => ⟨hsim, ?_⟩
    exact (timestamp_of_modelValidate htrade rfl).trans htime
  · exact Ensures.throw _ _

end Clock

section Tape

/-- A tape in the order of its times, which lie between two readings of the clock. -/
structure Timed (start finish : K) (tape : List (LabeledTrade K)) : Prop where
  forward : start ≤ finish
  between : ∀ entry ∈ tape,
    clockTime start ≤ entry.1.timestamp ∧ entry.1.timestamp ≤ clockTime finish
  ordered : tape.Pairwise (fun earlier later => earlier.1.timestamp ≤ later.1.timestamp)

omit [IsStrictOrderedRing K] in
theorem Timed.nil {start finish : K} (h : start ≤ finish) : Timed start finish [] :=
  ⟨h, by simp, List.Pairwise.nil⟩

theorem Timed.single {start gap : K} {entry : LabeledTrade K}
    (h : entry.1.timestamp = clockTime (start + max gap 0)) :
    Timed start (start + max gap 0) [entry] := by
  have hforward : start ≤ start + max gap 0 := le_add_of_nonneg_right (le_max_right _ _)
  refine ⟨hforward, List.forall_mem_singleton.mpr ?_, List.pairwise_singleton _ _⟩
  rw [h]
  exact ⟨clockTime_mono hforward, le_rfl⟩

theorem Timed.append {start middle finish : K} {tape more : List (LabeledTrade K)}
    (h : Timed start middle tape) (hmore : Timed middle finish more) :
    Timed start finish (tape ++ more) := by
  constructor
  · exact h.forward.trans hmore.forward
  · refine List.forall_mem_append.mpr ⟨?_, ?_⟩
    · intro entry hentry
      obtain ⟨hfrom, hto⟩ := h.between entry hentry
      exact ⟨hfrom, hto.trans (clockTime_mono hmore.forward)⟩
    · intro entry hentry
      obtain ⟨hfrom, hto⟩ := hmore.between entry hentry
      exact ⟨(clockTime_mono h.forward).trans hfrom, hto⟩
  · refine List.pairwise_append.mpr ⟨h.ordered, hmore.ordered, ?_⟩
    intro earlier hearlier later hlater
    exact (h.between earlier hearlier).2.trans (hmore.between later hlater).1

omit [PyFloat K] in
/-- Rounding to microseconds makes less than a tenth of a second of a span. -/
theorem clockTime_add_le (x : K) {span : K} (h : span ≤ 14 / 10) :
    clockTime (x + span) ≤ clockTime x + 2 := by
  have hlow := (roundHalfEven_bounds (x * (10 ^ 6 : ℕ))).1
  have hhigh := (roundHalfEven_bounds ((x + span) * (10 ^ 6 : ℕ))).2
  have hbelow := Int.sub_one_lt_floor (x * (10 ^ 6 : ℕ))
  have habove := Int.floor_le ((x + span) * (10 ^ 6 : ℕ))
  have hreal : (roundHalfEven ((x + span) * (10 ^ 6 : ℕ)) : K) ≤
      roundHalfEven (x * (10 ^ 6 : ℕ)) + 2 * 10 ^ 6 := by
    have hlow' : (⌊x * (10 ^ 6 : ℕ)⌋ : K) ≤ roundHalfEven (x * (10 ^ 6 : ℕ)) := by
      exact_mod_cast hlow
    have hhigh' : (roundHalfEven ((x + span) * (10 ^ 6 : ℕ)) : K) ≤
        ⌊(x + span) * (10 ^ 6 : ℕ)⌋ + 1 := by
      exact_mod_cast hhigh
    push_cast at *
    linarith
  have hint : roundHalfEven ((x + span) * (10 ^ 6 : ℕ)) ≤
      roundHalfEven (x * (10 ^ 6 : ℕ)) + 2 * 10 ^ 6 := by
    exact_mod_cast hreal
  have hrat : (roundHalfEven ((x + span) * (10 ^ 6 : ℕ)) : ℚ) ≤
      roundHalfEven (x * (10 ^ 6 : ℕ)) + 2 * 10 ^ 6 := by
    exact_mod_cast hint
  have hdiv := div_le_div_of_nonneg_right hrat (by positivity : (0 : ℚ) ≤ 10 ^ 6)
  rw [add_div, mul_div_cancel_right₀ _ (by positivity)] at hdiv
  unfold clockTime wholeMicroseconds
  linarith

/-- A velocity burst is thirty trades or more of one symbol within two seconds. -/
def Tight (batch : List (LabeledTrade K)) : Prop :=
  (∃ entry ∈ batch, entry.2 = some AnomalyKind.velocityBurst.value) →
    30 ≤ batch.length ∧ ∀ entry ∈ batch, ∀ other ∈ batch,
      entry.1.symbol = other.1.symbol ∧ other.1.timestamp - 2 ≤ entry.1.timestamp

omit [Field K] [LinearOrder K] [IsStrictOrderedRing K] [FloorRing K] in
theorem tight_of_label {batch : List (LabeledTrade K)} {label : Option String}
    (h : ∀ entry ∈ batch, entry.2 = label)
    (hne : label ≠ some AnomalyKind.velocityBurst.value) : Tight batch := by
  rintro ⟨entry, hentry, hburst⟩
  exact absurd ((h entry hentry).symm.trans hburst) hne

end Tape

section Batch

variable {G : Type} {env : Chance K G} (hexact : ExactClock K) (henv : env.Documented)

include hexact henv

theorem ensures_burst (label : String) (overrides : Overrides K) (n : ℕ)
    (e : K) (state : SymbolState K) :
    Ensures (ShowsTime e) (burst env label overrides n state) (fun result sim =>
      ShowsTime (e + n * (2 / 100)) sim ∧ Timed e (e + n * (2 / 100)) result.1) := by
  induction n generalizing e state with
  | zero => exact Ensures.pure fun sim hsim => by simpa [ShowsTime, Timed.nil] using hsim
  | succ n ih =>
      have hgap : max (burstInterval : K) 0 = 2 / 100 := by
        rw [hexact.interval]
        exact max_eq_left (by norm_num)
      have hsum : e + 2 / 100 + n * (2 / 100) = e + ((n + 1 : ℕ) : K) * (2 / 100) := by
        push_cast
        ring
      unfold burst
      refine (ensures_normal hexact henv e state burstInterval overrides).bind ?_
      rintro ⟨trade, state'⟩
      refine Ensures.assume fun htime => ?_
      have hfirst := (Timed.single htime : Timed e _ [(trade, some label)])
      rw [hgap] at hfirst ⊢
      refine (ih (e + 2 / 100) state').bind ?_
      rintro ⟨rest, state''⟩
      refine Ensures.assume fun hrest => ?_
      rw [hsum] at hrest ⊢
      exact Ensures.pure fun sim hsim => ⟨hsim, hfirst.append hrest⟩

/-- The clock at the end closes the tape, and a velocity burst is tight. -/
def Extends (e : K) (batch : List (LabeledTrade K)) (sim : MarketSimulator K G) : Prop :=
  Timed e sim.elapsed batch ∧ Tight batch

theorem ensures_single (e : K) (state : SymbolState K) (gap : K)
    (overrides : Overrides K) {label : Option String}
    (hne : label ≠ some AnomalyKind.velocityBurst.value) :
    Ensures (ShowsTime e) (do
        let (trade, state) ← normal env state gap overrides
        return ([(trade, label)], state)) (fun result => Extends e result.1) := by
  refine (ensures_normal hexact henv e state gap overrides).bind ?_
  rintro ⟨trade, state'⟩
  refine Ensures.assume fun htime => ?_
  refine Ensures.pure fun sim hsim => ⟨?_, tight_of_label (List.forall_mem_singleton.mpr rfl) hne⟩
  rw [hsim]
  exact Timed.single htime

theorem ensures_burst_extends (label : String) (overrides : Overrides K)
    {n : ℕ} (e : K) (state : SymbolState K)
    (hn : label = AnomalyKind.velocityBurst.value → 30 ≤ n ∧ n ≤ 70) :
    Ensures (ShowsTime e) (burst env label overrides n state)
      (fun result => Extends e result.1) := by
  have huntimed : Untimed (fun _ : MarketSimulator K G => True) := fun _ _ _ _ => trivial
  have hbear : Keeps _ (burst env label overrides n state) _ :=
    keeps_burst huntimed label overrides n state
  have hboth := ((ensures_burst hexact henv label overrides n e state).and
    (burst_returns env label overrides n state).ensures).and
      (hbear.ensures.mono (fun _ _ => trivial) fun _ _ h => h.1)
  refine hboth.mono (fun _ hsim => hsim) ?_
  rintro ⟨batch, state'⟩ sim ⟨⟨⟨hshows, htimed⟩, hlength, hlabel⟩, hsymbol⟩
  refine ⟨hshows ▸ htimed, ?_⟩
  rintro ⟨entry, hentry, hburst⟩
  obtain ⟨hmany, hfew⟩ := hn (Option.some.inj ((hlabel entry hentry).symm.trans hburst))
  refine ⟨hlength ▸ hmany, ?_⟩
  intro first hfirst second hsecond
  refine ⟨(hsymbol first hfirst).trans (hsymbol second hsecond).symm, ?_⟩
  have hspan : (n : K) * (2 / 100) ≤ 14 / 10 := by
    have hcast : (n : K) ≤ 70 := by exact_mod_cast hfew
    linarith
  have hlate := (htimed.between second hsecond).2
  have hearly := (htimed.between first hfirst).1
  have hwide := clockTime_add_le e hspan
  linarith

theorem ensures_anomalous (e : K) (state : SymbolState K) :
    Ensures (ShowsTime e) (anomalous env state) (fun result => Extends e result.1) := by
  have hnow := unseeded_showsTime (G := G) e
  unfold anomalous
  refine (keeps_choice hnow anomalyKinds).followed fun kind _ => ?_
  cases kind with
  | priceSpike =>
      refine (keeps_choice hnow _).followed fun direction _ => ?_
      refine (keeps_draw hnow _).followed fun move _ => ?_
      refine (keeps_normalGap hnow).followed fun gap _ => ?_
      exact ensures_single hexact henv e _ gap _ (by decide)
  | volumeSpike =>
      refine (keeps_draw hnow _).followed fun factor _ => ?_
      refine (keeps_normalGap hnow).followed fun gap _ => ?_
      exact ensures_single hexact henv e state gap _ (by decide)
  | velocityBurst =>
      refine (keeps_draw hnow _).followed fun n _ => ?_
      exact ensures_burst_extends hexact henv _ _ e state fun _ => n.property
  | spoofing =>
      refine (keeps_choice hnow _).followed fun side _ => ?_
      refine (keeps_draw hnow _).followed fun n _ => ?_
      exact ensures_burst_extends hexact henv _ _ e state fun h => absurd h (by decide)
  | washTrade =>
      refine Keeps.get.followed fun sim _ => ?_
      refine (keeps_choice hnow sim.accounts).followed fun account _ => ?_
      refine (keeps_drawSize hnow state).followed fun qty _ => ?_
      refine (keeps_normalGap hnow).followed fun gap _ => ?_
      refine (ensures_normal hexact henv e state gap _).bind ?_
      rintro ⟨buy, state'⟩
      refine Ensures.assume fun hbuy => ?_
      refine (ensures_normal hexact henv _ state' burstInterval _).bind ?_
      rintro ⟨sell, state''⟩
      refine Ensures.assume fun hsell => ?_
      have hlabels : ∀ entry ∈ [(buy, some AnomalyKind.washTrade.value),
          (sell, some AnomalyKind.washTrade.value)],
          entry.2 = some AnomalyKind.washTrade.value := by
        simp
      refine Ensures.pure fun sim hsim => ⟨?_, tight_of_label hlabels (by decide)⟩
      rw [hsim]
      exact (Timed.single hbuy).append (Timed.single hsell)

theorem ensures_nextBatch (e : K) :
    Ensures (ShowsTime e) (nextBatch env) (Extends e) := by
  have hnow := unseeded_showsTime (G := G) e
  unfold nextBatch
  refine Keeps.get.followed fun sim _ => ?_
  refine (keeps_choice hnow sim.states.keys).followed fun symbol _ => ?_
  cases hget : sim.states.get? symbol with
  | none => exact Ensures.throw _ _
  | some state =>
      refine (keeps_draw hnow _).followed fun x _ => ?_
      refine Ensures.bind (Ensures.ite (ensures_anomalous hexact henv e state) ?_) ?_
      · exact (keeps_normalGap hnow).followed fun gap _ =>
          ensures_single hexact henv e state gap {} (by decide)
      · rintro ⟨batch, state'⟩
        dsimp only
        have hkept : ∀ sim : MarketSimulator K G, Extends e batch sim →
            Extends e batch { sim with states := sim.states.set symbol state' } :=
          fun _ hsim => hsim
        refine (Ensures.update hkept).bind fun _ => ?_
        exact Ensures.pure fun s hs => hs

theorem ensures_batches (count : ℤ) (passes total : ℕ) (e : K) :
    Ensures (ShowsTime e) (batches env count passes total) (fun taken sim =>
      Timed e sim.elapsed taken.flatten ∧ ∀ batch ∈ taken, Tight batch) := by
  have hnone : ∀ sim : MarketSimulator K G, ShowsTime e sim →
      Timed e sim.elapsed ([] : List (List (LabeledTrade K))).flatten ∧
        ∀ batch ∈ ([] : List (List (LabeledTrade K))), Tight batch :=
    fun sim hsim => ⟨Timed.nil hsim.ge, by simp⟩
  induction passes generalizing e total with
  | zero => exact Ensures.pure hnone
  | succ passes ih =>
      unfold batches
      refine Ensures.ite ?_ (Ensures.pure hnone)
      refine (ensures_nextBatch hexact henv e).bind fun batch => ?_
      refine Ensures.named fun middle hmiddle => ?_
      have hrest := ih (total + batch.length) middle.elapsed
        (fun sim hsim => ⟨Timed.nil hsim.ge, by simp⟩)
      refine (hrest.mono (fun s hs => congrArg elapsed hs) fun _ _ h => h).bind fun rest => ?_
      refine Ensures.pure fun sim hsim => ⟨?_, List.forall_mem_cons.mpr ⟨hmiddle.2, hsim.2⟩⟩
      rw [List.flatten_cons]
      exact hmiddle.1.append hsim.1

end Batch

end MarketSimulator

section Evaluate

variable {K G M : Type} [Field K] [LinearOrder K] [IsStrictOrderedRing K] [FloorRing K] [PyFloat K]

open DetectionEngine MarketSimulator

omit [IsStrictOrderedRing K] in
theorem MarketSimulator.Timed.symbolOrdered {start finish : K}
    {before after : List (LabeledTrade K)} {entry : LabeledTrade K}
    (h : Timed start finish (before ++ entry :: after)) :
    SymbolOrdered (before.map Prod.fst ++ [entry.1]) := by
  have hordered : (before ++ [entry]).Pairwise
      (fun earlier later => earlier.1.timestamp ≤ later.1.timestamp) := by
    refine h.ordered.sublist ?_
    exact List.Sublist.append_left (List.singleton_sublist.mpr List.mem_cons_self) _
  have htrades : SymbolOrdered ((before ++ [entry]).map Prod.fst) := by
    refine List.pairwise_map.mpr (hordered.imp ?_)
    intro a b hle _
    exact hle
  rwa [List.map_append] at htrades

omit [Field K] [LinearOrder K] [IsStrictOrderedRing K] [FloorRing K] in
/-- At its last trade a burst lies in every span of two seconds or more. -/
theorem MarketSimulator.Tight.le_inSpan {earlier burst : List (LabeledTrade K)} {last : Trade K}
    (htight : Tight (burst ++ [(last, some AnomalyKind.velocityBurst.value)]))
    (hordered : (burst ++ [(last, some AnomalyKind.velocityBurst.value)]).Pairwise
      (fun earlier later => earlier.1.timestamp ≤ later.1.timestamp))
    {span : ℚ} (hspan : 2 ≤ span) :
    30 ≤ inSpan ((earlier ++ burst).map Prod.fst ++ [last]) last span := by
  let batch := burst ++ [(last, some AnomalyKind.velocityBurst.value)]
  obtain ⟨hmany, hclose⟩ := htight ⟨_, List.mem_append_right _ List.mem_cons_self, rfl⟩
  have hcounted : ∀ trade ∈ batch.map Prod.fst, trade.symbol = last.symbol ∧
      last.timestamp - span ≤ trade.timestamp ∧ trade.timestamp ≤ last.timestamp := by
    intro trade htrade
    obtain ⟨entry, hentry, rfl⟩ := List.mem_map.mp htrade
    obtain ⟨hsymbol, hlate⟩ := hclose entry hentry _
      (List.mem_append_right _ List.mem_cons_self)
    refine ⟨hsymbol, by linarith, ?_⟩
    rcases List.mem_append.mp hentry with hin | hin
    · exact (List.pairwise_append.mp hordered).2.2 entry hin _ List.mem_cons_self
    · rw [List.mem_singleton.mp hin]
  have hsplit : (earlier ++ burst).map Prod.fst ++ [last] =
      earlier.map Prod.fst ++ batch.map Prod.fst := by
    simp [batch]
  have hall : (batch.map Prod.fst).countP (fun t => t.symbol = last.symbol ∧
      last.timestamp - span ≤ t.timestamp ∧ t.timestamp ≤ last.timestamp) = batch.length := by
    rw [List.countP_eq_length.mpr fun trade htrade => decide_eq_true (hcounted trade htrade),
      List.length_map]
  rw [inSpan, hsplit, List.countP_append, hall]
  exact hmany.trans (Nat.le_add_left _ _)

/-- Whatever the generator draws, an injected burst that the tape holds whole is found
flagged at its last trade, unless that trade follows, by less than the cooldown, an alert
of its kind on its symbol. -/
theorem injected_bursts_found (hexact : ExactClock K) {env : Chance K G}
    (henv : env.Documented) (sklearn : SkLearn K M) (config : DetectionConfig K) (trades : ℤ)
    (anomalyRate : K) (rng : G) (symbols : Option (List String))
    (henabled : config.velocity.enabled = true) (hlimit : 1 ≤ config.velocity.maxTrades)
    (hfew : config.velocity.maxTrades ≤ 30)
    (hfits : config.velocity.maxTrades ≤ config.window.maxTrades)
    (hwide : 2 ≤ config.velocity.windowSeconds)
    (hspan : config.velocity.windowSeconds ≤ config.window.horizonSeconds) {report : EvalReport}
    (hreport : evaluate env sklearn config trades anomalyRate rng symbols = .ok report) :
    ∃ taken records sim,
      batches env trades trades.toNat 0
          (MarketSimulator.init env (evalSymbols symbols) anomalyRate rng) = .ok (taken, sim) ∧
        report = score records ∧
        records.map Prod.fst = (taken.flatten.take trades.toNat).map Prod.snd ∧
        ∀ earlier burst last later,
          taken = earlier ++ (burst ++ [(last, some AnomalyKind.velocityBurst.value)]) :: later →
          (earlier.flatten ++ burst).length < trades.toNat →
            records[(earlier.flatten ++ burst).length]? =
                some (some AnomalyKind.velocityBurst.value, true) ∨
              0 < config.alertCooldownSeconds ∧ ∃ entry ∈ emissions
                  (trace watch (DetectionEngine.init sklearn config)
                    ((earlier.flatten ++ burst).map Prod.fst))
                  last.symbol VelocityDetector.name,
                last.timestamp - config.alertCooldownSeconds < eventTime entry := by
  unfold evaluate at hreport
  obtain ⟨⟨tape, sim⟩, htape, hreport⟩ := exists_of_bind_eq_ok hreport
  obtain ⟨⟨records, final⟩, hrecords, hreport⟩ := exists_of_bind_eq_ok hreport
  obtain rfl : score records = report := Except.ok.inj hreport
  rw [labeledBatch_apply] at htape
  cases hbatches : batches env trades trades.toNat 0
      (MarketSimulator.init env (evalSymbols symbols) anomalyRate rng) with
  | error err =>
      rw [hbatches] at htape
      cases htape
  | ok result =>
      obtain ⟨taken, sim'⟩ := result
      rw [hbatches] at htape
      obtain ⟨rfl, rfl⟩ := Prod.mk.inj (Except.ok.inj htape)
      rw [flatten_cut] at hrecords
      obtain ⟨htimed, htight⟩ := ensures_batches hexact henv trades trades.toNat 0 _ _ _
        rfl hbatches
      refine ⟨taken, records, sim', rfl, rfl, recordTape_labels hrecords, ?_⟩
      rintro earlier burst last later rfl hlength
      let before := earlier.flatten ++ burst
      let entry : LabeledTrade K := (last, some AnomalyKind.velocityBurst.value)
      have hflat : (earlier ++ (burst ++ [entry]) :: later).flatten =
          before ++ entry :: later.flatten := by
        simp [before]
      have hcut : (before ++ entry :: later.flatten).take trades.toNat =
          before ++ entry :: later.flatten.take (trades.toNat - before.length - 1) := by
        obtain ⟨left, hleft⟩ := Nat.exists_eq_add_of_lt hlength
        rw [List.take_append, List.take_of_length_le hlength.le]
        congr 1
        rw [hleft, Nat.add_assoc, Nat.add_sub_cancel_left, List.take_succ_cons,
          Nat.add_sub_cancel]
      dsimp only at htimed htight
      rw [hflat] at htimed hrecords
      rw [hcut] at hrecords
      have hburst := htight (burst ++ [entry]) (List.mem_append_right _ List.mem_cons_self)
      have hwithin : burst ++ [entry] <:+: before ++ entry :: later.flatten :=
        ⟨earlier.flatten, later.flatten, by simp [before]⟩
      have hmany : 30 ≤ inSpan (before.map Prod.fst ++ [last]) last
          config.velocity.windowSeconds :=
        hburst.le_inSpan (htimed.ordered.sublist hwithin.sublist) hwide
      have hcount : config.velocity.maxTrades ≤ inSpan (before.map Prod.fst ++ [last]) last
          config.velocity.windowSeconds := by omega
      obtain ⟨alert, hanswer⟩ := (velocity_fires_iff sklearn config henabled hlimit hfits
        (by linarith) hspan (before.map Prod.fst) last htimed.symbolOrdered).mpr hcount
      rcases alerted_or_recent sklearn config (before.map Prod.fst) last hanswer with
        halerted | hrecent
      · left
        rw [recordTape_getElem? hrecords]
        simp [halerted]
      · exact Or.inr hrecent

/-- Of several things the third is chosen, so that an anomaly is a burst. -/
def burstChance : Chance ℚ Unit :=
  { steadyChance with
    timedelta := calendar
    choice := fun n h _ => (if hthird : 2 < n then ⟨2, hthird⟩ else ⟨0, h⟩, ()) }

/-- The velocity detector on its own, with the cooldown off. -/
def onlyVelocity : DetectionConfig ℚ :=
  { DetectionConfig.only {} .velocity with alertCooldownSeconds := 0 }

/-- One injected burst of thirty trades. -/
theorem injected_bursts_found_one :
    ∃ report records burst last sim,
      evaluate burstChance SkLearn.missing onlyVelocity 30 1 () (some ["ACME"]) = .ok report ∧
        report = score records ∧
        batches burstChance 30 30 0 (MarketSimulator.init burstChance ["ACME"] 1 ()) =
          .ok ([burst ++ [(last, some AnomalyKind.velocityBurst.value)]], sim) ∧
        burst.length = 29 ∧ records[29]? = some (some AnomalyKind.velocityBurst.value, true) := by
  have hok : (evaluate burstChance SkLearn.missing onlyVelocity 30 1 ()
      (some ["ACME"])).isOk = true := by
    decide +kernel
  have hlabels : (batches burstChance 30 30 0
      (MarketSimulator.init burstChance ["ACME"] 1 ())).map
        (fun result => result.1.map (·.map Prod.snd)) =
      .ok [List.replicate 29 (some AnomalyKind.velocityBurst.value) ++
        [some AnomalyKind.velocityBurst.value]] := by
    decide +kernel
  cases hreport : evaluate burstChance SkLearn.missing onlyVelocity 30 1 () (some ["ACME"]) with
  | error err =>
      rw [hreport] at hok
      cases hok
  | ok report =>
      obtain ⟨taken, records, sim, hbatches, hscore, _, hfound⟩ :=
        injected_bursts_found exactClock_rat ⟨fun _ _ _ h => ⟨le_rfl, h⟩, rfl⟩ SkLearn.missing
          onlyVelocity 30 1 () (some ["ACME"]) rfl (by decide) (by decide) (by decide)
          (by decide +kernel) (by decide +kernel) hreport
      have hsame : batches burstChance 30 30 0
          (MarketSimulator.init burstChance ["ACME"] 1 ()) = .ok (taken, sim) := hbatches
      rw [hsame] at hlabels
      obtain ⟨batch, rfl, hbatch⟩ := List.map_eq_singleton_iff.mp (Except.ok.inj hlabels)
      obtain ⟨burst, rest, rfl, hburst, hrest⟩ := List.map_eq_append_iff.mp hbatch
      obtain ⟨⟨last, label⟩, rfl, hlabel⟩ := List.map_eq_singleton_iff.mp hrest
      obtain rfl : label = some AnomalyKind.velocityBurst.value := hlabel
      have hlength : burst.length = 29 := by
        rw [← List.length_map Prod.snd, hburst, List.length_replicate]
      have hcomplete : (([] : List (List (LabeledTrade ℚ))).flatten ++ burst).length <
          (30 : ℤ).toNat := by
        rw [List.flatten_nil, List.nil_append, hlength]
        decide
      rcases hfound [] burst last [] rfl hcomplete with hflag | ⟨hon, _⟩
      · rw [List.flatten_nil, List.nil_append, hlength] at hflag
        exact ⟨report, records, burst, last, sim, rfl, hscore, hsame, hlength, hflag⟩
      · exact absurd hon (by decide +kernel)

end Evaluate

end TradeWatch
