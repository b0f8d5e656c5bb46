import TradeWatch.Api.Containment
import TradeWatch.Isolation

/-!
Scaling out. The topic is partitioned by symbol and each partition set has an
engine of its own. Two engines are the same at a symbol when they agree on
everything that a trade of the symbol can see; a trade of the symbol moves both
alike, a trade of another symbol moves neither there. So the engines of the
partitions return together what one engine returns that sees the whole flow, and
what they count adds up to what it counts.
-/

namespace TradeWatch

open PyFloat Transducer

/-- A detector for which treating a symbol alike is mutual. -/
class PartitionedDetector (D : Type) (F : outParam Type) [PyFloat F] [Detector D F]
    extends IsolatedDetector D F where
  sameFor_refl : ∀ (symbol : String) (d : D), SameFor symbol d d
  sameFor_symm : ∀ {symbol : String} {d d' : D}, SameFor symbol d d' → SameFor symbol d' d

theorem IsolationForestDetector.SameFor.symm {F M : Type} [PyFloat F] {symbol : String}
    {d d' : IsolationForestDetector F M} (h : SameFor symbol d d') : SameFor symbol d' d :=
  ⟨h.sklearn.symm, h.cfg.symm, h.minTrades.symm, h.buffer.symm, h.model.symm, h.since.symm⟩

instance {F M : Type} [PyFloat F] : PartitionedDetector (ShippedDetector F M) F where
  sameFor_refl _ d := .same d
  sameFor_symm h := by
    cases h with
    | same => exact .same _
    | forest h => exact .forest h.symm

namespace DetectionEngine

/-- A number that `stats` reports. -/
inductive Gauge
  | tradesProcessed
  | alertsRaised
  | alertsSuppressed
  | symbolsTracked
  | byDetector (key : String)
  | bySeverity (key : String)

section Engines

variable {D F : Type} [PyFloat F] [Detector D F]

def read (e : DetectionEngine D F) : Gauge → ℕ
  | .tradesProcessed => e.stats.tradesProcessed
  | .alertsRaised => e.stats.alertsRaised
  | .alertsSuppressed => e.stats.alertsSuppressed
  | .symbolsTracked => e.stats.symbolsTracked
  | .byDetector key => Counter.count e.stats.alertsByDetector key
  | .bySeverity key => Counter.count e.stats.alertsBySeverity key

/-- On the way to `e'` every gauge of `e` has moved by as much as that of `f` on
the way to `f'`. -/
def MovedAlike (e e' f f' : DetectionEngine D F) : Prop :=
  ∀ gauge, e'.read gauge + f.read gauge = e.read gauge + f'.read gauge

theorem MovedAlike.refl (e f : DetectionEngine D F) : MovedAlike e e f f := fun _ => rfl

theorem MovedAlike.trans {e e' e'' f f' f'' : DetectionEngine D F} (h : MovedAlike e e' f f')
    (h' : MovedAlike e' e'' f' f'') : MovedAlike e e'' f f'' := by
  intro gauge
  have hfirst := h gauge
  have hsecond := h' gauge
  omega

/-- Agreement on when the alerts of a symbol last went out. -/
structure AlikeFor (symbol : String) (e f : DetectionEngine D F) : Prop where
  cooldown : e.cooldown = f.cooldown
  last : ∀ name, e.lastAlertTs.get? (symbol, name) = f.lastAlertTs.get? (symbol, name)

section Turns

variable {trade : Trade F} {name : String} {answer : Answer F} {hit hit' : Option (Alert F)}
  {e e' f f' : DetectionEngine D F}

/-- One turn of the loop, on the same answer. -/
theorem Turn.alike (h : Turn e trade name answer hit e') (h' : Turn f trade name answer hit' f')
    (halike : AlikeFor trade.symbol e f) :
    hit = hit' ∧ AlikeFor trade.symbol e' f' ∧ MovedAlike e e' f f' := by
  have hwithin := withinCooldown_congr halike.cooldown (halike.last name) trade
  have hhit : hit = hit' := by
    rw [h.hit_eq, h'.hit_eq, due_congr halike.cooldown (halike.last name)]
  refine ⟨hhit, ⟨?_, ?_⟩, ?_⟩
  · rw [h.frame.cooldown, h'.frame.cooldown, halike.cooldown]
  · intro other
    rw [h.lastAlertTs_get?, h'.lastAlertTs_get?, halike.cooldown, hhit, halike.last other]
  · intro gauge
    cases h with
    | raised err =>
        cases h'
        cases gauge <;> simp only [read, stats, Counter.count_incr]
        omega
    | silent =>
        cases h'
        rfl
    | suppressed alert hon =>
        cases h' with
        | suppressed _ hon' =>
            cases gauge <;> simp only [read, stats]
            omega
        | returned _ hoff' =>
            rw [hwithin, hoff'] at hon
            cases hon
    | returned alert hoff =>
        cases h' with
        | suppressed _ hon' =>
            rw [hwithin, hon'] at hoff
            cases hoff
        | returned _ hoff' =>
            cases gauge <;> simp only [read, stats, Counter.count_incr]
            all_goals omega

end Turns

section Loop

variable [IsolatedDetector D F] (trade : Trade F) (window : SymbolWindow F)

/-- The loop over detectors that treat the symbol alike. -/
theorem inspectAll_alike {detectors detectors' : List D}
    (hsame : List.Forall₂ (IsolatedDetector.SameFor trade.symbol) detectors detectors')
    {e f : DetectionEngine D F} (halike : AlikeFor trade.symbol e f) :
    (inspectAll trade window detectors e).1 = (inspectAll trade window detectors' f).1 ∧
      List.Forall₂ (IsolatedDetector.SameFor trade.symbol)
        (inspectAll trade window detectors e).2.1 (inspectAll trade window detectors' f).2.1 ∧
      AlikeFor trade.symbol (inspectAll trade window detectors e).2.2
        (inspectAll trade window detectors' f).2.2 ∧
      MovedAlike e (inspectAll trade window detectors e).2.2 f
        (inspectAll trade window detectors' f).2.2 := by
  induction hsame generalizing e f with
  | nil => exact ⟨rfl, .nil, halike, .refl e f⟩
  | @cons d d' rest rest' hd hrest ih =>
      obtain ⟨hanswer, hnext⟩ := IsolatedDetector.inspect_same trade window hd
      have hturn := e.inspectOne_turn trade window d
      have hturn' := f.inspectOne_turn trade window d'
      rw [← hanswer, ← IsolatedDetector.sameFor_name hd] at hturn'
      obtain ⟨hhit, hbetween, hmoved⟩ := hturn.alike hturn' halike
      obtain ⟨halerts, hdetectors, hafter, hrestMoved⟩ := ih hbetween
      rw [inspectAll_cons, inspectAll_cons]
      refine ⟨?_, ?_, hafter, hmoved.trans hrestMoved⟩
      · simp only [hhit, halerts]
      · simp only [inspectOne_detector]
        exact .cons hnext hdetectors

omit [IsolatedDetector D F] in
/-- The loop is about the symbol of its trade alone. -/
theorem inspectAll_last_other {symbol : String} (hne : symbol ≠ trade.symbol) (name : String)
    (detectors : List D) (e : DetectionEngine D F) :
    (inspectAll trade window detectors e).2.2.lastAlertTs.get? (symbol, name) =
      e.lastAlertTs.get? (symbol, name) := by
  induction detectors generalizing e with
  | nil => rfl
  | cons d rest ih =>
      rw [inspectAll_cons]
      refine (ih _).trans ?_
      rw [(e.inspectOne_turn trade window d).lastAlertTs_get?, if_neg]
      rintro ⟨_, hkey, _⟩
      exact hne (Prod.mk.inj hkey).1

end Loop

/-- Agreement of two engines on everything that a trade of the symbol can see. -/
structure SameAt [IsolatedDetector D F] (symbol : String) (e f : DetectionEngine D F) : Prop
    extends AlikeFor symbol e f where
  window : e.windows.windows.get? symbol = f.windows.windows.get? symbol
  maxTrades : e.windows.maxTrades = f.windows.maxTrades
  horizon : e.windows.horizon = f.windows.horizon
  detectors : List.Forall₂ (IsolatedDetector.SameFor symbol) e.detectors f.detectors

/-- What a call leaves in the registry of windows. -/
theorem process_registry (e : DetectionEngine D F) (trade : Trade F) :
    (∀ symbol, (e.process trade).2.windows.windows.get? symbol =
        if symbol = trade.symbol then some (e.windowAfter trade)
        else e.windows.windows.get? symbol) ∧
      (e.process trade).2.windows.maxTrades = e.windows.maxTrades ∧
      (e.process trade).2.windows.horizon = e.windows.horizon := by
  have hstore : (e.process trade).2.windows =
      (e.windows.get trade.symbol).2.write trade.symbol (e.windowAfter trade) := by
    rcases hadd : ((e.windows.window trade.symbol).add trade).1 with err | ⟨⟩
    · rw [process_of_error e trade hadd]
    · rw [process_of_ok e trade hadd]
      exact (inspectAll_frame trade (e.windowAfter trade) e.detectors (e.ingest trade)).windows
  rw [hstore]
  unfold WindowStore.get WindowStore.write
  cases hget : e.windows.windows.get? trade.symbol with
  | some win => exact ⟨fun symbol => OrderedDict.get?_set _ _ _ _, rfl, rfl⟩
  | none =>
      refine ⟨fun symbol => ?_, rfl, rfl⟩
      by_cases hsymbol : symbol = trade.symbol
      · rw [OrderedDict.get?_set, if_pos hsymbol, if_pos hsymbol]
      · rw [OrderedDict.get?_set, if_neg hsymbol, OrderedDict.get?_set, if_neg hsymbol,
          if_neg hsymbol]

section Steps

variable [PartitionedDetector D F] {e f : DetectionEngine D F} {symbol : String} {trade : Trade F}

theorem SameAt.refl (symbol : String) (e : DetectionEngine D F) : SameAt symbol e e where
  cooldown := rfl
  last _ := rfl
  window := rfl
  maxTrades := rfl
  horizon := rfl
  detectors := List.forall₂_same.mpr (fun d _ => PartitionedDetector.sameFor_refl symbol d)

theorem SameAt.symm (h : SameAt symbol e f) : SameAt symbol f e where
  cooldown := h.cooldown.symm
  last name := (h.last name).symm
  window := h.window.symm
  maxTrades := h.maxTrades.symm
  horizon := h.horizon.symm
  detectors := h.detectors.flip.imp (fun _ _ => PartitionedDetector.sameFor_symm)

/-- The window that a trade of the symbol finds. -/
theorem SameAt.window_eq (h : SameAt symbol e f) :
    e.windows.window symbol = f.windows.window symbol := by
  simp only [WindowStore.window, h.window, h.maxTrades, h.horizon]

/-- A trade of another symbol is not noticed. -/
theorem SameAt.step_other (h : SameAt symbol e f) (hne : trade.symbol ≠ symbol) :
    SameAt symbol (e.process trade).2 f := by
  obtain ⟨hget, hmax, hhorizon⟩ := e.process_registry trade
  refine ⟨⟨?_, ?_⟩, ?_, ?_, ?_, ?_⟩
  · rw [process_cooldown, h.cooldown]
  · intro name
    rw [← h.last name]
    rcases hadd : ((e.windows.window trade.symbol).add trade).1 with err | ⟨⟩
    · rw [process_of_error e trade hadd]
    · rw [process_of_ok e trade hadd]
      exact inspectAll_last_other trade (e.windowAfter trade) hne.symm name e.detectors
        (e.ingest trade)
  · rw [hget, if_neg hne.symm, h.window]
  · rw [hmax, h.maxTrades]
  · rw [hhorizon, h.horizon]
  · rcases hadd : ((e.windows.window trade.symbol).add trade).1 with err | ⟨⟩
    · rw [process_of_error e trade hadd]
      exact h.detectors
    · rw [process_detectors_of_ok e trade hadd, List.forall₂_map_left_iff]
      exact h.detectors.imp (fun _ _ hd => IsolatedDetector.inspect_other trade _ hd hne)

/-- A trade of the symbol: the same answer, the same movement of every gauge, and
still the same. -/
theorem SameAt.step_same (h : SameAt trade.symbol e f) :
    (e.process trade).1 = (f.process trade).1 ∧
      SameAt trade.symbol (e.process trade).2 (f.process trade).2 ∧
      MovedAlike e (e.process trade).2 f (f.process trade).2 := by
  have hafter : e.windowAfter trade = f.windowAfter trade := by
    rw [windowAfter, windowAfter, h.window_eq]
  have hregistry : (e.process trade).2.windows.windows.get? trade.symbol =
        (f.process trade).2.windows.windows.get? trade.symbol ∧
      (e.process trade).2.windows.maxTrades = (f.process trade).2.windows.maxTrades ∧
      (e.process trade).2.windows.horizon = (f.process trade).2.windows.horizon := by
    obtain ⟨hget, hmax, hhorizon⟩ := e.process_registry trade
    obtain ⟨hget', hmax', hhorizon'⟩ := f.process_registry trade
    refine ⟨?_, ?_, ?_⟩
    · rw [hget, hget', if_pos rfl, if_pos rfl, hafter]
    · rw [hmax, hmax', h.maxTrades]
    · rw [hhorizon, hhorizon', h.horizon]
  have htracked : (e.process trade).2.read .symbolsTracked + f.read .symbolsTracked =
      e.read .symbolsTracked + (f.process trade).2.read .symbolsTracked := by
    have hknown : trade.symbol ∈ e.windows.symbols ↔ trade.symbol ∈ f.windows.symbols := by
      simp only [WindowStore.symbols, ← not_iff_not, ← OrderedDict.get?_eq_none_iff, h.window]
    simp only [read, stats, process_symbols_length, hknown]
    split_ifs <;> omega
  rcases hadd : ((e.windows.window trade.symbol).add trade).1 with err | ⟨⟩
  · have hadd' : ((f.windows.window trade.symbol).add trade).1 = .error err := by
      rw [← h.window_eq, hadd]
    rw [process_of_error e trade hadd, process_of_error f trade hadd'] at hregistry htracked ⊢
    refine ⟨rfl, ⟨⟨h.cooldown, h.last⟩, hregistry.1, hregistry.2.1, hregistry.2.2, h.detectors⟩, ?_⟩
    intro gauge
    cases gauge with
    | symbolsTracked => exact htracked
    | _ => rfl
  · have hadd' : ((f.windows.window trade.symbol).add trade).1 = .ok () := by
      rw [← h.window_eq, hadd]
    have hingested : AlikeFor trade.symbol (e.ingest trade) (f.ingest trade) :=
      ⟨h.cooldown, h.last⟩
    obtain ⟨halerts, hdetectors, halike, hmoved⟩ :=
      inspectAll_alike trade (e.windowAfter trade) h.detectors hingested
    rw [hafter] at hdetectors halike hmoved halerts
    rw [process_of_ok e trade hadd, process_of_ok f trade hadd'] at hregistry htracked ⊢
    rw [hafter] at hregistry htracked ⊢
    refine ⟨?_, ⟨⟨halike.cooldown, halike.last⟩, hregistry.1, hregistry.2.1, hregistry.2.2,
      hdetectors⟩, ?_⟩
    · simp only [halerts]
    · intro gauge
      have hloop := hmoved gauge
      cases gauge with
      | symbolsTracked => exact htracked
      | tradesProcessed =>
          simp only [read, stats, ingest] at hloop ⊢
          omega
      | _ => exact hloop

end Steps

section Runs

variable [PartitionedDetector D F] {κ : Type} [Fintype κ] [DecidableEq κ] {route : String → κ}

/-- The trades of one partition set. -/
def partition (route : String → κ) (k : κ) (trades : List (Trade F)) : List (Trade F) :=
  trades.filter (fun trade => route trade.symbol = k)

/-- The engines of the partition sets stand together for one engine. -/
structure Composed (route : String → κ) (e : DetectionEngine D F)
    (parts : κ → DetectionEngine D F) : Prop where
  same : ∀ symbol, SameAt symbol e (parts (route symbol))
  gauges : ∀ gauge, e.read gauge = ∑ k, (parts k).read gauge

/-- One trade, which only the engine of its own partition set is given. -/
theorem Composed.step {e : DetectionEngine D F} {parts : κ → DetectionEngine D F}
    (h : Composed route e parts) (trade : Trade F) :
    (e.process trade).1 = ((parts (route trade.symbol)).process trade).1 ∧
      Composed route (e.process trade).2
        (Function.update parts (route trade.symbol)
          ((parts (route trade.symbol)).process trade).2) := by
  obtain ⟨hanswer, hsame, hmoved⟩ := (h.same trade.symbol).step_same
  refine ⟨hanswer, ?_, ?_⟩
  · intro symbol
    rcases eq_or_ne symbol trade.symbol with rfl | hsymbol
    · rw [Function.update_self]
      exact hsame
    · have hmine := (h.same symbol).step_other hsymbol.symm
      by_cases hroute : route symbol = route trade.symbol
      · rw [hroute, Function.update_self]
        rw [hroute] at hmine
        exact (hmine.symm.step_other hsymbol.symm).symm
      · rw [Function.update_of_ne hroute]
        exact hmine
  · intro gauge
    have htotal := h.gauges gauge
    have hmove := hmoved gauge
    rw [← Finset.add_sum_erase _ _ (Finset.mem_univ (route trade.symbol))] at htotal ⊢
    have hrest : ∑ k ∈ Finset.univ.erase (route trade.symbol),
          (Function.update parts (route trade.symbol)
            ((parts (route trade.symbol)).process trade).2 k).read gauge =
        ∑ k ∈ Finset.univ.erase (route trade.symbol), (parts k).read gauge := by
      apply Finset.sum_congr rfl
      intro k hk
      rw [Function.update_of_ne (Finset.ne_of_mem_erase hk)]
    rw [hrest, Function.update_self]
    omega

/-- The whole flow: every partition set answers its own trades as the one engine
does, and in the end the gauges add up. -/
theorem Composed.run {e : DetectionEngine D F} {parts : κ → DetectionEngine D F}
    (h : Composed route e parts) (trades : List (Trade F)) :
    (∀ k, (trace process e trades).filter (fun entry => route entry.1.symbol = k) =
        trace process (parts k) (partition route k trades)) ∧
      Composed route (final process e trades)
        (fun k => final process (parts k) (partition route k trades)) := by
  induction trades generalizing e parts with
  | nil => exact ⟨fun _ => rfl, h⟩
  | cons trade rest ih =>
      obtain ⟨hanswer, hstep⟩ := h.step trade
      obtain ⟨htrace, hfinal⟩ := ih hstep
      have hpart : ∀ k, final process (Function.update parts (route trade.symbol)
            ((parts (route trade.symbol)).process trade).2 k) (partition route k rest) =
          final process (parts k) (partition route k (trade :: rest)) := by
        intro k
        by_cases hroute : route trade.symbol = k
        · subst hroute
          simp [partition]
        · simp [partition, hroute, Function.update_of_ne (Ne.symm hroute)]
      refine ⟨?_, ?_⟩
      · intro k
        have hk := htrace k
        by_cases hroute : route trade.symbol = k
        · subst hroute
          rw [Function.update_self] at hk
          simp [partition, hanswer, hk]
        · rw [Function.update_of_ne (Ne.symm hroute)] at hk
          simp [partition, hroute, hk]
      · simpa only [final_cons, hpart] using hfinal

end Runs

end Engines

section Shipped

variable {F M : Type} [PyFloat F] (sklearn : SkLearn F M) (cfg : DetectionConfig F)
  {κ : Type} [Fintype κ] [DecidableEq κ]

omit [DecidableEq κ] in
/-- Engines that are new stand together for a new one. -/
theorem composed_init (route : String → κ) :
    Composed route (init sklearn cfg) (fun _ : κ => init sklearn cfg) := by
  refine ⟨fun symbol => .refl symbol _, fun gauge => ?_⟩
  have hzero : (init sklearn cfg).read gauge = 0 := by
    cases gauge <;> rfl
  simp [hzero]

/-- Partitioning by symbol is sound. However symbols are assigned to partition sets
and however the partitions are interleaved, an engine for every partition set
returns on each trade what one engine for everything returns, and what `stats`
counts there adds up to what it counts here. -/
theorem partitions_agree (route : String → κ) (trades : List (Trade F)) :
    (∀ k, (trace process (init sklearn cfg) trades).filter
          (fun entry => route entry.1.symbol = k) =
        trace process (init sklearn cfg) (partition route k trades)) ∧
      ∀ gauge, (final process (init sklearn cfg) trades).read gauge =
        ∑ k, (final process (init sklearn cfg) (partition route k trades)).read gauge := by
  obtain ⟨htrace, hfinal⟩ := (composed_init sklearn cfg route).run trades
  exact ⟨htrace, hfinal.gauges⟩

end Shipped

end DetectionEngine

end TradeWatch
