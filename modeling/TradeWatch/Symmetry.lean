import TradeWatch.Engine
import TradeWatch.Lib.Transducer

/-!
What detection does not depend on: the origin of time, and which of the two
sides is called the buy. Moving every timestamp by one constant, or swapping the
sides, commutes with each operation of the engine. What an alert says in its
reason and details may name the side, so answers are compared by detector,
severity and score.
-/

namespace TradeWatch

open PyFloat Transducer

def Side.opposite : Side → Side
  | .buy => .sell
  | .sell => .buy

/-- Replaying a tape later (or earlier), or mirroring it. -/
inductive Symmetry
  | replay (later : ℚ)
  | mirror

namespace Symmetry

def instant : Symmetry → ℚ → ℚ
  | replay later, ts => ts + later
  | mirror, ts => ts

def side : Symmetry → Side → Side
  | replay _, side => side
  | mirror, side => side.opposite

/-- The numbers of buys and sells. -/
def counts : Symmetry → ℕ × ℕ → ℕ × ℕ
  | replay _, counts => counts
  | mirror, counts => counts.swap

variable (s : Symmetry)

/-- Only the time between two instants is kept. -/
theorem instant_sub (a b : ℚ) : s.instant a - s.instant b = a - b := by
  cases s with
  | replay later => exact add_sub_add_right_eq_sub a b later
  | mirror => rfl

theorem cutoff_le_instant (now seconds ts : ℚ) :
    s.instant now - seconds ≤ s.instant ts ↔ now - seconds ≤ ts := by
  have hsub := s.instant_sub now ts
  constructor <;> intro h <;> linarith

theorem side_inj (a b : Side) : s.side a = s.side b ↔ a = b := by
  cases s with
  | replay later => rfl
  | mirror => cases a <;> cases b <;> decide

end Symmetry

variable {F : Type} [PyFloat F]

@[simps]
def Trade.under (trade : Trade F) (s : Symmetry) : Trade F :=
  { trade with
    timestamp := s.instant trade.timestamp
    side := s.side trade.side }

section Trade

variable (s : Symmetry) (trade : Trade F)

@[simp] theorem Trade.under_notional : (trade.under s).notional = trade.notional := by
  simp [Trade.notional]

@[simp] theorem Alert.build_under (detector : String) (severity : Severity) (score : F)
    (reason : String) (details : List (String × Detail F)) :
    Alert.build (trade.under s) detector severity score reason details =
      Alert.build trade detector severity score reason details := by
  simp [Alert.build]

end Trade

namespace SymbolWindow

def under (w : SymbolWindow F) (s : Symmetry) : SymbolWindow F :=
  { w with trades := w.trades.map (·.under s) }

section Under

variable (s : Symmetry) (w : SymbolWindow F)

theorem popWhileOver_under (maxTrades : ℤ) (trades : List (Trade F)) :
    popWhileOver maxTrades (trades.map (·.under s)) =
      (popWhileOver maxTrades trades).map (List.map (·.under s)) := by
  induction trades with
  | nil =>
      simp only [List.map_nil, popWhileOver]
      split <;> rfl
  | cons trade rest ih =>
      simp only [List.map_cons, popWhileOver, List.length_cons, List.length_map, ih]
      split <;> rfl

theorem add_under (trade : Trade F) :
    (w.under s).add (trade.under s) = ((w.add trade).1, (w.add trade).2.under s) := by
  have hpop := popWhileOver_under s w.maxTrades (w.trades ++ [trade])
  rw [List.map_append] at hpop
  unfold add evict
  simp only [under, List.map_cons, List.map_nil, EventTime.timestamp_exact,
    popWhileOlder_exact] at hpop ⊢
  rw [hpop]
  rcases popWhileOver w.maxTrades (w.trades ++ [trade]) with err | kept
  · rfl
  · have hdrop : (kept.map (·.under s)).dropWhile
          (fun t => t.timestamp < (trade.under s).timestamp - w.horizonSeconds) =
        (kept.dropWhile (fun t => t.timestamp < trade.timestamp - w.horizonSeconds)).map
          (·.under s) := by
      rw [List.dropWhile_map]
      congr 2
      funext t
      have hage := s.cutoff_le_instant trade.timestamp w.horizonSeconds t.timestamp
      simp only [Function.comp_apply, Trade.under_timestamp]
      exact decide_eq_decide.mpr (by rw [← not_le, hage, not_le])
    exact congrArg (fun trades => (Except.ok (), { w with trades := trades })) hdrop

@[simp] theorem ready_under (minTrades : ℤ) :
    (w.under s).ready minTrades = w.ready minTrades := by
  simp [ready, under]

@[simp] theorem prices_under (excludeLast : Bool) :
    (w.under s).prices excludeLast = w.prices excludeLast := by
  simp [prices, under, Function.comp_def]

@[simp] theorem priceMeanStd_under (excludeLast : Bool) :
    (w.under s).priceMeanStd excludeLast = w.priceMeanStd excludeLast := by
  simp [priceMeanStd]

@[simp] theorem volumeMeanStd_under (excludeLast : Bool) :
    (w.under s).volumeMeanStd excludeLast = w.volumeMeanStd excludeLast := by
  simp [volumeMeanStd, under, Function.comp_def]

@[simp] theorem volumeMedian_under (excludeLast : Bool) :
    (w.under s).volumeMedian excludeLast = w.volumeMedian excludeLast := by
  simp [volumeMedian, under, Function.comp_def]

@[simp] theorem previousPrice_under : (w.under s).previousPrice = w.previousPrice := by
  simp [previousPrice, under, Function.comp_def]

theorem recent_under (seconds : ℚ) (nowTs : Option ℚ) :
    (w.under s).recent seconds (nowTs.map s.instant) =
      (w.recent seconds nowTs).map (List.map (·.under s)) := by
  have hreaching : ∀ ref, (w.under s).reaching (s.instant ref) seconds =
      (w.reaching ref seconds).map (·.under s) := by
    intro ref
    simp only [reaching, under, List.filter_map]
    congr 2
    funext t
    simp only [Function.comp_apply, EventTime.reaches_exact, Trade.under_timestamp,
      s.cutoff_le_instant]
  unfold recent
  cases hlast : w.trades.getLast? with
  | none => simp [under, hlast, Except.map]
  | some newest =>
      have hunder : (w.under s).trades.getLast? = some (newest.under s) := by
        simp [under, hlast]
      cases nowTs <;> simp [hunder, hreaching, bind, Except.bind, Except.map]

@[simp] theorem countWithin_under (seconds now : ℚ) :
    (w.under s).countWithin seconds (some (s.instant now)) = w.countWithin seconds (some now) := by
  have hrecent := w.recent_under s seconds (some now)
  rw [Option.map_some] at hrecent
  rw [countWithin_eq_length_recent, countWithin_eq_length_recent, hrecent, recent_some]
  simp [Except.map]

theorem sideImbalance_under (seconds : ℚ) :
    (w.under s).sideImbalance seconds = (w.sideImbalance seconds).map s.counts := by
  have hunder := w.recent_under s seconds none
  unfold sideImbalance
  rw [Option.map_none] at hunder
  rw [hunder]
  rcases w.recent seconds with err | recent
  · rfl
  · simp only [Except.map, bind, Except.bind, pure, Except.pure, Except.ok.injEq]
    cases s with
    | replay later => simp [Function.comp_def, Symmetry.side, Symmetry.counts]
    | mirror =>
        have hsells : recent.countP (fun t => t.side.opposite = .buy) +
            recent.countP (fun t => t.side = .buy) = recent.length := by
          rw [List.length_eq_countP_add_countP (fun t => t.side = .buy), Nat.add_comm]
          congr 2
          funext t
          cases t.side <;> rfl
        simp only [List.countP_map, Function.comp_def, Trade.under_side, Symmetry.side,
          List.length_map, Symmetry.counts, Prod.swap_prod_mk, Prod.mk.injEq]
        omega

end Under

end SymbolWindow

/-- What an alert says apart from its wording. -/
structure Verdict (F : Type) [PyFloat F] where
  detector : String
  severity : Severity
  score : Score F

def Alert.verdict (alert : Alert F) : Verdict F := ⟨alert.detector, alert.severity, alert.score⟩

/-- An answer apart from its wording. -/
def Answer.verdict (answer : Answer F) : Except PyError (Option (Verdict F)) :=
  answer.map (Option.map Alert.verdict)

section Rules

variable (s : Symmetry) (trade : Trade F) (window : SymbolWindow F)

theorem ZScoreDetector.inspect_under (cfg : ZScoreConfig F) (minTrades : ℤ) :
    inspect cfg minTrades (trade.under s) (window.under s) =
      inspect cfg minTrades trade window := by
  unfold inspect
  simp only [SymbolWindow.ready_under, SymbolWindow.priceMeanStd_under, Trade.under_price,
    Alert.build_under]

theorem PriceSpikeDetector.inspect_under (cfg : PriceSpikeConfig F) :
    inspect cfg (trade.under s) (window.under s) = inspect cfg trade window := by
  unfold inspect
  simp only [SymbolWindow.previousPrice_under, Trade.under_price, Alert.build_under]

theorem VolumeSpikeDetector.inspect_under (cfg : VolumeSpikeConfig F) (minTrades : ℤ) :
    inspect cfg minTrades (trade.under s) (window.under s) =
      inspect cfg minTrades trade window := by
  unfold inspect
  simp only [SymbolWindow.ready_under, SymbolWindow.volumeMedian_under, Trade.under_quantity,
    Trade.under_notional, Alert.build_under]

theorem VelocityDetector.inspect_under (cfg : VelocityConfig) :
    inspect cfg (trade.under s) (window.under s) = inspect cfg trade window := by
  unfold inspect
  simp only [EventTime.timestamp_exact, Trade.under_timestamp, bind, Except.bind,
    SymbolWindow.countWithin_under, Alert.build_under]

namespace SpoofingDetector

/-- The answer on these numbers of buys and sells, apart from its wording. -/
def burst (cfg : SpoofingConfig F) (buys sells : ℕ) : Except PyError (Option (Verdict F)) :=
  if ((buys + sells : ℕ) : ℤ) < cfg.minEvents then .ok none
  else do
    let ratio ← intDiv (max buys sells : ℕ) ((min buys sells : ℕ) + 1)
    if lt ratio cfg.imbalanceRatio then .ok none
    else
      let share ← trueDiv ratio (mul cfg.imbalanceRatio (ofRat 2))
      return some ⟨name, .high, Score.clamp (pyMin (ofRat 1) share)⟩

theorem burst_comm (cfg : SpoofingConfig F) (buys sells : ℕ) :
    burst cfg sells buys = burst cfg buys sells := by
  unfold burst
  rw [Nat.add_comm, Nat.max_comm, Nat.min_comm]

theorem inspect_verdict (cfg : SpoofingConfig F) :
    (inspect cfg trade window).verdict =
      (window.sideImbalance cfg.windowSeconds).bind (fun sides => burst cfg sides.1 sides.2) := by
  unfold inspect burst
  rcases window.sideImbalance cfg.windowSeconds with err | ⟨buys, sells⟩
  · rfl
  dsimp only [bind, Except.bind]
  by_cases hfew : ((buys + sells : ℕ) : ℤ) < cfg.minEvents
  · rw [if_pos hfew, if_pos hfew]
    rfl
  · have hlead : (if sells ≤ buys then (buys, sells) else (sells, buys)) =
        (max buys sells, min buys sells) := by
      rcases Nat.le_total sells buys with hle | hle
      · rw [if_pos hle, max_eq_left hle, min_eq_right hle]
      · rcases hle.eq_or_lt with rfl | hlt
        · simp
        · rw [if_neg (by omega), max_eq_right hle, min_eq_left hle]
    rw [if_neg hfew, if_neg hfew, hlead]
    dsimp only
    rcases (intDiv (max buys sells : ℕ) ((min buys sells : ℕ) + 1) : Except PyError F) with
      err | ratio
    · rfl
    · dsimp only
      by_cases hlow : lt ratio cfg.imbalanceRatio
      · rw [if_pos hlow, if_pos hlow]
        rfl
      · rw [if_neg hlow, if_neg hlow]
        rcases trueDiv ratio (mul cfg.imbalanceRatio (ofRat 2)) with err | share <;> rfl

/-- The heavier side and its lead are told by number; which side it is goes into
the wording. -/
theorem inspect_under (cfg : SpoofingConfig F) :
    (inspect cfg (trade.under s) (window.under s)).verdict =
      (inspect cfg trade window).verdict := by
  rw [inspect_verdict, inspect_verdict, SymbolWindow.sideImbalance_under]
  rcases window.sideImbalance cfg.windowSeconds with err | ⟨buys, sells⟩
  · rfl
  · cases s with
    | replay later => rfl
    | mirror => exact burst_comm cfg buys sells

end SpoofingDetector

namespace WashTradeDetector

theorem findCross_under (cfg : WashTradeConfig F) (opposite : Side) (trades : List (Trade F)) :
    findCross cfg (trade.under s) (s.side opposite) (trades.map (·.under s)) =
      (findCross cfg trade opposite trades).map (Option.map (·.under s)) := by
  induction trades with
  | nil => rfl
  | cons other rest ih =>
      simp only [List.map_cons, findCross, ih, Trade.under_tradeId, Trade.under_accountId,
        Trade.under_side, Trade.under_price, Trade.under_quantity, ne_eq, s.side_inj]
      by_cases hid : other.tradeId = trade.tradeId ∨ ¬other.accountId = trade.accountId
      · rw [if_pos hid, if_pos hid]
      · rw [if_neg hid, if_neg hid]
        by_cases hside : other.side = opposite
        · rw [if_neg (not_not.mpr hside), if_neg (not_not.mpr hside)]
          rcases trueDiv (abs (sub other.price trade.price)) trade.price with err | apart
          · rfl
          · rcases relClose other.quantity trade.quantity cfg.quantityTolerance with err | qtyMatch
            · rfl
            · simp only [bind, Except.bind]
              split <;> rfl
        · rw [if_pos hside, if_pos hside]

theorem matchedCross_under (cfg : WashTradeConfig F) :
    matchedCross cfg (trade.under s) (window.under s) =
      (matchedCross cfg trade window).map (Option.map (·.under s)) := by
  have hopposite : (if (trade.under s).side = .buy then Side.sell else .buy) =
      s.side (if trade.side = .buy then Side.sell else .buy) := by
    rw [Trade.under_side]
    cases s <;> cases trade.side <;> rfl
  have hrecent := window.recent_under s cfg.windowSeconds (some trade.timestamp)
  unfold matchedCross
  rw [Option.map_some] at hrecent
  simp only [hopposite, EventTime.timestamp_exact, Trade.under_timestamp, bind, Except.bind,
    hrecent, SymbolWindow.recent_some, Except.map, ← List.map_reverse]
  exact findCross_under s trade cfg _ _

theorem inspect_under (cfg : WashTradeConfig F) :
    inspect cfg (trade.under s) (window.under s) = inspect cfg trade window := by
  unfold inspect selfTrade
  simp only [Trade.under_accountId, Trade.under_counterpartyId, Trade.under_symbol,
    Trade.under_price, Trade.under_quantity, Alert.build_under, matchedCross_under]
  rcases matchedCross cfg trade window with err | _ | other
  · rfl
  · rfl
  · simp only [Except.map, Option.map_some, bind, Except.bind, Trade.under_tradeId]

end WashTradeDetector

namespace IsolationForestDetector

variable {M : Type} (d : IsolationForestDetector F M)

theorem features_under : d.features (trade.under s) (window.under s) = d.features trade window := by
  unfold features
  simp only [SymbolWindow.ready_under, SymbolWindow.priceMeanStd_under,
    SymbolWindow.volumeMeanStd_under, SymbolWindow.previousPrice_under,
    EventTime.timestamp_exact, SymbolWindow.countWithin_under, Trade.under_price,
    Trade.under_quantity, Trade.under_timestamp, bind, Except.bind]

theorem inspect_under : d.inspect (trade.under s) (window.under s) = d.inspect trade window := by
  have hjudge : ∀ (next : IsolationForestDetector F M) model row,
      next.judge model row (trade.under s) = next.judge model row trade := by
    intro next model row
    simp only [judge, Alert.build_under]
  unfold inspect
  simp only [features_under, Trade.under_symbol, hjudge]

end IsolationForestDetector

end Rules

/-- A detector that both symmetries leave alone but for the wording. -/
class SymmetricDetector (D : Type) (F : outParam Type) [PyFloat F] [Detector D F] : Prop where
  verdict_under : ∀ (s : Symmetry) (d : D) (trade : Trade F) (window : SymbolWindow F),
    (Detector.inspect d (trade.under s) (window.under s)).1.verdict =
      (Detector.inspect d trade window).1.verdict
  next_under : ∀ (s : Symmetry) (d : D) (trade : Trade F) (window : SymbolWindow F),
    (Detector.inspect d (trade.under s) (window.under s)).2 = (Detector.inspect d trade window).2

instance {M : Type} : SymmetricDetector (ShippedDetector F M) F where
  verdict_under s d trade window := by
    cases d with
    | zscore cfg minTrades =>
        exact congrArg Answer.verdict (ZScoreDetector.inspect_under s trade window cfg minTrades)
    | priceSpike cfg =>
        exact congrArg Answer.verdict (PriceSpikeDetector.inspect_under s trade window cfg)
    | volumeSpike cfg minTrades =>
        exact congrArg Answer.verdict
          (VolumeSpikeDetector.inspect_under s trade window cfg minTrades)
    | velocity cfg =>
        exact congrArg Answer.verdict (VelocityDetector.inspect_under s trade window cfg)
    | spoofing cfg => exact SpoofingDetector.inspect_under s trade window cfg
    | washTrade cfg =>
        exact congrArg Answer.verdict (WashTradeDetector.inspect_under s trade window cfg)
    | isolationForest forest =>
        have hforest := IsolationForestDetector.inspect_under s trade window forest
        exact congrArg (fun result => Answer.verdict result.1) hforest
  next_under s d trade window := by
    cases d with
    | isolationForest forest =>
        have hforest := IsolationForestDetector.inspect_under s trade window forest
        exact congrArg (fun result => ShippedDetector.isolationForest result.2) hforest
    | _ => rfl

namespace WindowStore

def under (store : WindowStore F) (s : Symmetry) : WindowStore F :=
  { store with windows := store.windows.mapValues (·.under s) }

section Under

variable (s : Symmetry) (store : WindowStore F) (symbol : String)

theorem get_under :
    (store.under s).get symbol = ((store.get symbol).1.under s, (store.get symbol).2.under s) := by
  unfold get
  simp only [under, OrderedDict.get?_mapValues]
  cases store.windows.get? symbol with
  | some win => rfl
  | none =>
      simp only [Option.map_none, OrderedDict.mapValues_set]
      rfl

theorem window_under : (store.under s).window symbol = (store.window symbol).under s := by
  rw [← get_fst, ← get_fst, get_under]

theorem write_under (win : SymbolWindow F) :
    (store.under s).write symbol (win.under s) = (store.write symbol win).under s := by
  simp only [write, under, OrderedDict.mapValues_set]

end Under

end WindowStore

namespace DetectionEngine

variable {D : Type}

/-- The engine as it stands after the same history, seen under a symmetry. -/
def under (e : DetectionEngine D F) (s : Symmetry) : DetectionEngine D F :=
  { e with
    windows := e.windows.under s
    lastAlertTs := e.lastAlertTs.mapValues s.instant }

/-- The verdicts of a call, or what it raised. -/
def verdicts (returned : Except PyError (List (Alert F))) : Except PyError (List (Verdict F)) :=
  returned.map (List.map Alert.verdict)

/-- The order of the sort reads nothing but the verdict. -/
theorem sortAlerts_verdict (alerts : List (Alert F)) :
    (sortAlerts alerts).map Alert.verdict =
      (alerts.map Alert.verdict).insertionSort fun a b =>
        !(a.severity.rank < b.severity.rank ||
          (a.severity.rank = b.severity.rank && lt a.score.value b.score.value)) := by
  unfold sortAlerts
  apply List.map_insertionSort
  intro a _ b _
  rfl

section Under

variable (s : Symmetry) (e : DetectionEngine D F) (trade : Trade F)

theorem suppressed_under (name : String) :
    (e.under s).suppressed (trade.under s) name =
      ((e.suppressed trade name).1, (e.suppressed trade name).2.under s) := by
  unfold suppressed
  simp only [under, Trade.under_symbol, Trade.under_timestamp, OrderedDict.get?_mapValues]
  by_cases hoff : e.cooldown ≤ 0
  · rw [if_pos hoff, if_pos hoff]
  · rw [if_neg hoff, if_neg hoff]
    cases e.lastAlertTs.get? (trade.symbol, name) with
    | none => simp only [Option.map_none, OrderedDict.mapValues_set]
    | some last =>
        simp only [Option.map_some, EventTime.cooling_exact, Trade.under_timestamp,
          s.instant_sub]
        split
        · rfl
        · simp only [OrderedDict.mapValues_set]

variable [Detector D F]

theorem stats_under : (e.under s).stats = e.stats := by
  simp [stats, under, WindowStore.under, WindowStore.symbols]

variable [SymmetricDetector D F]

theorem inspectOne_under (window : SymbolWindow F) (d : D) :
    ((e.under s).inspectOne (trade.under s) (window.under s) d).1.map Alert.verdict =
        (e.inspectOne trade window d).1.map Alert.verdict ∧
      ((e.under s).inspectOne (trade.under s) (window.under s) d).2.2 =
        (e.inspectOne trade window d).2.2.under s := by
  have hverdict := SymmetricDetector.verdict_under s d trade window
  unfold inspectOne
  rcases hmoved : Detector.inspect d (trade.under s) (window.under s) with ⟨answer', d'⟩
  rcases hplain : Detector.inspect d trade window with ⟨answer, next⟩
  rw [hmoved, hplain] at hverdict
  rcases answer with err | _ | alert <;> rcases answer' with err' | _ | alert' <;>
    simp only [Answer.verdict, Except.map, Option.map, Except.ok.injEq, Option.some.injEq,
      reduceCtorEq] at hverdict
  · exact ⟨rfl, rfl⟩
  · exact ⟨rfl, rfl⟩
  · have hseverity : alert'.severity = alert.severity := congrArg Verdict.severity hverdict
    simp only [suppressed_under]
    rcases e.suppressed trade (Detector.name d) with ⟨_ | _, after⟩
    · simp only [hseverity, Option.map_some, hverdict]
      exact ⟨trivial, rfl⟩
    · exact ⟨rfl, rfl⟩

theorem inspectAll_under (window : SymbolWindow F) (detectors : List D) :
    (inspectAll (trade.under s) (window.under s) detectors (e.under s)).1.map Alert.verdict =
        (inspectAll trade window detectors e).1.map Alert.verdict ∧
      (inspectAll (trade.under s) (window.under s) detectors (e.under s)).2.2 =
        (inspectAll trade window detectors e).2.2.under s := by
  induction detectors generalizing e with
  | nil => exact ⟨rfl, rfl⟩
  | cons d rest ih =>
      obtain ⟨hhit, hengine⟩ := e.inspectOne_under s trade window d
      obtain ⟨halerts, hafter⟩ := ih (e.inspectOne trade window d).2.2
      rw [inspectAll_cons, inspectAll_cons]
      dsimp only
      rw [hengine, List.map_append, List.map_append, halerts, hafter, ← Option.toList_map,
        ← Option.toList_map, hhit]
      exact ⟨rfl, rfl⟩

omit [Detector D F] [SymmetricDetector D F] in
theorem windowAfter_under :
    (e.under s).windowAfter (trade.under s) = (e.windowAfter trade).under s := by
  unfold windowAfter
  rw [Trade.under_symbol]
  change (((e.windows.under s).window trade.symbol).add (trade.under s)).2 = _
  rw [WindowStore.window_under, SymbolWindow.add_under]

omit [Detector D F] [SymmetricDetector D F] in
theorem write_windowAfter_under :
    ((e.under s).windows.get (trade.under s).symbol).2.write (trade.under s).symbol
        ((e.under s).windowAfter (trade.under s)) =
      ((e.windows.get trade.symbol).2.write trade.symbol (e.windowAfter trade)).under s := by
  rw [windowAfter_under, Trade.under_symbol]
  change ((e.windows.under s).get trade.symbol).2.write trade.symbol _ = _
  rw [WindowStore.get_under, WindowStore.write_under]

/-- A call commutes with a symmetry. -/
theorem process_under :
    verdicts ((e.under s).process (trade.under s)).1 = verdicts (e.process trade).1 ∧
      ((e.under s).process (trade.under s)).2 = (e.process trade).2.under s := by
  have hwrite := e.write_windowAfter_under s trade
  have hresult : (((e.under s).windows.window (trade.under s).symbol).add (trade.under s)).1 =
      ((e.windows.window trade.symbol).add trade).1 := by
    rw [Trade.under_symbol]
    change (((e.windows.under s).window trade.symbol).add (trade.under s)).1 = _
    rw [WindowStore.window_under, SymbolWindow.add_under]
  rcases hadd : ((e.windows.window trade.symbol).add trade).1 with err | ⟨⟩
  · rw [process_of_error (e.under s) (trade.under s) (hresult.trans hadd),
      process_of_error e trade hadd, hwrite]
    exact ⟨rfl, rfl⟩
  · have hingest : (e.under s).ingest (trade.under s) = (e.ingest trade).under s := by
      unfold ingest
      rw [hwrite]
      rfl
    obtain ⟨halerts, hafter⟩ :=
      (e.ingest trade).inspectAll_under s trade (e.windowAfter trade) e.detectors
    have hdetectors := inspectAll_detectors (trade.under s) ((e.windowAfter trade).under s)
      e.detectors ((e.ingest trade).under s)
    have hplain := inspectAll_detectors trade (e.windowAfter trade) e.detectors (e.ingest trade)
    have hsame : e.detectors.map
          (fun d => (Detector.inspect d (trade.under s) ((e.windowAfter trade).under s)).2) =
        e.detectors.map (fun d => (Detector.inspect d trade (e.windowAfter trade)).2) := by
      apply List.map_congr_left
      intro d _
      exact SymmetricDetector.next_under s d trade (e.windowAfter trade)
    rw [process_of_ok (e.under s) (trade.under s) (hresult.trans hadd), process_of_ok e trade hadd,
      hingest, windowAfter_under]
    dsimp only
    change verdicts (.ok (sortAlerts (inspectAll (trade.under s) ((e.windowAfter trade).under s)
      e.detectors ((e.ingest trade).under s)).1)) = _ ∧ _
    constructor
    · simp only [verdicts, Except.map, sortAlerts_verdict, halerts]
    · change { (inspectAll (trade.under s) ((e.windowAfter trade).under s)
          e.detectors ((e.ingest trade).under s)).2.2 with
        detectors := (inspectAll (trade.under s) ((e.windowAfter trade).under s)
          e.detectors ((e.ingest trade).under s)).2.1 } = _
      rw [hafter, hdetectors, hsame, ← hplain]
      rfl

end Under

/-- A whole run commutes with a symmetry. -/
theorem run_under [Detector D F] [SymmetricDetector D F] (s : Symmetry) (e : DetectionEngine D F)
    (trades : List (Trade F)) :
    (trace process e trades).map (fun entry => verdicts entry.2) =
        (trace process (e.under s) (trades.map (·.under s))).map
          (fun entry => verdicts entry.2) ∧
      final process (e.under s) (trades.map (·.under s)) = (final process e trades).under s := by
  have hstep : ∀ (e moved : DetectionEngine D F) (trade : Trade F), moved = e.under s →
      verdicts (e.process trade).1 = verdicts (moved.process (trade.under s)).1 ∧
        (moved.process (trade.under s)).2 = (e.process trade).2.under s := by
    rintro e _ trade rfl
    obtain ⟨hverdicts, hnext⟩ := e.process_under s trade
    exact ⟨hverdicts.symm, hnext⟩
  exact trace_translated (fun e moved => moved = e.under s) (fun trade => trade.under s)
    verdicts verdicts hstep e (e.under s) trades rfl

/-- Replay and mirror invariance: a tape that is played later, or with the sides
swapped, gets the same verdicts trade by trade, and the same counters. -/
theorem replay_mirror_invariant {M : Type} (sklearn : SkLearn F M) (cfg : DetectionConfig F)
    (symmetry : Symmetry) (trades : List (Trade F)) :
    let moved := trades.map (·.under symmetry)
    (trace process (init sklearn cfg) moved).map (fun entry => verdicts entry.2) =
        (trace process (init sklearn cfg) trades).map (fun entry => verdicts entry.2) ∧
      (final process (init sklearn cfg) moved).stats =
        (final process (init sklearn cfg) trades).stats := by
  intro moved
  have hstart : (init sklearn cfg).under symmetry = init sklearn cfg := rfl
  obtain ⟨hverdicts, hfinal⟩ := run_under symmetry (init sklearn cfg) trades
  rw [hstart] at hverdicts hfinal
  refine ⟨hverdicts.symm, ?_⟩
  rw [hfinal]
  exact stats_under symmetry (final process (init sklearn cfg) trades)

end DetectionEngine

end TradeWatch
