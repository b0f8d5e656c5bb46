import TradeWatch.Config
import TradeWatch.Windows

/-!
The six rule detectors. Each reads the trade and the symbol's window, which
already holds the trade as its newest entry, and answers with an alert, with
nothing, or by raising. None of them keeps state of its own.
-/

namespace TradeWatch

open PyFloat EventTime

variable {F : Type} [PyFloat F]

/-- What `inspect` of a stateless detector comes to. -/
abbrev Answer (F : Type) [PyFloat F] := Except PyError (Option (Alert F))

namespace ZScoreDetector

def name : String := "zscore"

def zscore (value mean std : F) : Except PyError F :=
  if le std (ofRat (1 / 10 ^ 12)) then .ok (ofRat 0)
  else trueDiv (sub value mean) std

/-- The distance, exactly. -/
theorem zscore_real (value mean std : ℝ) :
    zscore value mean std =
      .ok (if std ≤ 1 / 10 ^ 12 then 0 else (value - mean) / std) := by
  have hfloor : (0 : ℝ) < 1 / 10 ^ 12 := by positivity
  have hcast : ((1 / 10 ^ 12 : ℚ) : ℝ) = 1 / 10 ^ 12 := by push_cast; rfl
  unfold zscore
  simp only [le_real, ofRat_real, hcast]
  rcases le_or_gt std (1 / 10 ^ 12) with hle | hgt
  · rw [if_pos hle, if_pos hle, Rat.cast_zero]
  · rw [if_neg (not_le.mpr hgt), if_neg (not_le.mpr hgt),
      trueDiv_real (hfloor.trans hgt).ne', sub_real]

/-- Maps `[threshold, 2 * threshold]` to `[0.6, 1.0]`, saturating above. -/
def zToScore (absZ threshold : F) : Except PyError F :=
  if le threshold (ofRat 0) then .ok (ofRat 1)
  else do
    let excess ← trueDiv (mul (ofRat (4 / 10)) (sub absZ threshold)) threshold
    return pyMin (ofRat 1) (add (ofRat (6 / 10)) excess)

def inspect (cfg : ZScoreConfig F) (minTrades : ℤ) (trade : Trade F)
    (window : SymbolWindow F) : Answer F :=
  if !window.ready minTrades then .ok none
  else do
    let (priceMean, priceStd) ← window.priceMeanStd
    let priceZ ← zscore trade.price priceMean priceStd
    if lt (abs priceZ) cfg.priceThreshold then .ok none
    else
      let critical := le (mul cfg.priceThreshold cfg.criticalMultiplier) (abs priceZ)
      let severity := if critical then Severity.critical else .high
      let score ← zToScore (abs priceZ) cfg.priceThreshold
      let reason := s!"price {format trade.price (.fixed 4)} is " ++
        s!"{format priceZ (.signed 2)}σ from mean " ++
        s!"{format priceMean (.fixed 4)} (σ={format priceStd (.fixed 4)})"
      return some (Alert.build trade name severity score reason
        [("price_z", .float (round priceZ 3)),
          ("price_mean", .float (round priceMean 4)),
          ("price_std", .float (round priceStd 4))])

end ZScoreDetector

namespace PriceSpikeDetector

def name : String := "price_spike"

def inspect (cfg : PriceSpikeConfig F) (trade : Trade F) (window : SymbolWindow F) :
    Answer F :=
  match window.previousPrice with
  | none => .ok none
  | some prev =>
      if le prev (ofRat 0) then .ok none
      else do
        let pct ← trueDiv (sub trade.price prev) prev
        if lt (abs pct) cfg.pctThreshold then .ok none
        else
          let critical := le cfg.criticalPct (abs pct)
          let severity := if critical then Severity.critical else .high
          let direction := if lt (ofRat 0) pct then "surge" else "drop"
          let ratio ← trueDiv (abs pct) (pyMax cfg.criticalPct (ofRat (1 / 10 ^ 9)))
          let reason := s!"instantaneous price {direction} of {format pct (.percent 2)} " ++
            s!"({format prev (.fixed 4)} -> {format trade.price (.fixed 4)})"
          return some (Alert.build trade name severity (pyMin (ofRat 1) ratio) reason
            [("pct_change", .float (round pct 5)), ("previous_price", .float prev)])

end PriceSpikeDetector

namespace VolumeSpikeDetector

def name : String := "volume_spike"

def inspect (cfg : VolumeSpikeConfig F) (minTrades : ℤ) (trade : Trade F)
    (window : SymbolWindow F) : Answer F :=
  if !window.ready minTrades then .ok none
  else
    let median := window.volumeMedian
    if le median (ofRat 0) then .ok none
    else do
      let ratio ← trueDiv trade.quantity median
      if lt ratio cfg.medianMultiplier then .ok none
      else
        let critical := le cfg.criticalMultiplier ratio
        let severity := if critical then Severity.critical else .high
        let share ← trueDiv ratio (pyMax cfg.criticalMultiplier (ofRat (1 / 10 ^ 9)))
        let reason := s!"quantity {format trade.quantity (.fixed 2)} is " ++
          s!"{format ratio (.fixed 1)}x median size {format median (.fixed 2)}"
        return some (Alert.build trade name severity (pyMin (ofRat 1) share) reason
          [("ratio", .float (round ratio 2)),
            ("median_quantity", .float (round median 4)),
            ("notional", .float (round trade.notional 2))])

end VolumeSpikeDetector

section EventTime

variable [EventTime F]

namespace VelocityDetector

def name : String := "velocity"

def inspect (cfg : VelocityConfig) (trade : Trade F) (window : SymbolWindow F) :
    Answer F := do
  let now ← timestamp trade
  let count ← window.countWithin cfg.windowSeconds (some now)
  if (count : ℤ) < cfg.maxTrades then .ok none
  else
    let critical := cfg.criticalTrades ≤ (count : ℤ)
    let severity := if critical then Severity.critical else .medium
    let share ← intDiv count (max cfg.criticalTrades 1)
    let reason := s!"{count} trades in {formatExact cfg.windowSeconds (.fixed 0)}s " ++
      s!"(limit {cfg.maxTrades})"
    return some (Alert.build trade name severity (pyMin (ofRat 1) share) reason
      [("count", .int count), ("window_seconds", .seconds cfg.windowSeconds)])

end VelocityDetector

namespace SpoofingDetector

def name : String := "spoofing"

def inspect (cfg : SpoofingConfig F) (trade : Trade F) (window : SymbolWindow F) :
    Answer F := do
  let (buys, sells) ← window.sideImbalance cfg.windowSeconds
  let total := buys + sells
  if (total : ℤ) < cfg.minEvents then .ok none
  else
    let (heavy, light) := if sells ≤ buys then (buys, sells) else (sells, buys)
    let ratio ← intDiv heavy (light + 1)
    if lt ratio cfg.imbalanceRatio then .ok none
    else
      let dominant := if sells ≤ buys then Side.buy else .sell
      let share ← trueDiv ratio (mul cfg.imbalanceRatio (ofRat 2))
      let reason := s!"one-sided burst: {heavy} {dominant.value} vs {light} opposite " ++
        s!"in {formatExact cfg.windowSeconds (.fixed 0)}s (ratio {format ratio (.fixed 1)})"
      return some (Alert.build trade name .high (pyMin (ofRat 1) share) reason
        [("buys", .int buys), ("sells", .int sells), ("dominant_side", .text dominant.value),
          ("ratio", .float (round ratio 2))])

end SpoofingDetector

namespace WashTradeDetector

def name : String := "wash_trade"

def relClose (a b tol : F) : Except PyError Bool := do
  let denom := pyMax (pyMax (abs a) (abs b)) (ofRat (1 / 10 ^ 9))
  let apart ← trueDiv (abs (sub a b)) denom
  return le apart tol

/-- The loop over the recent trades, newest first: the first trade of another
id, the same account and the opposite side that matches in price and size. -/
def findCross (cfg : WashTradeConfig F) (trade : Trade F) (opposite : Side) :
    List (Trade F) → Except PyError (Option (Trade F))
  | [] => .ok none
  | other :: rest =>
      if other.tradeId = trade.tradeId ∨ other.accountId ≠ trade.accountId then
        findCross cfg trade opposite rest
      else if other.side ≠ opposite then findCross cfg trade opposite rest
      else do
        let apart ← trueDiv (abs (sub other.price trade.price)) trade.price
        let priceMatch := le apart cfg.priceTolerance
        let qtyMatch ← relClose other.quantity trade.quantity cfg.quantityTolerance
        if priceMatch && qtyMatch then .ok (some other)
        else findCross cfg trade opposite rest

/-- The account is its own counterparty. -/
def selfTrade (trade : Trade F) : Bool :=
  truthy trade.accountId && truthy trade.counterpartyId &&
    trade.accountId = trade.counterpartyId

/-- The recent trade that the matched-cross signal is raised on, if any. -/
def matchedCross (cfg : WashTradeConfig F) (trade : Trade F) (window : SymbolWindow F) :
    Except PyError (Option (Trade F)) := do
  let opposite := if trade.side = .buy then Side.sell else .buy
  let now ← timestamp trade
  let recent ← window.recent cfg.windowSeconds (some now)
  findCross cfg trade opposite recent.reverse

def inspect (cfg : WashTradeConfig F) (trade : Trade F) (window : SymbolWindow F) :
    Answer F :=
  let account := trade.accountId.getD ""
  if selfTrade trade then
    let reason := s!"self-trade: account {account} is both buyer and seller of " ++
      s!"{trade.symbol}"
    .ok (some (Alert.build trade name .critical (ofRat (98 / 100)) reason
      [("account_id", .text account), ("signal", .text "self_counterparty"),
        ("price", .float trade.price)]))
  else if !truthy trade.accountId || le trade.price (ofRat 0) then .ok none
  else do
    let found ← matchedCross cfg trade window
    match found with
    | none => .ok none
    | some other =>
        let reason := s!"account {account} crossed both sides of {trade.symbol} " ++
          s!"at ~{format trade.price (.fixed 4)} x {format trade.quantity (.fixed 2)} " ++
          s!"within {formatExact cfg.windowSeconds (.fixed 0)}s"
        return some (Alert.build trade name .critical (ofRat (95 / 100)) reason
          [("account_id", .text account), ("signal", .text "matched_cross"),
            ("matched_trade_id", .text other.tradeId), ("price", .float trade.price),
            ("quantity", .float trade.quantity)])

end WashTradeDetector

end EventTime

end TradeWatch
