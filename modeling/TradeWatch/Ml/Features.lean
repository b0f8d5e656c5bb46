import TradeWatch.Lib.Transducer
import TradeWatch.Windows

/-!
The feature rows of the offline models. A builder replays the trades through
windows of its own and emits one row a trade, computed before the trade enters
its window. NumPy is a parameter.
-/

namespace TradeWatch

open PyFloat

/-- What the builder uses of NumPy. -/
structure NumPy (F : Type) where
  mean : List F → F
  std : List F → F
  median : List F → F
  log1p : F → F

/-- One row, in the order of `FEATURE_NAMES`. -/
structure FeatureRow (F : Type) where
  priceZ : F
  pricePctMove : F
  sizeVsMedian : F
  tradesIn5s : F
  sideImbalance : F
  notionalLog : F
  spreadFromLast : F
  qtyZ : F

structure FeatureBuilder (F : Type) [PyFloat F] where
  maxTrades : ℤ
  horizonSeconds : ℚ
  windows : OrderedDict String (SymbolWindow F)

namespace FeatureBuilder

variable {F : Type} [PyFloat F]

def init (maxTrades : ℤ) (horizonSeconds : ℚ) : FeatureBuilder F :=
  ⟨maxTrades, horizonSeconds, .empty⟩

/-- `_window`. That a first use also stores the empty window is not seen by
anyone: the window is stored again, with the trade in it. -/
def window (b : FeatureBuilder F) (symbol : String) : SymbolWindow F :=
  (b.windows.get? symbol).getD ⟨symbol, b.maxTrades, b.horizonSeconds, []⟩

/-- `x / y if y > 1e-9 else default`. -/
def guardedDiv (x y default : F) : Except PyError F :=
  if lt (ofRat (1 / 10 ^ 9)) y then trueDiv x y else .ok default

/-- `(buys - sells) / len(recent) if recent else 0.0`. -/
def imbalance (recent : List (Trade F)) : Except PyError F :=
  let buys := recent.countP (fun t => t.side.value = "buy")
  let sells := recent.length - buys
  if recent.isEmpty then .ok (ofRat 0) else intDiv ((buys : ℤ) - sells) recent.length

/-- The guard keeps the divisor away from zero. -/
theorem guardedDiv_eq (x y default : F) :
    guardedDiv x y default = .ok (if lt (ofRat (1 / 10 ^ 9)) y then div x y else default) := by
  unfold guardedDiv
  split_ifs with hguard
  · have hfloor : (le (ofRat 0) (ofRat (1 / 10 ^ 9)) : Prop) := ofRat_le (F := F) (by norm_num)
    obtain ⟨_, hnot⟩ := lt_iff.mp hguard
    have hzero : isZero y = false := by
      by_contra hz
      simp only [isZero, Bool.not_eq_false, Bool.and_eq_true] at hz
      exact hnot (le_trans hz.1 hfloor)
    simp [trueDiv, hzero]
  · rfl

/-- The row of a trade, from the trades that its window holds before it. -/
def featureRow (np : NumPy F) (prior : List (Trade F)) (trade : Trade F) :
    Except PyError (FeatureRow F) := do
  let prices := prior.map (·.price)
  let quantities := prior.map (·.quantity)
  let priceMean := if prices.isEmpty then trade.price else np.mean prices
  let priceStd := if 1 < prices.length then np.std prices else ofRat 0
  let qtyMean := if quantities.isEmpty then trade.quantity else np.mean quantities
  let qtyStd := if 1 < quantities.length then np.std quantities else ofRat 0
  let qtyMedian := if quantities.isEmpty then trade.quantity else np.median quantities
  let lastPrice := prices.getLast?.getD trade.price
  let priceZ ← guardedDiv (abs (sub trade.price priceMean)) priceStd (ofRat 0)
  let qtyZ ← guardedDiv (abs (sub trade.quantity qtyMean)) qtyStd (ofRat 0)
  let pctMove ← guardedDiv (abs (sub trade.price lastPrice)) lastPrice (ofRat 0)
  let spread ← guardedDiv (sub trade.price lastPrice) lastPrice (ofRat 0)
  let sizeVsMedian ← guardedDiv trade.quantity qtyMedian (ofRat 1)
  let cutoff := trade.timestamp - 5
  let recent := prior.filter (fun t => cutoff ≤ t.timestamp)
  let imbalance ← imbalance recent
  return {
    priceZ := priceZ
    pricePctMove := pctMove
    sizeVsMedian := sizeVsMedian
    tradesIn5s := ofRat recent.length
    sideImbalance := imbalance
    notionalLog := np.log1p (mul trade.price trade.quantity)
    spreadFromLast := spread
    qtyZ := qtyZ }

theorem imbalance_ok (recent : List (Trade F)) : ∃ x, imbalance recent = .ok x := by
  unfold imbalance
  cases recent with
  | nil => exact ⟨_, rfl⟩
  | cons first rest =>
      have hlength : (((first :: rest).length : ℕ) : ℤ) ≠ 0 := by
        simp only [List.length_cons]
        omega
      exact ⟨_, intDiv_eq_ok hlength⟩

/-- A row never raises. -/
theorem featureRow_ok (np : NumPy F) (prior : List (Trade F)) (trade : Trade F) :
    ∃ row, featureRow np prior trade = .ok row := by
  obtain ⟨x, hx⟩ := imbalance_ok (prior.filter (fun t => trade.timestamp - 5 ≤ t.timestamp))
  unfold featureRow
  simp only [guardedDiv_eq, bind, Except.bind, hx]
  exact ⟨_, rfl⟩

theorem featureRow_priceZ {np : NumPy F} {prior : List (Trade F)} {trade : Trade F}
    {row : FeatureRow F} (h : featureRow np prior trade = .ok row) :
    row.priceZ =
      let prices := prior.map (·.price)
      let mean := if prices.isEmpty then trade.price else np.mean prices
      let std := if 1 < prices.length then np.std prices else ofRat 0
      if lt (ofRat (1 / 10 ^ 9)) std then div (abs (sub trade.price mean)) std else ofRat 0 := by
  unfold featureRow at h
  simp only [guardedDiv_eq, bind, Except.bind] at h
  split at h
  · cases h
  · obtain rfl := Except.ok.inj h
    rfl

/-- `transform_one`: the row, and then the trade is folded into its window. A
row that raises leaves the window as it was. -/
def transformOne (np : NumPy F) (b : FeatureBuilder F) (trade : Trade F) :
    Except PyError (FeatureRow F) × FeatureBuilder F :=
  let w := b.window trade.symbol
  match featureRow np w.trades trade with
  | .error err => (.error err, { b with windows := b.windows.set trade.symbol w })
  | .ok row =>
      let (added, w) := w.add trade
      let b := { b with windows := b.windows.set trade.symbol w }
      match added with
      | .error err => (.error err, b)
      | .ok () => (.ok row, b)

theorem transformOne_fst_of_ok {np : NumPy F} {b : FeatureBuilder F} {trade : Trade F}
    (hadd : ((b.window trade.symbol).add trade).1 = .ok ()) :
    (transformOne np b trade).1 = featureRow np (b.window trade.symbol).trades trade := by
  obtain ⟨row, hrow⟩ := featureRow_ok np (b.window trade.symbol).trades trade
  simp only [transformOne, hrow, hadd]

theorem transformOne_fst_of_error {np : NumPy F} {b : FeatureBuilder F} {trade : Trade F}
    {err : PyError} (hadd : ((b.window trade.symbol).add trade).1 = .error err) :
    (transformOne np b trade).1 = .error err := by
  obtain ⟨row, hrow⟩ := featureRow_ok np (b.window trade.symbol).trades trade
  simp only [transformOne, hrow, hadd]

theorem transformOne_window (np : NumPy F) (b : FeatureBuilder F) (trade : Trade F)
    (symbol : String) :
    (transformOne np b trade).2.window symbol =
      if symbol = trade.symbol then ((b.window trade.symbol).add trade).2
      else b.window symbol := by
  obtain ⟨row, hrow⟩ := featureRow_ok np (b.window trade.symbol).trades trade
  have hsnd : (transformOne np b trade).2 =
      { b with windows := b.windows.set trade.symbol ((b.window trade.symbol).add trade).2 } := by
    simp only [transformOne, hrow]
    split <;> rfl
  rw [hsnd]
  split_ifs with hsymbol
  · rw [hsymbol, window, OrderedDict.get?_set_self]
    rfl
  · simp only [window, OrderedDict.get?_set_ne _ hsymbol]

/-- The builder's window of a symbol is what its own trades make of it. -/
theorem final_window (np : NumPy F) (b : FeatureBuilder F) (trades : List (Trade F))
    (symbol : String) :
    (Transducer.final (transformOne np) b trades).window symbol =
      (b.window symbol).replay (trades.filter (fun t => t.symbol = symbol)) := by
  induction trades generalizing b with
  | nil => rfl
  | cons trade rest ih =>
      rw [Transducer.final_cons, ih, transformOne_window]
      rcases eq_or_ne symbol trade.symbol with rfl | hsymbol
      · simp
      · simp [hsymbol, hsymbol.symm]

end FeatureBuilder

end TradeWatch
