import TradeWatch.Config
import TradeWatch.Windows

/-!
The multivariate detector. It keeps, for every symbol, a buffer of the most
recent feature rows, the model fitted last and a count of rows since that fit.
Scikit-learn itself is a parameter: whether it could be imported, how a forest
is fitted and how it scores a row.
-/

namespace TradeWatch

open PyFloat

/-- What the detector uses of scikit-learn and numpy. `fit` and
`decisionFunction` are functions of their input, as a fixed random state makes
them; either may raise. -/
structure SkLearn (F M : Type) where
  available : Bool
  fit : F → List (List F) → Except PyError M
  decisionFunction : M → List F → Except PyError F
  exp : F → F

/-- The import failed: nothing of it is ever called. -/
def SkLearn.missing {F : Type} : SkLearn F Unit where
  available := false
  fit _ _ := .error (.runtimeError "scikit-learn is not installed")
  decisionFunction _ _ := .error (.runtimeError "scikit-learn is not installed")
  exp x := x

variable {F M : Type} [PyFloat F]

structure IsolationForestDetector (F M : Type) [PyFloat F] where
  sklearn : SkLearn F M
  cfg : IsolationForestConfig F
  minTrades : ℤ
  buffers : OrderedDict String (List (List F))
  models : OrderedDict String M
  sinceFit : Counter String

namespace IsolationForestDetector

def name : String := "isolation_forest"

def init (sklearn : SkLearn F M) (cfg : IsolationForestConfig F) (minTrades : ℤ) :
    IsolationForestDetector F M :=
  ⟨sklearn, cfg, minTrades, .empty, .empty, .empty⟩

def available (d : IsolationForestDetector F M) : Bool := d.sklearn.available && d.cfg.enabled

variable [EventTime F]

/-- `_features`: z-scores of price and size, the return, the 5 s velocity. -/
def features (d : IsolationForestDetector F M) (trade : Trade F) (window : SymbolWindow F) :
    Except PyError (Option (List F)) :=
  if !window.ready d.minTrades then .ok none
  else do
    let (priceMean, priceStd) ← window.priceMeanStd
    let (volMean, volStd) ← window.volumeMeanStd
    let prev := match window.previousPrice with
      | none => trade.price
      | some price => if isZero price then trade.price else price
    let floor := ofRat (1 / 10 ^ 9)
    let priceZ ← if lt floor priceStd then trueDiv (sub trade.price priceMean) priceStd
      else .ok (ofRat 0)
    let volZ ← if lt floor volStd then trueDiv (sub trade.quantity volMean) volStd
      else .ok (ofRat 0)
    let ret ← if lt (ofRat 0) prev then trueDiv (sub trade.price prev) prev
      else .ok (ofRat 0)
    let now ← EventTime.timestamp trade
    let velocity ← window.countWithin 5 (some now)
    return some [priceZ, volZ, ret, ofRat velocity]

/-- `self._buffers[symbol]`, which creates a bounded deque on first use and
raises when the bound is negative. -/
def buffer (d : IsolationForestDetector F M) (symbol : String) :
    Except PyError (List (List F)) :=
  match d.buffers.get? symbol with
  | some rows => .ok rows
  | none => if d.cfg.trainSize < 0 then .error .valueError else .ok []

/-- `buf.append(features)` on a deque of bounded length, and the counter. -/
def remember (d : IsolationForestDetector F M) (symbol : String) (rows : List (List F))
    (row : List F) : IsolationForestDetector F M :=
  { d with
    buffers := d.buffers.set symbol ((rows ++ [row]).rtake d.cfg.trainSize.toNat)
    sinceFit := Counter.incr d.sinceFit symbol }

/-- `_maybe_fit`: the symbol's model, after a first or a due fit. A fit that
raises leaves model and counter as they were. -/
def maybeFit (d : IsolationForestDetector F M) (symbol : String) :
    Except PyError (Option M) × IsolationForestDetector F M :=
  let rows := (d.buffers.get? symbol).getD []
  if rows.length < d.cfg.trainSize then (.ok (d.models.get? symbol), d)
  else if !d.models.contains symbol ∨ d.cfg.retrainEvery ≤ Counter.count d.sinceFit symbol then
    match d.sklearn.fit d.cfg.contamination rows with
    | .error err => (.error err, d)
    | .ok model =>
        (.ok (some model),
          { d with
            models := d.models.set symbol model
            sinceFit := d.sinceFit.set symbol 0 })
  else (.ok (d.models.get? symbol), d)

/-- The score of a row under a fitted model, and the alert it amounts to. -/
def judge (d : IsolationForestDetector F M) (model : M) (row : List F) (trade : Trade F) :
    Except PyError (Option (Alert F)) := do
  let raw ← d.sklearn.decisionFunction model row
  let score := div (ofRat 1) (add (ofRat 1) (d.sklearn.exp (mul (ofRat 6) raw)))
  if lt score d.cfg.scoreThreshold then .ok none
  else
    let severe := le (div (add d.cfg.scoreThreshold (ofRat 1)) (ofRat 2)) score
    let severity := if severe then Severity.high else .medium
    let reason := s!"multivariate outlier (model score {format score (.fixed 2)}) " ++
      "across price/size/velocity features"
    return some (Alert.build trade name severity score reason
      [("model_score", .float (round score 3)),
        ("features", .floats (row.map (fun f => round f 4)))])

def inspect (d : IsolationForestDetector F M) (trade : Trade F) (window : SymbolWindow F) :
    Except PyError (Option (Alert F)) × IsolationForestDetector F M :=
  if !d.available then (.ok none, d)
  else
    match d.features trade window with
    | .error err => (.error err, d)
    | .ok none => (.ok none, d)
    | .ok (some row) =>
        match d.buffer trade.symbol with
        | .error err => (.error err, d)
        | .ok rows =>
            match (d.remember trade.symbol rows row).maybeFit trade.symbol with
            | (.error err, next) => (.error err, next)
            | (.ok none, next) => (.ok none, next)
            | (.ok (some model), next) => (next.judge model row trade, next)

end IsolationForestDetector

end TradeWatch
