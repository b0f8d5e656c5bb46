import TradeWatch.Lib.OrderedDict
import TradeWatch.Lib.Returns
import TradeWatch.Models

/-!
The market simulator, as the evaluation harness draws a tape from it. Everything
it owes to chance comes from a generator whose state is threaded through, so a
statement about every state of the generator is one about every sequence of
outcomes. A batch is one normal trade or one injected pattern; the tape is as
many batches as it takes, cut to the number of trades asked for.
-/

namespace TradeWatch

open PyFloat StateExcept

/-- `random.Random` with `uuid4` beside it, `timedelta(seconds=x)` in exact seconds
(to be added to the epoch: it raises where the sum has no date) and the case mapping.
The ranges that `randint` and `choice` document are in their types. -/
structure Chance (F G : Type) where
  uniform : F → F → G → F × G
  gauss : F → F → G → F × G
  lognormvariate : F → F → G → F × G
  random : G → F × G
  randint : (a b : ℕ) → a ≤ b → G → { n : ℕ // a ≤ n ∧ n ≤ b } × G
  choice : (n : ℕ) → 0 < n → G → Fin n × G
  uuid4 : G → String × G
  timedelta : F → Except PyError ℚ
  cases : CaseMap

inductive AnomalyKind
  | priceSpike
  | volumeSpike
  | velocityBurst
  | spoofing
  | washTrade
  deriving DecidableEq, Repr

def AnomalyKind.value : AnomalyKind → String
  | .priceSpike => "price_spike"
  | .volumeSpike => "volume_spike"
  | .velocityBurst => "velocity_burst"
  | .spoofing => "spoofing"
  | .washTrade => "wash_trade"

def anomalyKinds : List AnomalyKind :=
  [.priceSpike, .volumeSpike, .velocityBurst, .spoofing, .washTrade]

/-- `datetime(2025, 1, 1, tzinfo=timezone.utc)`. -/
def simEpoch : ℚ := 1735689600

/-- A trade with its ground truth. -/
abbrev LabeledTrade (F : Type) [PyFloat F] := Trade F × Option String

structure SymbolState (F : Type) where
  symbol : String
  price : F
  drift : F
  vol : F
  baseSize : F

/-- The keyword arguments of `_normal` besides the gap. -/
structure Overrides (F : Type) where
  price : Option F := none
  quantity : Option F := none
  side : Option Side := none
  accountId : Option String := none
  counterpartyId : Option String := none

structure MarketSimulator (F G : Type) where
  rng : G
  anomalyRate : F
  states : OrderedDict String (SymbolState F)
  accounts : List String
  venues : List String
  elapsed : F

/-- A method of the simulator. -/
abbrev Sim (F G : Type) := StateT (MarketSimulator F G) (Except PyError)

namespace MarketSimulator

variable {F G : Type} [PyFloat F] (env : Chance F G)

/-- `_SEED_PRICES`. -/
def seedPrices : List (String × F) :=
  [("BTC-USD", ofRat 62000), ("ETH-USD", ofRat 3400), ("AAPL", ofRat 195), ("MSFT", ofRat 420),
    ("TSLA", ofRat 250)]

/-- `_SymbolState(symbol, price, rng)`. -/
def symbolState (symbol : String) (price : F) (rng : G) : SymbolState F × G :=
  let (drift, rng) := env.uniform (ofRat (-2 / 100000)) (ofRat (2 / 100000)) rng
  let (vol, rng) := env.uniform (ofRat (8 / 10000)) (ofRat (25 / 10000)) rng
  let (baseSize, rng) := env.uniform (ofRat 50) (ofRat 500) rng
  ({ symbol := symbol, price := price, drift := drift, vol := vol, baseSize := baseSize }, rng)

/-- The comprehension over the symbols. The default price is drawn for each of
them, known or not. -/
def initStates : List String → OrderedDict String (SymbolState F) → G →
    OrderedDict String (SymbolState F) × G
  | [], states, rng => (states, rng)
  | symbol :: rest, states, rng =>
      let (fallback, rng) := env.uniform (ofRat 20) (ofRat 800) rng
      let (state, rng) := symbolState env symbol ((seedPrices.lookup symbol).getD fallback) rng
      initStates rest (states.set symbol state) rng

/-- `MarketSimulator(symbols, anomaly_rate=..., seed=...)`. -/
def init (symbols : List String) (anomalyRate : F) (rng : G) : MarketSimulator F G :=
  let (states, rng) := initStates env symbols .empty rng
  { rng := rng
    anomalyRate := pyMin (pyMax anomalyRate (ofRat 0)) (ofRat 1)
    states := states
    accounts := (List.range 40).map (fun i => "acct_" ++ padLeft 3 (toString i))
    venues := ["XNAS", "XNYS", "ARCX", "BATS"]
    elapsed := ofRat 0 }

/-- One outcome of the generator. -/
def draw {α : Type} (f : G → α × G) : Sim F G α := fun sim =>
  let (x, rng) := f sim.rng
  .ok (x, { sim with rng := rng })

/-- `self.rng.choice(xs)`. -/
def choice {α : Type} (xs : List α) : Sim F G α :=
  if h : 0 < xs.length then do
    let i ← draw (env.choice xs.length h)
    return xs.get i
  else throw .indexError

/-- `_advance`. -/
def advance (dt : F) : Sim F G ℚ := do
  modify (fun sim => { sim with elapsed := add sim.elapsed (pyMax dt (ofRat 0)) })
  let sim ← get
  let delta ← env.timedelta sim.elapsed
  return simEpoch + delta

/-- `_normal_gap`. -/
def normalGap : Sim F G F := do
  let gap ← draw (env.gauss (ofRat (25 / 100)) (ofRat (8 / 100)))
  return pyMax (ofRat (1 / 100)) gap

/-- `_BURST_INTERVAL`. -/
def burstInterval : F := ofRat (2 / 100)

/-- `next_price`, which moves the symbol's price. -/
def nextPrice (state : SymbolState F) : Sim F G (F × SymbolState F) := do
  let shock ← draw (env.gauss state.drift state.vol)
  let price := pyMax (ofRat (1 / 100)) (mul state.price (add (ofRat 1) shock))
  return (price, { state with price := price })

/-- `round(max(1.0, rng.lognormvariate(0, 0.5) * state.base_size), 2)`. -/
def drawSize (state : SymbolState F) : Sim F G F := do
  let x ← draw (env.lognormvariate (ofRat 0) (ofRat (1 / 2)))
  return round (pyMax (ofRat 1) (mul x state.baseSize)) 2

/-- `_normal`. The size and the side are drawn even when they are given; an
invalid trade raises. -/
def normal (state : SymbolState F) (gap : F) (overrides : Overrides F) :
    Sim F G (Trade F × SymbolState F) := do
  let (price, state) ←
    match overrides.price with
    | some price => pure (price, state)
    | none => do
        let (price, state) ← nextPrice env state
        pure (round price 4, state)
  let size ← drawSize env state
  let sim ← get
  let account ← choice env sim.accounts
  let counterparty ← choice env (sim.accounts.filter (fun other => other ≠ account))
  let side ← choice env [Side.buy, Side.sell]
  let venue ← choice env sim.venues
  let timestamp ← advance env gap
  let tradeId ← draw env.uuid4
  let payload : TradePayload F :=
    { timestamp := some timestamp
      symbol := state.symbol
      price := price
      quantity := overrides.quantity.getD size
      side := overrides.side.getD side
      accountId := some (overrides.accountId.getD account)
      counterpartyId := some (overrides.counterpartyId.getD counterparty)
      venue := some venue }
  match Trade.modelValidate env.cases tradeId timestamp payload with
  | some trade => return (trade, state)
  | none => throw .valueError

/-- `[(self._normal(state, gap=_BURST_INTERVAL, ...), label) for _ in range(n)]`. -/
def burst (label : String) (overrides : Overrides F) :
    ℕ → SymbolState F → Sim F G (List (LabeledTrade F) × SymbolState F)
  | 0, state => return ([], state)
  | n + 1, state => do
      let (trade, state) ← normal env state burstInterval overrides
      let (rest, state) ← burst label overrides n state
      return ((trade, some label) :: rest, state)

/-- `_anomalous`. -/
def anomalous (state : SymbolState F) : Sim F G (List (LabeledTrade F) × SymbolState F) := do
  let kind ← choice env anomalyKinds
  match kind with
  | .priceSpike => do
      let direction ← choice env [(-1 : ℚ), 1]
      let move ← draw (env.uniform (ofRat (5 / 100)) (ofRat (15 / 100)))
      let spiked := round (mul state.price (add (ofRat 1) (mul (ofRat direction) move))) 4
      let gap ← normalGap env
      let (trade, state) ← normal env { state with price := spiked } gap { price := some spiked }
      return ([(trade, some kind.value)], state)
  | .volumeSpike => do
      let factor ← draw (env.uniform (ofRat 20) (ofRat 60))
      let size := round (mul state.baseSize factor) 2
      let gap ← normalGap env
      let (trade, state) ← normal env state gap { quantity := some size }
      return ([(trade, some kind.value)], state)
  | .velocityBurst => do
      let n ← draw (env.randint 30 70 (by decide))
      burst env kind.value {} n.val state
  | .spoofing => do
      let side ← choice env [Side.buy, Side.sell]
      let n ← draw (env.randint 10 20 (by decide))
      burst env kind.value { side := some side } n.val state
  | .washTrade => do
      let sim ← get
      let account ← choice env sim.accounts
      let price := round state.price 4
      let qty ← drawSize env state
      let common : Overrides F :=
        { price := some price
          quantity := some qty
          accountId := some account
          counterpartyId := some account }
      let gap ← normalGap env
      let (buy, state) ← normal env state gap { common with side := some .buy }
      let (sell, state) ← normal env state burstInterval { common with side := some .sell }
      return ([(buy, some kind.value), (sell, some kind.value)], state)

/-- `[(self._normal(state, gap=self._normal_gap()), None)]`. -/
def normalBatch (state : SymbolState F) : Sim F G (List (LabeledTrade F) × SymbolState F) := do
  let gap ← normalGap env
  let (trade, state) ← normal env state gap {}
  return ([(trade, none)], state)

/-- `_next_batch`. The state of the symbol is an object of the dictionary: what a
batch does to it is written back. -/
def nextBatch : Sim F G (List (LabeledTrade F)) := do
  let sim ← get
  let symbol ← choice env sim.states.keys
  match sim.states.get? symbol with
  | none => throw .keyError
  | some state => do
      let x ← draw env.random
      let (batch, state) ← (if lt x sim.anomalyRate then anomalous env state
        else normalBatch env state)
      modify (fun sim => { sim with states := sim.states.set symbol state })
      return batch

/-- `while len(out) < count: out.extend(self._next_batch())`, with the passes it
may still take. -/
def extendTo (count : ℤ) : ℕ → List (LabeledTrade F) → Sim F G (List (LabeledTrade F))
  | 0, out => return out
  | passes + 1, out =>
      if out.length < count then do
        let batch ← nextBatch env
        extendTo count passes (out ++ batch)
      else return out

/-- `labeled_batch`. A pass adds a trade or more, so there are no more passes than
trades asked for. -/
def labeledBatch (count : ℤ) : Sim F G (List (LabeledTrade F)) := do
  let out ← extendTo env count count.toNat []
  return out.take count.toNat

section Labels

/-- A batch has trades, all of the label. -/
def OneLabel (label : Option String) (batch : List (LabeledTrade F)) : Prop :=
  batch ≠ [] ∧ ∀ entry ∈ batch, entry.2 = label

theorem burst_returns (label : String) (overrides : Overrides F) (n : ℕ) (state : SymbolState F) :
    Returns (burst env label overrides n state) (fun result =>
      result.1.length = n ∧ ∀ entry ∈ result.1, entry.2 = some label) := by
  induction n generalizing state with
  | zero => exact Returns.pure (by simp)
  | succ n ih =>
      unfold burst
      apply Returns.after
      rintro ⟨trade, state⟩
      refine Returns.bind (ih state) ?_
      rintro ⟨rest, state⟩ ⟨hlength, hlabel⟩
      apply Returns.pure
      simpa [hlength] using hlabel

/-- A burst of one trade or more is a batch. -/
theorem oneLabel_burst (label : String) (overrides : Overrides F) {n : ℕ} (hn : 0 < n)
    (state : SymbolState F) :
    Returns (burst env label overrides n state) (fun result => OneLabel (some label) result.1) := by
  intro sim result hresult
  obtain ⟨hlength, hlabel⟩ := burst_returns env label overrides n state sim result hresult
  refine ⟨?_, hlabel⟩
  rw [← List.length_pos_iff, hlength]
  exact hn

theorem anomalous_returns (state : SymbolState F) :
    Returns (anomalous env state) (fun result =>
      ∃ kind : AnomalyKind, OneLabel (some kind.value) result.1) := by
  unfold anomalous
  apply Returns.after
  intro kind
  cases kind with
  | priceSpike =>
      apply Returns.after
      intro direction
      apply Returns.after
      intro move
      apply Returns.after
      intro gap
      apply Returns.after
      rintro ⟨trade, state⟩
      exact Returns.pure ⟨.priceSpike, by simp [OneLabel]⟩
  | volumeSpike =>
      apply Returns.after
      intro factor
      apply Returns.after
      intro gap
      apply Returns.after
      rintro ⟨trade, state⟩
      exact Returns.pure ⟨.volumeSpike, by simp [OneLabel]⟩
  | velocityBurst =>
      apply Returns.after
      rintro ⟨n, hn, hmax⟩
      have hpos : 0 < n := by omega
      exact (oneLabel_burst env _ _ hpos state).mono (fun _ h => ⟨.velocityBurst, h⟩)
  | spoofing =>
      apply Returns.after
      intro side
      apply Returns.after
      rintro ⟨n, hn, hmax⟩
      have hpos : 0 < n := by omega
      exact (oneLabel_burst env _ _ hpos state).mono (fun _ h => ⟨.spoofing, h⟩)
  | washTrade =>
      apply Returns.after
      intro sim
      apply Returns.after
      intro account
      apply Returns.after
      intro qty
      apply Returns.after
      intro gap
      apply Returns.after
      rintro ⟨buy, state⟩
      apply Returns.after
      rintro ⟨sell, state⟩
      exact Returns.pure ⟨.washTrade, by simp [OneLabel]⟩

theorem normalBatch_returns (state : SymbolState F) :
    Returns (normalBatch env state) (fun result =>
      ∃ trade : Trade F, result.1 = [(trade, none)]) := by
  unfold normalBatch
  apply Returns.after
  intro gap
  apply Returns.after
  rintro ⟨trade, state⟩
  exact Returns.pure ⟨trade, rfl⟩

/-- A batch is one normal trade or an injected pattern. -/
theorem nextBatch_returns :
    Returns (nextBatch env) (fun batch => (∃ kind : AnomalyKind, OneLabel (some kind.value) batch) ∨
      ∃ trade : Trade F, batch = [(trade, none)]) := by
  unfold nextBatch
  apply Returns.after
  intro sim
  apply Returns.after
  intro symbol
  cases sim.states.get? symbol with
  | none => exact Returns.throw _ _
  | some state =>
      apply Returns.after
      intro x
      have hbatch : Returns
          (if lt x sim.anomalyRate then anomalous env state else normalBatch env state)
          (fun result => (∃ kind : AnomalyKind, OneLabel (some kind.value) result.1) ∨
            ∃ trade : Trade F, result.1 = [(trade, none)]) :=
        Returns.ite ((anomalous_returns env state).mono (fun _ h => Or.inl h))
          ((normalBatch_returns env state).mono (fun _ h => Or.inr h))
      refine Returns.bind hbatch ?_
      rintro ⟨batch, state⟩ hbatch
      apply Returns.after
      intro _
      exact Returns.pure hbatch

end Labels

section Batches

/-- The batches that the loop takes, with the number of trades it has so far. -/
def batches (count : ℤ) : ℕ → ℕ → Sim F G (List (List (LabeledTrade F)))
  | 0, _ => return []
  | passes + 1, total =>
      if total < count then do
        let batch ← nextBatch env
        let rest ← batches count passes (total + batch.length)
        return batch :: rest
      else return []

theorem extendTo_eq (count : ℤ) (passes : ℕ) (out : List (LabeledTrade F)) :
    extendTo env count passes out = (do
      let taken ← batches env count passes out.length
      return out ++ taken.flatten) := by
  induction passes generalizing out with
  | zero => simp [extendTo, batches]
  | succ passes ih =>
      unfold extendTo batches
      by_cases hshort : (out.length : ℤ) < count
      · simp [hshort, ih, List.append_assoc]
      · simp [hshort]

theorem batches_returns (count : ℤ) (passes total : ℕ) :
    Returns (batches env count passes total) (fun taken => ∀ batch ∈ taken,
      ∃ label, OneLabel label batch) := by
  induction passes generalizing total with
  | zero => exact Returns.pure (by simp)
  | succ passes ih =>
      unfold batches
      apply Returns.ite
      · refine Returns.bind (nextBatch_returns env) ?_
        intro batch hbatch
        refine Returns.bind (ih _) ?_
        intro rest hrest
        apply Returns.pure
        refine List.forall_mem_cons.mpr ⟨?_, hrest⟩
        rcases hbatch with ⟨kind, hkind⟩ | ⟨trade, rfl⟩
        · exact ⟨_, hkind⟩
        · exact ⟨none, by simp [OneLabel]⟩
      · exact Returns.pure (by simp)

/-- No batch is empty, so the passes are enough. -/
theorem batches_enough (count : ℤ) (passes total : ℕ) (h : count ≤ total + passes) :
    Returns (batches env count passes total) (fun taken =>
      count ≤ total + taken.flatten.length) := by
  induction passes generalizing total with
  | zero => exact Returns.pure (by simpa using h)
  | succ passes ih =>
      unfold batches
      by_cases hshort : (total : ℤ) < count
      · rw [if_pos hshort]
        refine Returns.bind (nextBatch_returns env) ?_
        intro batch hbatch
        have hpos : 0 < batch.length := by
          rcases hbatch with ⟨kind, hne, _⟩ | ⟨trade, rfl⟩
          · exact List.length_pos_iff.mpr hne
          · exact Nat.one_pos
        refine Returns.bind (ih (total + batch.length) (by push_cast at h ⊢; omega)) ?_
        intro rest hrest
        apply Returns.pure
        rw [List.flatten_cons, List.length_append]
        push_cast at hrest ⊢
        omega
      · rw [if_neg hshort]
        exact Returns.pure (by simpa using hshort)

end Batches

end MarketSimulator

/-- Outcomes that never vary: every draw gives the least it can. -/
def steadyChance : Chance ℚ Unit where
  uniform a _ _ := (a, ())
  gauss mu _ _ := (mu, ())
  lognormvariate _ _ _ := (1, ())
  random _ := (0, ())
  randint a _ h _ := (⟨a, le_rfl, h⟩, ())
  choice _ h _ := (⟨0, h⟩, ())
  uuid4 _ := ("t", ())
  timedelta x := .ok x
  cases := .asciiOnly

end TradeWatch
