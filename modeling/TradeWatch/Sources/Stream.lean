import TradeWatch.Sources.Simulator

/-!
The live stream of the simulator. It asks for its bound before a batch, not before
a trade, and yields a batch whole. How many trades a batch has is settled by the
first outcomes that go into it, so it can be said in advance for which outcomes
the stream ends on its bound.
-/

namespace TradeWatch

open PyFloat StateExcept

/-- How a stream stands: at its end, broken off by an exception, or with more to
come. -/
inductive StreamEnd
  | finished
  | raised (err : PyError)
  | going
  deriving DecidableEq

namespace MarketSimulator

variable {F G : Type} [PyFloat F] (env : Chance F G)

/-- `self.max_trades is None or emitted < self.max_trades`. -/
def wantsMore (maxTrades : Option ℤ) (emitted : ℕ) : Bool :=
  match maxTrades with
  | none => true
  | some bound => decide (emitted < bound)

/-- `stream`, as far as so many passes of its loop go: the trades that were yielded,
and how the stream stands then. The sleep between two passes is left out. -/
def stream (maxTrades : Option ℤ) :
    ℕ → ℕ → MarketSimulator F G → List (Trade F) × StreamEnd
  | 0, _, _ => ([], .going)
  | passes + 1, emitted, sim =>
      if wantsMore maxTrades emitted then
        match nextBatch env sim with
        | .error err => ([], .raised err)
        | .ok (batch, sim) =>
            let (rest, ending) := stream maxTrades passes (emitted + batch.length) sim
            (batch.map Prod.fst ++ rest, ending)
      else ([], .finished)

section Sizes

theorem velocity_range : 30 ≤ 70 := by omega

theorem spoofing_range : 10 ≤ 20 := by omega

/-- How many trades an injected pattern has, by the outcomes that decide it. -/
def anomalySize : Sim F G ℕ := do
  let kind ← choice env anomalyKinds
  match kind with
  | .priceSpike => return 1
  | .volumeSpike => return 1
  | .velocityBurst => do
      let n ← draw (env.randint 30 70 velocity_range)
      return n.val
  | .spoofing => do
      let _ ← choice env [Side.buy, Side.sell]
      let n ← draw (env.randint 10 20 spoofing_range)
      return n.val
  | .washTrade => return 2

/-- How many trades the next batch has, by the outcomes that decide it. -/
def batchSize : Sim F G ℕ := do
  let sim ← get
  let _ ← choice env sim.states.keys
  let x ← draw env.random
  if lt x sim.anomalyRate then anomalySize env else return 1

theorem foretells_anomalous (state : SymbolState F) :
    Foretells (anomalySize env) (anomalous env state) (fun result => result.1.length) := by
  unfold anomalySize anomalous
  apply Foretells.bind
  intro kind
  cases kind with
  | priceSpike =>
      apply Foretells.pure
      apply Returns.after
      intro direction
      apply Returns.after
      intro move
      apply Returns.after
      intro gap
      apply Returns.after
      rintro ⟨trade, state⟩
      exact Returns.pure rfl
  | volumeSpike =>
      apply Foretells.pure
      apply Returns.after
      intro factor
      apply Returns.after
      intro gap
      apply Returns.after
      rintro ⟨trade, state⟩
      exact Returns.pure rfl
  | velocityBurst =>
      apply Foretells.bind
      intro n
      apply Foretells.pure
      exact (burst_returns env _ _ n.val state).mono (fun _ h => h.1)
  | spoofing =>
      apply Foretells.bind
      intro side
      apply Foretells.bind
      intro n
      apply Foretells.pure
      exact (burst_returns env _ _ n.val state).mono (fun _ h => h.1)
  | washTrade =>
      apply Foretells.pure
      apply Returns.after
      intro sim
      apply Returns.after
      intro account
      apply Returns.after
      intro qty
      apply Returns.after
      intro gap
      apply Returns.after
      rintro ⟨buy, state⟩
      apply Returns.after
      rintro ⟨sell, state⟩
      exact Returns.pure rfl

theorem foretells_nextBatch : Foretells (batchSize env) (nextBatch env) List.length := by
  unfold batchSize nextBatch
  apply Foretells.bind
  intro sim
  apply Foretells.bind
  intro symbol
  cases sim.states.get? symbol with
  | none => exact Foretells.throw _ _
  | some state =>
      apply Foretells.bind
      intro x
      have hsize : Foretells
          (if lt x sim.anomalyRate then anomalySize env else return 1)
          (if lt x sim.anomalyRate then anomalous env state else normalBatch env state)
          (fun result => result.1.length) := by
        apply Foretells.ite (foretells_anomalous env state)
        apply Foretells.pure
        refine (normalBatch_returns env state).mono ?_
        rintro ⟨batch, state⟩ ⟨trade, rfl⟩
        rfl
      refine hsize.followed ?_
      rintro ⟨batch, state⟩
      apply Returns.after
      intro _
      exact Returns.pure rfl

theorem batchSize_returns : Returns (batchSize env) (fun n => 0 < n ∧ n ≤ 70) := by
  unfold batchSize
  apply Returns.after
  intro sim
  apply Returns.after
  intro symbol
  apply Returns.after
  intro x
  apply Returns.ite
  · unfold anomalySize
    apply Returns.after
    intro kind
    cases kind with
    | priceSpike => exact Returns.pure (by omega)
    | volumeSpike => exact Returns.pure (by omega)
    | velocityBurst =>
        apply Returns.after
        intro n
        have hn := n.property
        exact Returns.pure (by omega)
    | spoofing =>
        apply Returns.after
        intro side
        apply Returns.after
        intro n
        have hn := n.property
        exact Returns.pure (by omega)
    | washTrade => exact Returns.pure (by omega)
  · exact Returns.pure (by omega)

theorem length_nextBatch {sim sim' : MarketSimulator F G} {batch : List (LabeledTrade F)}
    (h : nextBatch env sim = .ok (batch, sim')) : 0 < batch.length ∧ batch.length ≤ 70 := by
  obtain ⟨s, hsize⟩ := foretells_nextBatch env sim (batch, sim') h
  exact batchSize_returns env sim (_, s) hsize

/-- The sizes of the next batches, while none of them raises. -/
def drawnSizes : ℕ → MarketSimulator F G → Except PyError (List ℕ)
  | 0, _ => .ok []
  | k + 1, sim => do
      let (size, _) ← batchSize env sim
      let (_, next) ← nextBatch env sim
      let rest ← drawnSizes k next
      return size :: rest

theorem drawnSizes_succ {sim sim' : MarketSimulator F G} {batch : List (LabeledTrade F)}
    (h : nextBatch env sim = .ok (batch, sim')) (k : ℕ) :
    drawnSizes env (k + 1) sim = (drawnSizes env k sim').map (batch.length :: ·) := by
  obtain ⟨s, hsize⟩ := foretells_nextBatch env sim (batch, sim') h
  rw [drawnSizes, hsize, h]
  simp only [bind, Except.bind, pure, Except.pure]
  cases drawnSizes env k sim' <;> rfl

theorem exists_of_drawnSizes_succ {sim : MarketSimulator F G} {k : ℕ} {sizes : List ℕ}
    (h : drawnSizes env (k + 1) sim = .ok sizes) :
    ∃ batch sim' rest, nextBatch env sim = .ok (batch, sim') ∧
      drawnSizes env k sim' = .ok rest ∧ sizes = batch.length :: rest := by
  cases hbatch : nextBatch env sim with
  | error err =>
      rw [drawnSizes, hbatch] at h
      obtain ⟨_, _, h⟩ := exists_of_bind_eq_ok h
      cases h
  | ok result =>
      obtain ⟨batch, sim'⟩ := result
      rw [drawnSizes_succ env hbatch] at h
      cases hrest : drawnSizes env k sim' with
      | error err =>
          rw [hrest] at h
          cases h
      | ok rest =>
          rw [hrest] at h
          cases h
          exact ⟨batch, sim', rest, rfl, hrest, rfl⟩

end Sizes

section Bound

/-- A pass of the loop that does not raise. -/
theorem stream_succ {maxTrades : Option ℤ} {emitted : ℕ} (hmore : wantsMore maxTrades emitted)
    {sim sim' : MarketSimulator F G} {batch : List (LabeledTrade F)}
    (h : nextBatch env sim = .ok (batch, sim')) (passes : ℕ) :
    stream env maxTrades (passes + 1) emitted sim =
      (batch.map Prod.fst ++ (stream env maxTrades passes (emitted + batch.length) sim').1,
        (stream env maxTrades passes (emitted + batch.length) sim').2) := by
  rw [stream, if_pos hmore, h]

/-- A stream that finishes either had enough, or yielded a batch and went on. -/
theorem finished_cases {maxTrades : Option ℤ} {passes emitted : ℕ} {sim : MarketSimulator F G}
    {trades : List (Trade F)}
    (h : stream env maxTrades (passes + 1) emitted sim = (trades, .finished)) :
    (wantsMore maxTrades emitted = false ∧ trades = []) ∨
      wantsMore maxTrades emitted = true ∧ ∃ batch sim' rest,
        nextBatch env sim = .ok (batch, sim') ∧
          stream env maxTrades passes (emitted + batch.length) sim' = (rest, .finished) ∧
          trades = batch.map Prod.fst ++ rest := by
  cases hmore : wantsMore maxTrades emitted with
  | false =>
      rw [stream, hmore] at h
      cases h
      exact Or.inl ⟨rfl, rfl⟩
  | true =>
      cases hbatch : nextBatch env sim with
      | error err =>
          rw [stream, if_pos hmore, hbatch] at h
          cases h
      | ok result =>
          obtain ⟨batch, sim'⟩ := result
          rw [stream_succ env hmore hbatch] at h
          obtain ⟨htrades, hending⟩ := Prod.mk.inj h
          exact Or.inr ⟨rfl, batch, sim', _, rfl, Prod.ext rfl hending, htrades.symm⟩

/-- A stream that finished has yielded so many whole batches. -/
theorem drawnSizes_of_finished {maxTrades : Option ℤ} {passes emitted : ℕ}
    {sim : MarketSimulator F G} {trades : List (Trade F)}
    (h : stream env maxTrades passes emitted sim = (trades, .finished)) :
    ∃ k sizes, drawnSizes env k sim = .ok sizes ∧ sizes.sum = trades.length := by
  induction passes generalizing emitted sim trades with
  | zero => cases h
  | succ passes ih =>
      obtain ⟨_, rfl⟩ | ⟨_, batch, sim', rest, hbatch, hrest, rfl⟩ := finished_cases env h
      · exact ⟨0, [], rfl, rfl⟩
      · obtain ⟨k, sizes, hsizes, hsum⟩ := ih hrest
        refine ⟨k + 1, batch.length :: sizes, ?_, ?_⟩
        · rw [drawnSizes_succ env hbatch, hsizes]
          rfl
        · rw [List.sum_cons, hsum, List.length_append, List.length_map]

/-- Batches that add up to what is left are yielded, and nothing after them. -/
theorem finished_of_drawnSizes {bound emitted k : ℕ} {sim : MarketSimulator F G} {sizes : List ℕ}
    (h : drawnSizes env k sim = .ok sizes) (hsum : emitted + sizes.sum = bound) :
    ∃ passes trades, stream env (some (bound : ℤ)) passes emitted sim = (trades, .finished) ∧
      trades.length = sizes.sum := by
  induction k generalizing emitted sim sizes with
  | zero =>
      cases h
      have hfull : wantsMore (some (bound : ℤ)) emitted = false := by
        simpa [wantsMore] using hsum.ge
      exact ⟨1, [], by rw [stream, hfull]; rfl, rfl⟩
  | succ k ih =>
      obtain ⟨batch, sim', rest, hbatch, hrest, rfl⟩ := exists_of_drawnSizes_succ env h
      have hpos := (length_nextBatch env hbatch).1
      rw [List.sum_cons] at hsum
      have hmore : wantsMore (some (bound : ℤ)) emitted = true := by
        simp only [wantsMore, decide_eq_true_eq]
        omega
      have hleft : emitted + batch.length + rest.sum = bound := by omega
      obtain ⟨passes, trades, hstream, hlength⟩ := ih hrest hleft
      refine ⟨passes + 1, batch.map Prod.fst ++ trades, ?_, ?_⟩
      · rw [stream_succ env hmore hbatch, hstream]
      · rw [List.length_append, List.length_map, hlength, List.sum_cons]

/-- The stream comes to an end, as every pass yields a trade or more. -/
theorem stream_ends (bound : ℕ) {passes emitted : ℕ} (h : bound < emitted + passes)
    (hpasses : 0 < passes) (sim : MarketSimulator F G) :
    (stream env (some (bound : ℤ)) passes emitted sim).2 ≠ .going := by
  induction passes generalizing emitted sim with
  | zero => omega
  | succ passes ih =>
      cases hmore : wantsMore (some (bound : ℤ)) emitted with
      | false => simp [stream, hmore]
      | true =>
          cases hbatch : nextBatch env sim with
          | error err => simp [stream, hmore, hbatch]
          | ok result =>
              obtain ⟨batch, sim'⟩ := result
              have hpos := (length_nextBatch env hbatch).1
              have hroom : emitted < bound := by
                simpa [wantsMore] using hmore
              rw [stream_succ env hmore hbatch]
              exact ih (by omega) (by omega) sim'

/-- The bound is passed by less than a batch. -/
theorem stream_overshoot {bound passes emitted : ℕ} {sim : MarketSimulator F G}
    {trades : List (Trade F)}
    (h : stream env (some (bound : ℤ)) passes emitted sim = (trades, .finished))
    (hemitted : emitted < bound + 70) :
    bound ≤ emitted + trades.length ∧ emitted + trades.length < bound + 70 := by
  induction passes generalizing emitted sim trades with
  | zero => cases h
  | succ passes ih =>
      obtain ⟨hfull, rfl⟩ | ⟨hmore, batch, sim', rest, hbatch, hrest, rfl⟩ :=
        finished_cases env h
      · have hreached : bound ≤ emitted := by
          simpa [wantsMore] using hfull
        exact ⟨hreached, hemitted⟩
      · have hroom : emitted < bound := by
          simpa [wantsMore] using hmore
        have hsize := (length_nextBatch env hbatch).2
        obtain ⟨hreached, hpassed⟩ := ih hrest (by omega)
        rw [List.length_append, List.length_map]
        omega

/-- The stream ends by itself when it has yielded `n` trades. -/
def YieldsExactly (n : ℕ) (sim : MarketSimulator F G) : Prop :=
  ∃ passes trades, stream env (some (n : ℤ)) passes 0 sim = (trades, .finished) ∧ trades.length = n

/-- It does so for the outcomes whose batches fill the bound to the last trade and
are made without an exception. -/
theorem yieldsExactly_iff (n : ℕ) (sim : MarketSimulator F G) :
    YieldsExactly env n sim ↔ ∃ k sizes, drawnSizes env k sim = .ok sizes ∧ sizes.sum = n := by
  constructor
  · rintro ⟨passes, trades, hstream, hlength⟩
    obtain ⟨k, sizes, hsizes, hsum⟩ := drawnSizes_of_finished env hstream
    exact ⟨k, sizes, hsizes, hsum.trans hlength⟩
  · rintro ⟨k, sizes, hsizes, hsum⟩
    have hall : 0 + sizes.sum = n := by omega
    obtain ⟨passes, trades, hstream, hlength⟩ := finished_of_drawnSizes env hsizes hall
    exact ⟨passes, trades, hstream, hlength.trans hsum⟩

end Bound

/-- Of several things the last is chosen. -/
def lastChance : Chance ℚ Unit :=
  { steadyChance with choice := fun n h _ => (⟨n - 1, Nat.sub_one_lt_of_lt h⟩, ()) }

/-- The first batch is a wash trade. Its two legs overrun a bound of one. -/
theorem not_yieldsExactly_wash : ¬ YieldsExactly lastChance 1 (init lastChance ["ACME"] 1 ()) := by
  rintro ⟨passes, trades, hstream, hlength⟩
  obtain ⟨k, sizes, hsizes, hsum⟩ := drawnSizes_of_finished lastChance hstream
  rw [hlength] at hsum
  have hfirst : ((nextBatch lastChance (init lastChance ["ACME"] 1 ())).map
      (fun result => result.1.length)) = .ok 2 := by
    decide +kernel
  cases k with
  | zero =>
      cases hsizes
      cases hsum
  | succ k =>
      obtain ⟨batch, sim', rest, hbatch, _, rfl⟩ := exists_of_drawnSizes_succ lastChance hsizes
      rw [hbatch] at hfirst
      have htwo : batch.length = 2 := Except.ok.inj hfirst
      rw [List.sum_cons] at hsum
      omega

end MarketSimulator

end TradeWatch
