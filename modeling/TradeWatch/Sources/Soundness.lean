import TradeWatch.Sources.Calendar

/-!
What the simulator promises of its tape, whatever the generator comes up with. The
price of a symbol never falls below the last decimal it is rounded to: a step of the
price is floored well above it, and a spike downwards rounds back up from it.
-/

namespace TradeWatch

open PyFloat StateExcept

namespace MarketSimulator

variable {G : Type} {env : Chance ℝ G} {rng : G}

section Invariant

/-- What a symbol keeps through every batch. -/
structure SoundSymbol (state : SymbolState ℝ) : Prop where
  symbol : 1 ≤ state.symbol.length ∧ state.symbol.length ≤ 32
  price : 1 / 10 ^ 4 ≤ state.price
  baseSize : 50 ≤ state.baseSize

/-- What the simulator keeps through every batch. -/
structure Sound (sim : MarketSimulator ℝ G) : Prop where
  symbols : sim.states.keys ≠ []
  states : ∀ symbol state, sim.states.get? symbol = some state → SoundSymbol state
  accounts : ∃ a ∈ sim.accounts, ∃ b ∈ sim.accounts, a ≠ b
  venues : sim.venues ≠ []
  clock : 0 ≤ sim.elapsed

theorem Sound.tick {sim : MarketSimulator ℝ G} (h : Sound sim) {elapsed : ℝ}
    (hforward : sim.elapsed ≤ elapsed) : Sound (sim.tick elapsed) :=
  ⟨h.symbols, h.states, h.accounts, h.venues, h.clock.trans hforward⟩

/-- What lies above half of the last decimal is rounded to a price. -/
theorem round_price {x : ℝ} (h : 1 / 2 < x * 10 ^ 4) : 1 / 10 ^ 4 ≤ roundDigits x 4 := by
  have hone : ((1 : ℤ) : ℝ) / 10 ^ 4 = 1 / 10 ^ 4 := by norm_num
  rw [← hone]
  apply le_roundDigits
  push_cast
  linarith

/-- `round(price * (1 + direction * uniform(0.05, 0.15)), 4)` from a sound price. -/
theorem spike_price {price direction move : ℝ} (hprice : 1 / 10 ^ 4 ≤ price)
    (hdirection : direction = -1 ∨ direction = 1) (hlow : 5 / 100 ≤ move)
    (hhigh : move ≤ 15 / 100) :
    1 / 10 ^ 4 ≤ roundDigits (price * (1 + direction * move)) 4 := by
  have hfactor : 85 / 100 ≤ 1 + direction * move := by
    rcases hdirection with rfl | rfl <;> linarith
  have hspiked : 1 / 10 ^ 4 * (85 / 100) ≤ price * (1 + direction * move) :=
    mul_le_mul hprice hfactor (by norm_num) (by linarith)
  apply round_price
  linarith

/-- `round(base_size * uniform(20, 60), 2)` is a size. -/
theorem volume_size {baseSize factor : ℝ} (hbase : 50 ≤ baseSize) (hfactor : 20 ≤ factor) :
    1 ≤ roundDigits (baseSize * factor) 2 := by
  have hsize : 50 * 20 ≤ baseSize * factor :=
    mul_le_mul hbase hfactor (by norm_num) (by linarith)
  apply one_le_roundDigits
  linarith

end Invariant

section Tape

/-- What the tape promises between two readings of the clock. -/
structure SoundTape (start finish : ℝ) (tape : List (LabeledTrade ℝ)) : Prop where
  forward : start ≤ finish
  valid : ∀ entry ∈ tape, 1 / 10 ^ 4 ≤ entry.1.price ∧ 1 ≤ entry.1.quantity
  strangers : ∀ entry ∈ tape, entry.2 = none → entry.1.accountId ≠ entry.1.counterpartyId
  increasing : tape.Pairwise (fun earlier later => earlier.1.timestamp < later.1.timestamp)
  between : ∀ entry ∈ tape,
    clockTime start < entry.1.timestamp ∧ entry.1.timestamp ≤ clockTime finish

/-- A buy and a sell of one account with itself, alike in price and size. -/
def WashPair (batch : List (LabeledTrade ℝ)) : Prop :=
  ∃ buy sell : Trade ℝ,
    batch = [(buy, some AnomalyKind.washTrade.value), (sell, some AnomalyKind.washTrade.value)] ∧
      buy.side = .buy ∧ sell.side = .sell ∧
      buy.counterpartyId = buy.accountId ∧ sell.accountId = buy.accountId ∧
      sell.counterpartyId = buy.accountId ∧ sell.price = buy.price ∧ sell.quantity = buy.quantity

/-- Wash trades come in pairs. -/
def Paired (batch : List (LabeledTrade ℝ)) : Prop :=
  (∃ entry ∈ batch, entry.2 = some AnomalyKind.washTrade.value) → WashPair batch

theorem SoundTape.nil {start finish : ℝ} (h : start ≤ finish) : SoundTape start finish [] := by
  constructor <;> simp [h]

theorem SoundTape.append {start middle finish : ℝ} {tape more : List (LabeledTrade ℝ)}
    (h : SoundTape start middle tape) (hmore : SoundTape middle finish more) :
    SoundTape start finish (tape ++ more) := by
  constructor
  · exact h.forward.trans hmore.forward
  · exact List.forall_mem_append.mpr ⟨h.valid, hmore.valid⟩
  · exact List.forall_mem_append.mpr ⟨h.strangers, hmore.strangers⟩
  · refine List.pairwise_append.mpr ⟨h.increasing, hmore.increasing, ?_⟩
    intro earlier hearlier later hlater
    exact (h.between earlier hearlier).2.trans_lt (hmore.between later hlater).1
  · refine List.forall_mem_append.mpr ⟨?_, ?_⟩
    · intro entry hentry
      have htimes := h.between entry hentry
      exact ⟨htimes.1, htimes.2.trans (clockTime_mono hmore.forward)⟩
    · intro entry hentry
      have htimes := hmore.between entry hentry
      exact ⟨(clockTime_mono h.forward).trans_lt htimes.1, htimes.2⟩

theorem SoundTape.take {start finish : ℝ} {tape : List (LabeledTrade ℝ)}
    (h : SoundTape start finish tape) (n : ℕ) : SoundTape start finish (tape.take n) := by
  have hmem : ∀ entry ∈ tape.take n, entry ∈ tape := fun _ => List.mem_of_mem_take
  constructor
  · exact h.forward
  · exact fun entry hentry => h.valid entry (hmem entry hentry)
  · exact fun entry hentry => h.strangers entry (hmem entry hentry)
  · exact h.increasing.sublist (List.take_sublist n tape)
  · exact fun entry hentry => h.between entry (hmem entry hentry)

end Tape

section Normal

/-- What `_normal` makes of a gap and of the arguments that were given. -/
structure Built (sim : MarketSimulator ℝ G) (gap : ℝ) (overrides : Overrides ℝ)
    (result : Trade ℝ × SymbolState ℝ) (sim' : MarketSimulator ℝ G) : Prop where
  frame : ∃ rng, sim' = (sim.tick (sim.elapsed + gap)).withRng rng
  timestamp : result.1.timestamp = clockTime (sim.elapsed + gap)
  price : 1 / 10 ^ 4 ≤ result.1.price ∧ ∀ price ∈ overrides.price, result.1.price = price
  quantity : 1 ≤ result.1.quantity ∧
    ∀ quantity ∈ overrides.quantity, result.1.quantity = quantity
  side : ∀ side ∈ overrides.side, result.1.side = side
  accountId : ∀ account ∈ overrides.accountId, result.1.accountId = some account
  counterpartyId : ∀ account ∈ overrides.counterpartyId, result.1.counterpartyId = some account
  strangers : overrides.accountId = none → overrides.counterpartyId = none →
    result.1.accountId ≠ result.1.counterpartyId
  state : SoundSymbol result.2

/-- Validation takes a payload with a price, a size and a symbol as it is. -/
theorem modelValidate_eq_some {cases : CaseMap} {newId : String} {utcnow : ℚ}
    {payload : TradePayload ℝ} (hprice : 0 < payload.price) (hquantity : 0 < payload.quantity)
    (hsymbol : 1 ≤ payload.symbol.length ∧ payload.symbol.length ≤ 32) :
    ∃ trade, Trade.modelValidate cases newId utcnow payload = some trade ∧
      trade.timestamp = payload.timestamp.getD utcnow ∧ trade.price = payload.price ∧
      trade.quantity = payload.quantity ∧ trade.side = payload.side ∧
      trade.accountId = payload.accountId ∧ trade.counterpartyId = payload.counterpartyId := by
  have hprice' : lt (ofRat 0) payload.price = true := by
    simpa using hprice
  have hquantity' : lt (ofRat 0) payload.quantity = true := by
    simpa using hquantity
  rw [Trade.modelValidate, dif_pos hprice', dif_pos hquantity', if_pos hsymbol]
  exact ⟨_, rfl, rfl, rfl, rfl, rfl, rfl, rfl⟩

/-- The price of a trade and the state of its symbol. -/
def pricing {F : Type} [PyFloat F] (env : Chance F G) (state : SymbolState F) :
    Option F → Sim F G (F × SymbolState F)
  | some price => return (price, state)
  | none => do
      let (price, state) ← nextPrice env state
      return (round price 4, state)

/-- What `_normal` does with a price. -/
def tradeAt {F : Type} [PyFloat F] (env : Chance F G) (gap : F) (overrides : Overrides F)
    (price : F) (state : SymbolState F) : Sim F G (Trade F × SymbolState F) := do
  let size ← drawSize env state
  let sim ← get
  let account ← choice env sim.accounts
  let counterparty ← choice env (sim.accounts.filter (fun other => other ≠ account))
  let side ← choice env [Side.buy, Side.sell]
  let venue ← choice env sim.venues
  let timestamp ← advance env gap
  let tradeId ← draw env.uuid4
  let payload : TradePayload F :=
    { timestamp := some timestamp
      symbol := state.symbol
      price := price
      quantity := overrides.quantity.getD size
      side := overrides.side.getD side
      accountId := some (overrides.accountId.getD account)
      counterpartyId := some (overrides.counterpartyId.getD counterparty)
      venue := some venue }
  match Trade.modelValidate env.cases tradeId timestamp payload with
  | some trade => return (trade, state)
  | none => throw .valueError

theorem normal_eq {F : Type} [PyFloat F] (env : Chance F G) (state : SymbolState F) (gap : F)
    (overrides : Overrides F) :
    normal env state gap overrides = (do
      let (price, state) ← pricing env state overrides.price
      tradeAt env gap overrides price state) := by
  unfold normal pricing
  cases overrides.price with
  | some price => rfl
  | none => rfl

/-- What is known of the price of a trade. -/
structure Priced (sim : MarketSimulator ℝ G) (state : SymbolState ℝ) (given : Option ℝ)
    (result : ℝ × SymbolState ℝ) (sim' : MarketSimulator ℝ G) : Prop where
  frame : ∃ rng, sim' = sim.withRng rng
  price : 1 / 10 ^ 4 ≤ result.1
  given : ∀ price ∈ given, result.1 = price
  state : SoundSymbol result.2

theorem meets_pricing {sim : MarketSimulator ℝ G} {state : SymbolState ℝ}
    (hstate : SoundSymbol state) {given : Option ℝ}
    (hgiven : ∀ price ∈ given, 1 / 10 ^ 4 ≤ price) :
    Meets (clockLimit G) (pricing env.endless state given) (pricing env state given)
      (sim.withRng rng) (Priced sim state given) := by
  cases given with
  | some price => exact .pure ⟨⟨rng, rfl⟩, hgiven price rfl, by simp, hstate⟩
  | none =>
      have hfloor : ∀ shock : ℝ, 1 / 10 ^ 4 ≤
          pyMax (ofRat (1 / 100)) (mul state.price (add (ofRat 1) shock)) := by
        intro shock
        rw [pyMax_real, ofRat_real]
        refine le_trans ?_ (le_max_left _ _)
        norm_num
      have hrounded : ∀ shock : ℝ, 1 / 10 ^ 4 ≤ roundDigits
          (pyMax (ofRat (1 / 100)) (mul state.price (add (ofRat 1) shock))) 4 := by
        intro shock
        have hshock := hfloor shock
        apply round_price
        linarith
      refine meets_bind_of_eq rfl (.pure ?_)
      exact ⟨⟨_, rfl⟩, hrounded _, by simp, ⟨hstate.symbol, hfloor _, hstate.baseSize⟩⟩

theorem meets_tradeAt (henv : env.Documented) {sim : MarketSimulator ℝ G} (hsim : Sound sim)
    {state : SymbolState ℝ} (hstate : SoundSymbol state) {gap price : ℝ} (hgap : 0 ≤ gap)
    {overrides : Overrides ℝ} (hprice : 1 / 10 ^ 4 ≤ price)
    (hgiven : ∀ given ∈ overrides.price, price = given)
    (hquantity : ∀ quantity ∈ overrides.quantity, 1 ≤ quantity) :
    Meets (clockLimit G) (tradeAt env.endless gap overrides price state)
      (tradeAt env gap overrides price state) (sim.withRng rng) (Built sim gap overrides) := by
  unfold tradeAt
  refine meets_drawSize_bind ?_
  intro size hsize rng
  refine Meets.get_bind ?_
  obtain ⟨a, ha, b, hb, hab⟩ := hsim.accounts
  refine meets_choice_bind (List.ne_nil_of_mem ha) ?_
  intro account haccount rng
  have hother : sim.accounts.filter (fun other => other ≠ account) ≠ [] := by
    rcases eq_or_ne a account with rfl | hne
    · exact List.ne_nil_of_mem (List.mem_filter.mpr ⟨hb, by simpa using hab.symm⟩)
    · exact List.ne_nil_of_mem (List.mem_filter.mpr ⟨ha, by simpa using hne⟩)
  refine meets_choice_bind hother ?_
  intro counterparty hcounterparty rng
  refine meets_choice_bind (List.cons_ne_nil _ _) ?_
  intro side _ rng
  refine meets_choice_bind hsim.venues ?_
  intro venue _ rng
  refine Meets.bind (meets_advance henv hsim.clock hgap) ?_
  rintro _ _ ⟨rfl, rfl⟩
  refine meets_draw_bind ?_
  intro seed rng
  have hgivenSize : 1 ≤ overrides.quantity.getD size := by
    cases hgiven : overrides.quantity with
    | none => exact hsize
    | some quantity => exact hquantity quantity hgiven
  have hpositive : 0 < price := lt_of_lt_of_le (by norm_num) hprice
  obtain ⟨trade, htrade, htimestamp, hcost, hsizes, hside, haccountId, hcounterpartyId⟩ :=
    @modelValidate_eq_some env.cases (env.uuid4 seed).1 (clockTime (sim.elapsed + gap))
      { timestamp := some (clockTime (sim.elapsed + gap))
        symbol := state.symbol
        price := price
        quantity := overrides.quantity.getD size
        side := overrides.side.getD side
        accountId := some (overrides.accountId.getD account)
        counterpartyId := some (overrides.counterpartyId.getD counterparty)
        venue := some venue } hpositive (by dsimp only; linarith) hstate.symbol
  dsimp only [Chance.endless]
  rw [htrade]
  refine .pure ⟨⟨rng, rfl⟩, htimestamp, ⟨?_, ?_⟩, ⟨?_, ?_⟩, ?_, ?_, ?_, ?_, hstate⟩
  · exact hcost ▸ hprice
  · intro given hmem
    rw [← hgiven given hmem]
    exact hcost
  · exact hsizes ▸ hgivenSize
  · intro given hmem
    dsimp only
    rw [hsizes, Option.mem_def.mp hmem]
    rfl
  · intro given hmem
    dsimp only
    rw [hside, Option.mem_def.mp hmem]
    rfl
  · intro given hmem
    dsimp only
    rw [haccountId, Option.mem_def.mp hmem]
    rfl
  · intro given hmem
    dsimp only
    rw [hcounterpartyId, Option.mem_def.mp hmem]
    rfl
  · intro hnone hnone'
    have hne : counterparty ≠ account := by
      simpa using (List.mem_filter.mp hcounterparty).2
    dsimp only
    rw [haccountId, hcounterpartyId, hnone, hnone']
    exact fun hsame => hne (Option.some.inj hsame).symm

theorem meets_normal (henv : env.Documented) {sim : MarketSimulator ℝ G} (hsim : Sound sim)
    {state : SymbolState ℝ} (hstate : SoundSymbol state) {gap : ℝ} (hgap : 0 ≤ gap)
    {overrides : Overrides ℝ} (hprice : ∀ price ∈ overrides.price, 1 / 10 ^ 4 ≤ price)
    (hquantity : ∀ quantity ∈ overrides.quantity, 1 ≤ quantity) :
    Meets (clockLimit G) (normal env.endless state gap overrides)
      (normal env state gap overrides) (sim.withRng rng) (Built sim gap overrides) := by
  rw [normal_eq, normal_eq]
  refine (meets_pricing hstate hprice).bind ?_
  rintro ⟨price, state'⟩ _ ⟨⟨rng, rfl⟩, hpositive, hgiven, hstate'⟩
  exact meets_tradeAt henv hsim hstate' hgap hpositive hgiven hquantity

end Normal

section Batch

/-- What a batch makes of a sound symbol. -/
structure Batched (sim : MarketSimulator ℝ G) (result : List (LabeledTrade ℝ) × SymbolState ℝ)
    (sim' : MarketSimulator ℝ G) : Prop where
  frame : ∃ elapsed rng, sim' = (sim.tick elapsed).withRng rng
  tape : SoundTape sim.elapsed sim'.elapsed result.1
  paired : Paired result.1
  state : SoundSymbol result.2

theorem Built.soundTape {sim sim' : MarketSimulator ℝ G} {gap : ℝ} {overrides : Overrides ℝ}
    {result : Trade ℝ × SymbolState ℝ} (h : Built sim gap overrides result sim')
    (hgap : 1 / 100 ≤ gap) {label : Option String}
    (hlabel : label = none → overrides.accountId = none ∧ overrides.counterpartyId = none) :
    SoundTape sim.elapsed sim'.elapsed [(result.1, label)] := by
  obtain ⟨rng, rfl⟩ := h.frame
  have hlater : sim.elapsed + 1 / 100 ≤ sim.elapsed + gap := by linarith
  constructor
  · change sim.elapsed ≤ sim.elapsed + gap
    linarith
  · exact List.forall_mem_singleton.mpr ⟨h.price.1, h.quantity.1⟩
  · exact List.forall_mem_singleton.mpr
      (fun hnone => h.strangers (hlabel hnone).1 (hlabel hnone).2)
  · exact List.pairwise_singleton _ _
  · refine List.forall_mem_singleton.mpr ⟨?_, h.timestamp.le⟩
    exact (clockTime_lt hlater).trans_eq h.timestamp.symm

theorem paired_of_label {batch : List (LabeledTrade ℝ)} {label : Option String}
    (h : ∀ entry ∈ batch, entry.2 = label) (hne : label ≠ some AnomalyKind.washTrade.value) :
    Paired batch := by
  rintro ⟨entry, hentry, hwash⟩
  exact absurd ((h entry hentry).symm.trans hwash) hne

/-- A trade that is a batch of its own. -/
theorem Built.batched {sim sim' : MarketSimulator ℝ G} {gap : ℝ} {overrides : Overrides ℝ}
    {trade : Trade ℝ} {state : SymbolState ℝ} (h : Built sim gap overrides (trade, state) sim')
    (hgap : 1 / 100 ≤ gap) {label : Option String}
    (hlabel : label = none → overrides.accountId = none ∧ overrides.counterpartyId = none)
    (hne : label ≠ some AnomalyKind.washTrade.value) :
    Batched sim ([(trade, label)], state) sim' := by
  obtain ⟨rng, hframe⟩ := h.frame
  exact ⟨⟨_, rng, hframe⟩, h.soundTape hgap hlabel,
    paired_of_label (List.forall_mem_singleton.mpr rfl) hne, h.state⟩

theorem burstInterval_real : (burstInterval : ℝ) = 2 / 100 := by
  rw [burstInterval, ofRat_real]
  norm_num

theorem meets_burst (henv : env.Documented) {sim : MarketSimulator ℝ G} (hsim : Sound sim)
    {state : SymbolState ℝ} (hstate : SoundSymbol state) {label : String}
    (hne : label ≠ AnomalyKind.washTrade.value) {overrides : Overrides ℝ}
    (hprice : ∀ price ∈ overrides.price, 1 / 10 ^ 4 ≤ price)
    (hquantity : ∀ quantity ∈ overrides.quantity, 1 ≤ quantity) (n : ℕ) :
    Meets (clockLimit G) (burst env.endless label overrides n state)
      (burst env label overrides n state) (sim.withRng rng) (Batched sim) := by
  have hruns : Meets (clockLimit G) (burst env.endless label overrides n state)
      (burst env label overrides n state) (sim.withRng rng) (fun result sim' =>
        (∃ elapsed rng, sim' = (sim.tick elapsed).withRng rng) ∧
          SoundTape sim.elapsed sim'.elapsed result.1 ∧ SoundSymbol result.2) := by
    induction n generalizing sim state rng with
    | zero => exact .pure ⟨⟨sim.elapsed, rng, rfl⟩, .nil le_rfl, hstate⟩
    | succ n ih =>
        have hgap : 1 / 100 ≤ (burstInterval : ℝ) := by
          rw [burstInterval_real]
          norm_num
        unfold burst
        refine Meets.bind (meets_normal henv hsim hstate (by linarith) hprice hquantity) ?_
        rintro ⟨trade, state'⟩ sim' hbuilt
        have htape : SoundTape sim.elapsed sim'.elapsed [(trade, some label)] :=
          hbuilt.soundTape hgap (by simp)
        obtain ⟨rng', rfl⟩ := hbuilt.frame
        have hsim' := hsim.tick htape.forward
        refine (ih hsim' hbuilt.state).bind ?_
        rintro ⟨rest, state''⟩ sim'' ⟨⟨elapsed, rng'', rfl⟩, hrest, hstate''⟩
        exact .pure ⟨⟨elapsed, rng'', rfl⟩, htape.append hrest, hstate''⟩
  refine (hruns.and_returns (burst_returns env.endless label overrides n state)).mono ?_
  rintro result sim' ⟨⟨hframe, htape, hstate'⟩, _, hlabel⟩
  exact ⟨hframe, htape, paired_of_label hlabel (by simpa using hne), hstate'⟩

theorem anomalyKinds_ne_nil : anomalyKinds ≠ [] := List.cons_ne_nil _ _

theorem meets_anomalous (henv : env.Documented) {sim : MarketSimulator ℝ G} (hsim : Sound sim)
    {state : SymbolState ℝ} (hstate : SoundSymbol state) :
    Meets (clockLimit G) (anomalous env.endless state) (anomalous env state) (sim.withRng rng)
      (Batched sim) := by
  unfold anomalous
  refine meets_choice_bind anomalyKinds_ne_nil ?_
  intro kind _ rng
  cases kind with
  | priceSpike =>
      refine meets_choice_bind (List.cons_ne_nil _ _) ?_
      intro direction hdirection rng
      refine meets_uniform_bind henv (by norm_num) ?_
      intro move hlow hhigh rng
      have hdirection' : (direction : ℝ) = -1 ∨ (direction : ℝ) = 1 := by
        rcases List.mem_pair.mp hdirection with rfl | rfl <;> norm_num
      push_cast at hlow hhigh
      have hspiked : 1 / 10 ^ 4 ≤
          round (mul state.price (add (ofRat 1) (mul (ofRat direction) move))) 4 := by
        simpa [round_real] using spike_price hstate.price hdirection' hlow hhigh
      have hstate' : SoundSymbol { state with
          price := round (mul state.price (add (ofRat 1) (mul (ofRat direction) move))) 4 } :=
        ⟨hstate.symbol, hspiked, hstate.baseSize⟩
      refine meets_normalGap_bind ?_
      intro gap hgap rng
      refine Meets.bind (meets_normal henv hsim hstate' (by linarith) ?_ (by simp)) ?_
      · exact fun price hprice => Option.some.inj hprice ▸ hspiked
      rintro ⟨trade, state'⟩ sim' hbuilt
      exact .pure (hbuilt.batched hgap (by simp) (by decide))
  | volumeSpike =>
      refine meets_uniform_bind henv (by norm_num) ?_
      intro factor hlow _ rng
      push_cast at hlow
      have hsize : 1 ≤ round (mul state.baseSize factor) 2 := volume_size hstate.baseSize hlow
      refine meets_normalGap_bind ?_
      intro gap hgap rng
      refine Meets.bind (meets_normal henv hsim hstate (by linarith) (by simp)
        (by simpa using hsize)) ?_
      rintro ⟨trade, state'⟩ sim' hbuilt
      exact .pure (hbuilt.batched hgap (by simp) (by decide))
  | velocityBurst =>
      refine meets_draw_bind ?_
      intro seed rng
      exact meets_burst henv hsim hstate (by decide) (by simp) (by simp) _
  | spoofing =>
      refine meets_choice_bind (List.cons_ne_nil _ _) ?_
      intro side _ rng
      refine meets_draw_bind ?_
      intro seed rng
      exact meets_burst henv hsim hstate (by decide) (by simp) (by simp) _
  | washTrade =>
      refine Meets.get_bind ?_
      obtain ⟨a, ha, _⟩ := hsim.accounts
      refine meets_choice_bind (List.ne_nil_of_mem ha) ?_
      intro account _ rng
      refine meets_drawSize_bind ?_
      intro qty hqty rng
      refine meets_normalGap_bind ?_
      intro gap hgap rng
      have hsound := hstate.price
      have hprice : 1 / 10 ^ 4 ≤ round state.price 4 := by
        apply round_price
        linarith
      have hburst : 1 / 100 ≤ (burstInterval : ℝ) := by
        rw [burstInterval_real]
        norm_num
      refine Meets.bind (meets_normal henv hsim hstate (by linarith) (by simpa using hprice)
        (by simpa using hqty)) ?_
      rintro ⟨buy, state'⟩ sim' hbuy
      have hbuyTape : SoundTape sim.elapsed sim'.elapsed
          [(buy, some AnomalyKind.washTrade.value)] := hbuy.soundTape hgap (by simp)
      obtain ⟨rng', rfl⟩ := hbuy.frame
      have hsim' := hsim.tick hbuyTape.forward
      refine Meets.bind (meets_normal henv hsim' hbuy.state (by linarith) (by simpa using hprice)
        (by simpa using hqty)) ?_
      rintro ⟨sell, state''⟩ sim'' hsell
      have hsellTape : SoundTape (sim.elapsed + gap) sim''.elapsed
          [(sell, some AnomalyKind.washTrade.value)] := hsell.soundTape hburst (by simp)
      obtain ⟨rng'', rfl⟩ := hsell.frame
      refine .pure ⟨⟨_, rng'', rfl⟩, hbuyTape.append hsellTape, fun _ => ?_, hsell.state⟩
      have hbuyer := hbuy.accountId account rfl
      refine ⟨buy, sell, rfl, hbuy.side _ rfl, hsell.side _ rfl, ?_, ?_, ?_, ?_, ?_⟩
      · exact (hbuy.counterpartyId account rfl).trans hbuyer.symm
      · exact (hsell.accountId account rfl).trans hbuyer.symm
      · exact (hsell.counterpartyId account rfl).trans hbuyer.symm
      · exact (hsell.price.2 _ rfl).trans (hbuy.price.2 _ rfl).symm
      · exact (hsell.quantity.2 _ rfl).trans (hbuy.quantity.2 _ rfl).symm

theorem meets_normalBatch (henv : env.Documented) {sim : MarketSimulator ℝ G} (hsim : Sound sim)
    {state : SymbolState ℝ} (hstate : SoundSymbol state) :
    Meets (clockLimit G) (normalBatch env.endless state) (normalBatch env state)
      (sim.withRng rng) (Batched sim) := by
  unfold normalBatch
  refine meets_normalGap_bind ?_
  intro gap hgap rng
  refine Meets.bind (meets_normal henv hsim hstate (by linarith) (by simp) (by simp)) ?_
  rintro ⟨trade, state'⟩ sim' hbuilt
  exact .pure (hbuilt.batched hgap (by simp) (by simp))

/-- A batch keeps what the simulator keeps, and adds to the tape what it promises. -/
theorem meets_nextBatch (henv : env.Documented) {sim : MarketSimulator ℝ G} (hsim : Sound sim) :
    Meets (clockLimit G) (nextBatch env.endless) (nextBatch env) sim (fun batch sim' =>
      Sound sim' ∧ SoundTape sim.elapsed sim'.elapsed batch ∧ Paired batch) := by
  change Meets _ _ _ (sim.withRng sim.rng) _
  unfold nextBatch
  refine Meets.get_bind ?_
  refine meets_choice_bind hsim.symbols ?_
  intro symbol hsymbol rng
  obtain ⟨state, hget⟩ := OrderedDict.mem_keys_iff.mp hsymbol
  rw [hget]
  refine meets_draw_bind ?_
  intro seed rng
  refine Meets.bind (?_ : Meets _ _ _ _ (Batched sim)) ?_
  · have hstate := hsim.states symbol state hget
    exact .ite (meets_anomalous henv hsim hstate) (meets_normalBatch henv hsim hstate)
  · rintro ⟨batch, state'⟩ sim' hbatch
    obtain ⟨elapsed, rng', rfl⟩ := hbatch.frame
    refine .same rfl Iff.rfl ⟨?_, hbatch.tape, hbatch.paired⟩
    refine ⟨?_, ?_, hsim.accounts, hsim.venues, hsim.clock.trans hbatch.tape.forward⟩
    · exact List.ne_nil_of_mem ((OrderedDict.mem_keys_set _ _ symbol _).mpr (Or.inl rfl))
    · intro other state'' hget'
      change (sim.states.set symbol state').get? other = some state'' at hget'
      rw [OrderedDict.get?_set] at hget'
      split at hget'
      · exact Option.some.inj hget' ▸ hbatch.state
      · exact hsim.states other state'' hget'

end Batch

section Run

/-- So many batches. -/
def nextBatches {F : Type} [PyFloat F] (env : Chance F G) :
    ℕ → Sim F G (List (List (LabeledTrade F)))
  | 0 => return []
  | n + 1 => do
      let batch ← nextBatch env
      let rest ← nextBatches env n
      return batch :: rest

/-- What is known of the batches of a run. -/
def SoundRun (sim : MarketSimulator ℝ G) (taken : List (List (LabeledTrade ℝ)))
    (sim' : MarketSimulator ℝ G) : Prop :=
  SoundTape sim.elapsed sim'.elapsed taken.flatten ∧ ∀ batch ∈ taken, Paired batch

/-- A tape made of batches, the last of them cut where the tape is full. -/
def CutFrom (n : ℕ) (tape : List (LabeledTrade ℝ)) : Prop :=
  ∃ taken : List (List (LabeledTrade ℝ)),
    tape = taken.flatten.take n ∧ ∀ batch ∈ taken, Paired batch

theorem SoundRun.cons {sim middle sim' : MarketSimulator ℝ G} {batch : List (LabeledTrade ℝ)}
    {taken : List (List (LabeledTrade ℝ))}
    (htape : SoundTape sim.elapsed middle.elapsed batch) (hpaired : Paired batch)
    (h : SoundRun middle taken sim') : SoundRun sim (batch :: taken) sim' := by
  refine ⟨?_, List.forall_mem_cons.mpr ⟨hpaired, h.2⟩⟩
  rw [List.flatten_cons]
  exact htape.append h.1

theorem SoundRun.nil (sim : MarketSimulator ℝ G) : SoundRun sim [] sim :=
  ⟨.nil le_rfl, by simp⟩

theorem meets_nextBatches (henv : env.Documented) {sim : MarketSimulator ℝ G}
    (hsim : Sound sim) (n : ℕ) :
    Meets (clockLimit G) (nextBatches env.endless n) (nextBatches env n) sim (SoundRun sim) := by
  induction n generalizing sim with
  | zero => exact .pure (.nil sim)
  | succ n ih =>
      unfold nextBatches
      refine (meets_nextBatch henv hsim).bind ?_
      rintro batch middle ⟨hmiddle, htape, hpaired⟩
      refine (ih hmiddle).bind ?_
      intro rest sim' hrest
      exact .pure (.cons htape hpaired hrest)

/-- The batches that a bounded tape takes. -/
theorem meets_batches (henv : env.Documented) {sim : MarketSimulator ℝ G} (hsim : Sound sim)
    (count : ℤ) (passes total : ℕ) :
    Meets (clockLimit G) (batches env.endless count passes total)
      (batches env count passes total) sim (SoundRun sim) := by
  induction passes generalizing sim total with
  | zero => exact .pure (.nil sim)
  | succ passes ih =>
      unfold batches
      refine .ite ?_ (.pure (.nil sim))
      refine (meets_nextBatch henv hsim).bind ?_
      rintro batch middle ⟨hmiddle, htape, hpaired⟩
      refine (ih hmiddle _).bind ?_
      intro rest sim' hrest
      exact .pure (.cons htape hpaired hrest)

/-- The bounded tape is cut to the number of trades asked for, and there are enough. -/
theorem meets_labeledBatch (henv : env.Documented) {sim : MarketSimulator ℝ G} (hsim : Sound sim)
    (count : ℤ) :
    Meets (clockLimit G) (labeledBatch env.endless count) (labeledBatch env count) sim
      (fun tape sim' => tape.length = count.toNat ∧
        SoundTape sim.elapsed sim'.elapsed tape ∧ CutFrom count.toNat tape) := by
  have htaken := (meets_batches henv hsim count count.toNat 0).and_returns
    (batches_enough env.endless count count.toNat 0 (by omega))
  unfold labeledBatch
  rw [extendTo_eq, extendTo_eq, bind_assoc, bind_assoc]
  refine htaken.bind ?_
  rintro taken sim' ⟨hrun, henough⟩
  refine .pure ⟨?_, hrun.1.take count.toNat, taken, rfl, hrun.2⟩
  rw [List.nil_append, List.length_take]
  omega

end Run

section Init

theorem sound_symbolState (henv : env.Documented) {symbol : String}
    (hsymbol : 1 ≤ symbol.length ∧ symbol.length ≤ 32) {price : ℝ} (hprice : 1 / 10 ^ 4 ≤ price)
    (rng : G) : SoundSymbol (symbolState env symbol price rng).1 := by
  have hbase : ∀ rng, 50 ≤ (env.uniform (ofRat 50) (ofRat 500) rng).1 := by
    intro rng
    have hbounds := henv.uniform (ofRat 50) (ofRat 500) rng (by norm_num)
    simpa using hbounds.1
  exact ⟨hsymbol, hprice, hbase _⟩

/-- A symbol starts from its known price, or from one that is drawn. -/
theorem seedPrice_sound (symbol : String) {fallback : ℝ} (h : 20 ≤ fallback) :
    1 / 10 ^ 4 ≤ ((seedPrices : List (String × ℝ)).lookup symbol).getD fallback := by
  have hknown : ∀ entry ∈ (seedPrices : List (String × ℝ)), 1 / 10 ^ 4 ≤ entry.2 := by
    unfold seedPrices
    simp only [List.forall_mem_cons, ofRat_real]
    norm_num
  cases hlookup : (seedPrices : List (String × ℝ)).lookup symbol with
  | none =>
      rw [Option.getD_none]
      linarith
  | some price =>
      obtain ⟨before, after, hsplit, _⟩ := List.lookup_eq_some_iff.mp hlookup
      apply hknown (symbol, price)
      rw [hsplit]
      exact List.mem_append_right _ List.mem_cons_self

theorem initStates_sound (henv : env.Documented) {symbols : List String}
    (hsymbols : ∀ symbol ∈ symbols, 1 ≤ symbol.length ∧ symbol.length ≤ 32)
    {states : OrderedDict String (SymbolState ℝ)}
    (hstates : ∀ symbol state, states.get? symbol = some state → SoundSymbol state) (rng : G) :
    ∀ symbol state, (initStates env symbols states rng).1.get? symbol = some state →
      SoundSymbol state := by
  induction symbols generalizing states rng with
  | nil => exact hstates
  | cons symbol rest ih =>
      obtain ⟨hsymbol, hrest⟩ := List.forall_mem_cons.mp hsymbols
      apply ih hrest
      intro other state hget
      rw [OrderedDict.get?_set] at hget
      split at hget
      · have hfallback := henv.uniform (ofRat 20) (ofRat 800) rng (by norm_num)
        rw [← Option.some.inj hget]
        exact sound_symbolState henv hsymbol (seedPrice_sound symbol (by simpa using hfallback.1)) _
      · exact hstates other state hget

theorem keys_initStates {symbols : List String} {states : OrderedDict String (SymbolState ℝ)}
    (rng : G) {symbol : String} (h : symbol ∈ symbols ∨ symbol ∈ states.keys) :
    symbol ∈ (initStates env symbols states rng).1.keys := by
  induction symbols generalizing states rng with
  | nil => exact h.resolve_left List.not_mem_nil
  | cons first rest ih =>
      apply ih
      rw [OrderedDict.mem_keys_set]
      simp only [List.mem_cons] at h
      tauto

theorem sound_init (henv : env.Documented) {symbols : List String} (hne : symbols ≠ [])
    (hsymbols : ∀ symbol ∈ symbols, 1 ≤ symbol.length ∧ symbol.length ≤ 32)
    (anomalyRate : ℝ) (rng : G) : Sound (init env symbols anomalyRate rng) := by
  constructor
  · obtain ⟨symbol, hsymbol⟩ := List.exists_mem_of_ne_nil symbols hne
    exact List.ne_nil_of_mem (keys_initStates rng (Or.inl hsymbol))
  · exact initStates_sound henv hsymbols (by simp) rng
  · have hzero : (0 : ℕ) ∈ List.range 40 := List.mem_range.mpr (by omega)
    have hone : (1 : ℕ) ∈ List.range 40 := List.mem_range.mpr (by omega)
    exact ⟨_, List.mem_map_of_mem hzero, _, List.mem_map_of_mem hone, by decide +kernel⟩
  · exact List.cons_ne_nil _ _
  · change (0 : ℝ) ≤ (ofRat 0 : ℝ)
    simp

end Init

section Main

/-- On a calendar that has no end the simulator never raises, and everything it makes
is sound, for any number of batches and of trades asked for. The code makes the same as
long as its clock shows a date, and raises an `OverflowError` from then on. -/
theorem simulator_sound (henv : env.Documented) {symbols : List String} (hne : symbols ≠ [])
    (hsymbols : ∀ symbol ∈ symbols, 1 ≤ symbol.length ∧ symbol.length ≤ 32)
    (anomalyRate : ℝ) (rng : G) :
    (∀ n, ∃ taken sim,
      nextBatches env.endless n (init env symbols anomalyRate rng) = .ok (taken, sim) ∧
        SoundRun (init env symbols anomalyRate rng) taken sim ∧
        Limited (clockLimit G) (nextBatches env n (init env symbols anomalyRate rng))
          taken sim) ∧
      ∀ count : ℤ, ∃ tape sim,
        labeledBatch env.endless count (init env symbols anomalyRate rng) = .ok (tape, sim) ∧
          tape.length = count.toNat ∧ SoundTape (ofRat 0) sim.elapsed tape ∧
          CutFrom count.toNat tape ∧
          Limited (clockLimit G) (labeledBatch env count (init env symbols anomalyRate rng))
            tape sim := by
  have hsim := sound_init henv hne hsymbols anomalyRate rng
  have hstart : (clockLimit G).within (init env symbols anomalyRate rng) := by
    change Dated (clockTime (ofRat 0 : ℝ))
    rw [ofRat_real, Rat.cast_zero, clockTime_zero]
    decide +kernel
  constructor
  · intro n
    obtain ⟨taken, sim, hrun, hsound, _, hreal⟩ := meets_nextBatches henv hsim n
    exact ⟨taken, sim, hrun, hsound, hreal hstart⟩
  · intro count
    obtain ⟨tape, sim, hrun, ⟨hlength, htape, hcut⟩, _, hreal⟩ :=
      meets_labeledBatch henv hsim count
    exact ⟨tape, sim, hrun, hlength, htape, hcut, hreal hstart⟩

end Main

/-- Outcomes that never vary, with one value of `gauss`. -/
def steadyShocks {K : Type} [Field K] [LinearOrder K] [FloorRing K] (shock : K) :
    Chance K Unit where
  uniform a _ _ := (a, ())
  gauss _ _ _ := (shock, ())
  lognormvariate _ _ _ := (1, ())
  random _ := (0, ())
  randint _ b h _ := (⟨b, h, le_rfl⟩, ())
  choice _ h _ := (⟨0, h⟩, ())
  uuid4 _ := ("t", ())
  timedelta := calendar
  cases := .asciiOnly

theorem steadyShocks_documented {K : Type} [Field K] [LinearOrder K] [FloorRing K] (shock : K) :
    (steadyShocks shock).Documented :=
  ⟨fun _ _ _ h => ⟨le_rfl, h⟩, rfl⟩

theorem simulator_sound_acme : ∃ tape sim,
    labeledBatch (steadyShocks (0 : ℝ)).endless 3
        (init (steadyShocks (0 : ℝ)) ["ACME"] 1 ()) = .ok (tape, sim) ∧
      tape.length = 3 ∧ SoundTape (ofRat 0) sim.elapsed tape ∧ CutFrom 3 tape ∧
      Limited (clockLimit Unit) (labeledBatch (steadyShocks (0 : ℝ)) 3
        (init (steadyShocks (0 : ℝ)) ["ACME"] 1 ())) tape sim := by
  have hsymbols : ∀ symbol ∈ ["ACME"], 1 ≤ symbol.length ∧ symbol.length ≤ 32 := by
    decide
  exact (simulator_sound (steadyShocks_documented 0) (List.cons_ne_nil _ _) hsymbols 1 ()).2 3

/-- A gap of thirty thousand years is an outcome of `gauss` like any other. -/
theorem labeledBatch_beyond_calendar :
    (steadyShocks (10 ^ 12 : ℚ)).Documented ∧
      (labeledBatch (steadyShocks (10 ^ 12 : ℚ)) 1
        (init (steadyShocks (10 ^ 12 : ℚ)) ["ACME"] 0 ())).map (fun result => result.1.length) =
          .error .overflowError :=
  ⟨steadyShocks_documented _, by decide +kernel⟩

end MarketSimulator

end TradeWatch
