import TradeWatch.Replay
import TradeWatch.Sources.Soundness
import TradeWatch.Sources.Stream

/-!
The symbols on the simulator's tape. A batch is made of one symbol, taken from the
dictionary of states, so every trade bears one of the symbols that the simulator was
made for, as validation normalises it.
-/

namespace TradeWatch.MarketSimulator

open PyFloat StateExcept

variable {F G : Type} [PyFloat F] {env : Chance F G} {symbols : List String}

/-- Whatever is in the dictionary is one of the symbols. -/
def Lists (symbols : List String) (sim : MarketSimulator F G) : Prop :=
  ∀ key state, sim.states.get? key = some state → state.symbol ∈ symbols

/-- The trades of a batch bear the symbol. -/
def Bear (env : Chance F G) (symbol : String) (batch : List (LabeledTrade F)) : Prop :=
  ∀ entry ∈ batch, entry.1.symbol = upperSymbol env.cases symbol

section Steps

/-- An invariant that the generator does not matter to. -/
def Unseeded (inv : MarketSimulator F G → Prop) : Prop :=
  ∀ sim rng, inv sim → inv (sim.withRng rng)

/-- Nothing but the generator and the clock moves while a trade is made. -/
def Untimed (inv : MarketSimulator F G → Prop) : Prop :=
  ∀ sim elapsed rng, inv sim → inv ((sim.tick elapsed).withRng rng)

omit [PyFloat F] in
theorem Untimed.unseeded {inv : MarketSimulator F G → Prop} (h : Untimed inv) : Unseeded inv :=
  fun sim rng hsim => h sim sim.elapsed rng hsim

omit [PyFloat F] in
theorem untimed_lists : Untimed (Lists symbols : MarketSimulator F G → Prop) :=
  fun _ _ _ hsim => hsim

section Draws

variable {inv : MarketSimulator F G → Prop} (hinv : Unseeded inv)
include hinv

omit [PyFloat F] in
theorem keeps_draw {α : Type} (f : G → α × G) :
    Keeps inv (draw f : Sim F G α) (fun _ => True) := by
  intro sim result hsim hresult
  cases hresult
  exact ⟨hinv sim _ hsim, trivial⟩

omit [PyFloat F] in
theorem keeps_choice {α : Type} (xs : List α) : Keeps inv (choice env xs) (· ∈ xs) := by
  unfold choice
  split
  · exact (keeps_draw hinv _).after (fun i => .pure (List.get_mem xs i))
  · exact .throw _ _

theorem keeps_drawSize (state : SymbolState F) :
    Keeps inv (drawSize env state) (fun _ => True) :=
  (keeps_draw hinv _).after (fun _ => .pure trivial)

theorem keeps_normalGap : Keeps inv (normalGap env) (fun _ => True) :=
  (keeps_draw hinv _).after (fun _ => .pure trivial)

theorem keeps_pricing (state : SymbolState F) (given : Option F) :
    Keeps inv (pricing env state given) (fun result => result.2.symbol = state.symbol) := by
  cases given with
  | some price => exact .pure rfl
  | none =>
      have hnext : Keeps inv (nextPrice env state)
          (fun result => result.2.symbol = state.symbol) :=
        (keeps_draw hinv _).after (fun _ => .pure rfl)
      exact hnext.bind (fun _ hstate => .pure hstate)

end Draws

theorem keeps_advance {inv : MarketSimulator F G → Prop} (hinv : Untimed inv) (dt : F) :
    Keeps inv (advance env dt) (fun _ => True) := by
  unfold advance
  have hmoved : ∀ sim : MarketSimulator F G, inv sim →
      inv { sim with elapsed := add sim.elapsed (pyMax dt (ofRat 0)) } := fun sim hsim =>
    hinv sim (add sim.elapsed (pyMax dt (ofRat 0))) sim.rng hsim
  refine (Keeps.update hmoved).after ?_
  intro _
  refine Keeps.get.after ?_
  intro sim
  cases hdelta : env.timedelta sim.elapsed with
  | error err => exact .throw _ _
  | ok delta => exact .pure trivial

end Steps

section Batch

/-- What a trade owes to the state of its symbol and to the accounts that were given. -/
structure Given (env : Chance F G) (before : SymbolState F) (overrides : Overrides F)
    (result : Trade F × SymbolState F) : Prop where
  symbol : result.1.symbol = upperSymbol env.cases before.symbol
  state : result.2.symbol = before.symbol
  accountId : ∀ account ∈ overrides.accountId, result.1.accountId = some account
  counterpartyId : ∀ account ∈ overrides.counterpartyId, result.1.counterpartyId = some account

theorem accounts_of_modelValidate {newId : String} {utcnow : ℚ} {payload : TradePayload F}
    {trade : Trade F} (h : Trade.modelValidate env.cases newId utcnow payload = some trade) :
    trade.accountId = payload.accountId ∧ trade.counterpartyId = payload.counterpartyId := by
  unfold Trade.modelValidate at h
  split_ifs at h
  rw [← Option.some.inj h]
  exact ⟨rfl, rfl⟩

variable {inv : MarketSimulator F G → Prop} (hinv : Untimed inv)
include hinv

theorem keeps_normal (state : SymbolState F) (gap : F) (overrides : Overrides F) :
    Keeps inv (normal env state gap overrides) (Given env state overrides) := by
  rw [normal_eq]
  refine (keeps_pricing hinv.unseeded state overrides.price).bind ?_
  rintro ⟨price, state'⟩ hstate
  dsimp only at hstate ⊢
  unfold tradeAt
  refine (keeps_drawSize hinv.unseeded state').after fun size => ?_
  refine Keeps.get.after fun sim => ?_
  refine (keeps_choice hinv.unseeded sim.accounts).after fun account => ?_
  refine (keeps_choice hinv.unseeded _).after fun counterparty => ?_
  refine (keeps_choice hinv.unseeded _).after fun side => ?_
  refine (keeps_choice hinv.unseeded _).after fun venue => ?_
  refine (keeps_advance hinv gap).after fun timestamp => ?_
  refine (keeps_draw hinv.unseeded _).after fun tradeId => ?_
  dsimp only
  split
  · rename_i trade htrade
    have hsymbol := Trade.modelValidate_symbol htrade
    obtain ⟨haccount, hcounterparty⟩ := accounts_of_modelValidate htrade
    dsimp only at hsymbol haccount hcounterparty
    rw [hstate] at hsymbol
    refine Keeps.pure ⟨hsymbol, hstate, ?_, ?_⟩
    · intro given hgiven
      rw [haccount, Option.mem_def.mp hgiven, Option.getD_some]
    · intro given hgiven
      rw [hcounterparty, Option.mem_def.mp hgiven, Option.getD_some]
  · exact Keeps.throw _ _

theorem keeps_burst (label : String) (overrides : Overrides F) (n : ℕ) (state : SymbolState F) :
    Keeps inv (burst env label overrides n state) (fun result =>
      Bear env state.symbol result.1 ∧ result.2.symbol = state.symbol) := by
  induction n generalizing state with
  | zero => exact .pure ⟨by simp [Bear], rfl⟩
  | succ n ih =>
      unfold burst
      refine (keeps_normal hinv state burstInterval overrides).bind ?_
      rintro ⟨trade, state'⟩ htrade
      refine (ih state').bind ?_
      rintro ⟨rest, state''⟩ ⟨hrest, hstate'⟩
      have hstate := htrade.state
      dsimp only at hstate hstate' hrest
      rw [hstate] at hrest
      exact .pure ⟨List.forall_mem_cons.mpr ⟨htrade.symbol, hrest⟩, hstate'.trans hstate⟩

theorem keeps_single (state : SymbolState F) (gap : F) (overrides : Overrides F)
    (label : Option String) :
    Keeps inv (do
        let (trade, state) ← normal env state gap overrides
        return ([(trade, label)], state)) (fun result =>
      Bear env state.symbol result.1 ∧ result.2.symbol = state.symbol) := by
  refine (keeps_normal hinv state gap overrides).bind ?_
  rintro ⟨trade, state'⟩ htrade
  exact .pure ⟨List.forall_mem_singleton.mpr htrade.symbol, htrade.state⟩

theorem keeps_anomalous (state : SymbolState F) :
    Keeps inv (anomalous env state) (fun result =>
      Bear env state.symbol result.1 ∧ result.2.symbol = state.symbol) := by
  unfold anomalous
  refine (keeps_choice hinv.unseeded anomalyKinds).after fun kind => ?_
  cases kind with
  | priceSpike =>
      refine (keeps_choice hinv.unseeded _).after fun direction => ?_
      refine (keeps_draw hinv.unseeded _).after fun move => ?_
      refine (keeps_normalGap hinv.unseeded).after fun gap => ?_
      exact keeps_single hinv _ gap _ _
  | volumeSpike =>
      refine (keeps_draw hinv.unseeded _).after fun factor => ?_
      refine (keeps_normalGap hinv.unseeded).after fun gap => ?_
      exact keeps_single hinv state gap _ _
  | velocityBurst =>
      exact (keeps_draw hinv.unseeded _).after fun n => keeps_burst hinv _ _ n.val state
  | spoofing =>
      refine (keeps_choice hinv.unseeded _).after fun side => ?_
      exact (keeps_draw hinv.unseeded _).after fun n => keeps_burst hinv _ _ n.val state
  | washTrade =>
      refine Keeps.get.after fun sim => ?_
      refine (keeps_choice hinv.unseeded sim.accounts).after fun account => ?_
      refine (keeps_drawSize hinv.unseeded state).after fun qty => ?_
      refine (keeps_normalGap hinv.unseeded).after fun gap => ?_
      refine (keeps_normal hinv state gap _).bind ?_
      rintro ⟨buy, state'⟩ hbuy
      refine (keeps_normal hinv state' burstInterval _).bind ?_
      rintro ⟨sell, state''⟩ hsell
      have hstate := hbuy.state
      have hsymbol := hsell.symbol
      dsimp only at hstate hsymbol
      rw [hstate] at hsymbol
      refine .pure ⟨List.forall_mem_cons.mpr ⟨hbuy.symbol, ?_⟩, hsell.state.trans hstate⟩
      exact List.forall_mem_singleton.mpr hsymbol

end Batch

section Run

/-- A batch bears one of the symbols. -/
theorem keeps_nextBatch : Keeps (Lists symbols) (nextBatch env) (fun batch =>
    ∃ symbol ∈ symbols, Bear env symbol batch) := by
  unfold nextBatch
  refine Keeps.get.bind fun sim hsim => ?_
  refine (keeps_choice untimed_lists.unseeded sim.states.keys).after fun symbol => ?_
  cases hget : sim.states.get? symbol with
  | none => exact .throw _ _
  | some state =>
      have hsymbol := hsim symbol state hget
      refine (keeps_draw untimed_lists.unseeded _).after fun x => ?_
      refine Keeps.bind (.ite (keeps_anomalous untimed_lists state) ?_) ?_
      · exact (keeps_normalGap untimed_lists.unseeded).after fun gap =>
          keeps_single untimed_lists state gap {} none
      · rintro ⟨batch, state'⟩ ⟨hbatch, hstate⟩
        refine Keeps.after (Keeps.update ?_) fun _ => .pure ⟨_, hsymbol, hbatch⟩
        intro sim' hsim' key other hkey
        rw [OrderedDict.get?_set] at hkey
        split at hkey
        · obtain rfl := Option.some.inj hkey
          exact hstate ▸ hsymbol
        · exact hsim' key other hkey

/-- Every trade bears one of the symbols. -/
def OnlyOf (env : Chance F G) (symbols : List String) (trades : List (Trade F)) : Prop :=
  ∀ trade ∈ trades, ∃ symbol ∈ symbols, trade.symbol = upperSymbol env.cases symbol

theorem onlyOf_batch {batch : List (LabeledTrade F)}
    (h : ∃ symbol ∈ symbols, Bear env symbol batch) : OnlyOf env symbols (batch.map Prod.fst) := by
  obtain ⟨symbol, hsymbol, hbatch⟩ := h
  intro trade htrade
  obtain ⟨entry, hentry, rfl⟩ := List.mem_map.mp htrade
  exact ⟨symbol, hsymbol, hbatch entry hentry⟩

/-- Symbols that are in ASCII capitals, without white space around them, are borne as
they are. -/
theorem mem_of_onlyOf {trades : List (Trade F)}
    (hnormal : ∀ symbol ∈ symbols, symbol.toList.all (fun c => c.toNat < 128) = true ∧
      (strip symbol.toList).map Char.toUpper = symbol.toList)
    (h : OnlyOf env symbols trades) : ∀ trade ∈ trades, trade.symbol ∈ symbols := by
  intro trade htrade
  obtain ⟨symbol, hsymbol, heq⟩ := h trade htrade
  obtain ⟨hascii, hupper⟩ := hnormal symbol hsymbol
  have hself : upperSymbol env.cases symbol = symbol := by
    apply String.toList_inj.mp
    rw [toList_upperSymbol env.cases (by simpa using hascii), hupper]
  rw [heq, hself]
  exact hsymbol

section Tape

variable {inv : MarketSimulator F G → Prop} {good : LabeledTrade F → Prop}
  (hbatch : Keeps inv (nextBatch env) (fun batch => ∀ entry ∈ batch, good entry))
include hbatch

theorem keeps_extendTo (count : ℤ) (passes : ℕ) {out : List (LabeledTrade F)}
    (hout : ∀ entry ∈ out, good entry) :
    Keeps inv (extendTo env count passes out) (fun tape => ∀ entry ∈ tape, good entry) := by
  induction passes generalizing out with
  | zero => exact .pure hout
  | succ passes ih =>
      unfold extendTo
      refine .ite (hbatch.bind fun batch hgood => ih ?_) (.pure hout)
      exact List.forall_mem_append.mpr ⟨hout, hgood⟩

/-- What holds of the trades of every batch holds of the tape. -/
theorem keeps_tape (count : ℤ) :
    Keeps inv (labeledBatch env count) (fun tape => ∀ entry ∈ tape, good entry) := by
  refine (keeps_extendTo hbatch count count.toNat (by simp)).bind fun out hout => .pure ?_
  exact fun entry hentry => hout entry (List.mem_of_mem_take hentry)

end Tape

theorem keeps_labeledBatch (count : ℤ) :
    Keeps (Lists symbols) (labeledBatch env count)
      (fun tape => OnlyOf env symbols (tape.map Prod.fst)) := by
  have hbatch : Keeps (Lists symbols) (nextBatch env) (fun batch =>
      ∀ entry ∈ batch, ∃ symbol ∈ symbols, entry.1.symbol = upperSymbol env.cases symbol) := by
    refine keeps_nextBatch.mono ?_
    rintro batch ⟨symbol, hsymbol, hbear⟩ entry hentry
    exact ⟨symbol, hsymbol, hbear entry hentry⟩
  exact (keeps_tape hbatch count).mono fun tape htape => List.forall_mem_map.mpr htape

theorem onlyOf_stream (maxTrades : Option ℤ) (passes emitted : ℕ) {sim : MarketSimulator F G}
    (hsim : Lists symbols sim) :
    OnlyOf env symbols (stream env maxTrades passes emitted sim).1 := by
  induction passes generalizing emitted sim with
  | zero => simp [stream, OnlyOf]
  | succ passes ih =>
      unfold stream
      split
      · cases hbatch : nextBatch env sim with
        | error err => simp [OnlyOf]
        | ok result =>
            obtain ⟨batch, sim'⟩ := result
            obtain ⟨hsim', hone⟩ := keeps_nextBatch sim (batch, sim') hsim hbatch
            exact List.forall_mem_append.mpr ⟨onlyOf_batch hone, ih _ hsim'⟩
      · simp [OnlyOf]

/-- The dictionary is made of the symbols that are asked for. -/
theorem lists_initStates {wanted : List String} (hwanted : ∀ symbol ∈ wanted, symbol ∈ symbols)
    {states : OrderedDict String (SymbolState F)}
    (hstates : ∀ key state, states.get? key = some state → state.symbol ∈ symbols) (rng : G) :
    ∀ key state, (initStates env wanted states rng).1.get? key = some state →
      state.symbol ∈ symbols := by
  induction wanted generalizing states rng with
  | nil => exact hstates
  | cons symbol rest ih =>
      obtain ⟨hsymbol, hrest⟩ := List.forall_mem_cons.mp hwanted
      apply ih hrest
      intro key state hget
      rw [OrderedDict.get?_set] at hget
      split at hget
      · rw [← Option.some.inj hget]
        exact hsymbol
      · exact hstates key state hget

theorem lists_init (symbols : List String) (anomalyRate : F) (rng : G) :
    Lists symbols (init env symbols anomalyRate rng) :=
  lists_initStates (fun _ h => h) (by simp) rng

end Run

end TradeWatch.MarketSimulator
