import TradeWatch.Metrics

/-!
The books of the collector. One `record` updates aggregates at three levels: the
whole, the symbol, the single trade. What they owe each other, and the calls so
far, is one invariant. The sums over the symbols are carried through an
assignment by what it adds to one symbol; what is known of a symbol is stated
against the calls with its trades.
-/

namespace TradeWatch

open PyFloat

/-- A row of the tape is about this call. -/
structure TapeRow.Shows (row : TapeRow ℝ) (call : RecordCall ℝ) : Prop where
  tradeId : row.tradeId = call.trade.tradeId
  symbol : row.symbol = call.trade.symbol
  price : row.price = call.trade.price
  quantity : row.quantity = call.trade.quantity
  side : row.side = call.trade.side
  ts : row.ts = call.trade.timestamp
  anomalous : row.anomalous = true ↔ call.alerts ≠ []

namespace MetricsCollector

/-- The calls with trades of one symbol. -/
def ofSymbol {F : Type} [PyFloat F] (calls : List (RecordCall F)) (symbol : String) :
    List (RecordCall F) :=
  calls.filter (fun call => call.trade.symbol = symbol)

/-- What the aggregates of a symbol say of the calls with its trades. `shown` is
what the sparkline makes of a price. -/
structure Describes (row : SymbolMetrics ℝ) (pricePoints : ℕ) (shown : ℝ → ℝ) (symbol : String)
    (own : List (RecordCall ℝ)) : Prop where
  symbol : row.symbol = symbol
  firstPrice : (own.map (·.trade.price)).head? = some row.firstPrice
  lastPrice : (own.map (·.trade.price)).getLast? = some row.lastPrice
  high : IsGreatest { price | price ∈ own.map (·.trade.price) } row.high
  low : IsLeast { price | price ∈ own.map (·.trade.price) } row.low
  trades : row.trades = own.length
  points : row.prices.maxlen = pricePoints
  spark : row.prices.Keeps (own.map fun call => shown call.trade.price)

/-- What the aggregates owe each other and the calls so far. -/
structure Conserved (m : MetricsCollector ℝ) (pricePoints latencyReservoir tapeSize : ℕ)
    (shown : ℝ → ℝ) (calls : List (RecordCall ℝ)) : Prop where
  total : m.totalTrades = calls.length
  trades : m.totalTrades = (m.symbols.values.map (·.trades)).sum
  sides : m.totalTrades = (m.symbols.values.map fun row => row.buy + row.sell).sum
  byDetector : m.totalAlerts = Counter.total m.byDetector
  bySeverity : m.totalAlerts = Counter.total m.bySeverity
  alerts : m.totalAlerts = (m.symbols.values.map (·.alerts)).sum
  notional : m.totalNotional = (m.symbols.values.map (·.notional)).sum
  tracked : ∀ symbol, symbol ∈ m.symbols.keys ↔ ofSymbol calls symbol ≠ []
  describes : ∀ symbol row, m.symbols.get? symbol = some row →
    Describes row pricePoints shown symbol (ofSymbol calls symbol)
  sparks : ∃ rows, m.symbolRows = .ok rows ∧ (rows.map (·.symbol)).Perm m.symbols.keys ∧
    ∀ row ∈ rows, row.spark =
      ((ofSymbol calls row.symbol).map fun call => shown call.trade.price).rtake pricePoints
  tape : List.Forall₂ TapeRow.Shows m.tape.items (calls.reverse.take tapeSize)
  latency : m.latency.items = (calls.map (·.latencyUs)).rtake latencyReservoir

section Symbols

variable (m : MetricsCollector ℝ) (trade : Trade ℝ) (alerts : List (Alert ℝ)) (latencyUs : ℝ)
  (now : ℚ)

theorem record_symbols :
    (m.record trade alerts latencyUs now).symbols =
      m.symbols.set trade.symbol
        (((m.symbols.get? trade.symbol).getD (.opened m.pricePoints trade now)).record trade
          alerts.length now) := by
  obtain ⟨_, _, _, _, hrecord⟩ := m.record_eq trade alerts latencyUs now
  rw [hrecord]
  rfl

/-- Where a fresh symbol counts nothing, a call adds to a sum over the symbols what
it adds to its own symbol. -/
theorem sum_record {M : Type} [AddCancelCommMonoid M] (f : SymbolMetrics ℝ → M) (added : M)
    (hopened : f (.opened m.pricePoints trade now) = 0)
    (hrecord : ∀ row : SymbolMetrics ℝ,
      f (row.record trade alerts.length now) = f row + added) :
    ((m.record trade alerts latencyUs now).symbols.values.map f).sum =
      (m.symbols.values.map f).sum + added := by
  have hset := OrderedDict.sum_values_set m.symbols f trade.symbol
    (((m.symbols.get? trade.symbol).getD (.opened m.pricePoints trade now)).record trade
      alerts.length now)
  have hold : ((m.symbols.get? trade.symbol).map f).getD 0 =
      f ((m.symbols.get? trade.symbol).getD (.opened m.pricePoints trade now)) := by
    cases m.symbols.get? trade.symbol with
    | none => exact hopened.symm
    | some row => rfl
  rw [← m.record_symbols trade alerts latencyUs now, hold, hrecord, add_comm (f _) added,
    ← add_assoc] at hset
  exact add_right_cancel hset

end Symbols

section Describes

variable {row : SymbolMetrics ℝ} {pricePoints : ℕ} {symbol : String}
  {own : List (RecordCall ℝ)}

theorem isGreatest_snoc {prices : List ℝ} {high : ℝ} (h : IsGreatest { p | p ∈ prices } high)
    (price : ℝ) : IsGreatest { p | p ∈ prices ++ [price] } (max high price) := by
  have hset : { p | p ∈ prices ++ [price] } = insert price { p | p ∈ prices } := by
    ext p
    simp [or_comm]
  rw [hset, max_comm]
  exact h.insert price

theorem isLeast_snoc {prices : List ℝ} {low : ℝ} (h : IsLeast { p | p ∈ prices } low)
    (price : ℝ) : IsLeast { p | p ∈ prices ++ [price] } (min low price) := by
  have hset : { p | p ∈ prices ++ [price] } = insert price { p | p ∈ prices } := by
    ext p
    simp [or_comm]
  rw [hset, min_comm]
  exact h.insert price

/-- The first call of a symbol. -/
theorem describes_opened (call : RecordCall ℝ) :
    Describes
      ((SymbolMetrics.opened pricePoints call.trade call.now).record call.trade
        call.alerts.length call.now)
      pricePoints (roundDigits · 6) call.trade.symbol [call] where
  symbol := rfl
  firstPrice := rfl
  lastPrice := rfl
  high := by simp [SymbolMetrics.record, SymbolMetrics.opened, pyMax_real]
  low := by simp [SymbolMetrics.record, SymbolMetrics.opened, pyMin_real]
  trades := rfl
  points := rfl
  spark := (BoundedDeque.keeps_empty pricePoints).append (roundDigits call.trade.price 6)

/-- A later call of the symbol. -/
theorem Describes.record (h : Describes row pricePoints (roundDigits · 6) symbol own)
    (call : RecordCall ℝ) :
    Describes (row.record call.trade call.alerts.length call.now) pricePoints (roundDigits · 6)
      symbol (own ++ [call]) where
  symbol := h.symbol
  firstPrice := by
    rw [List.map_append, List.head?_append, h.firstPrice]
    rfl
  lastPrice := by simp [SymbolMetrics.record]
  high := by
    have hhigh : (row.record call.trade call.alerts.length call.now).high =
        max row.high call.trade.price := pyMax_real row.high call.trade.price
    rw [List.map_append, hhigh]
    exact isGreatest_snoc h.high call.trade.price
  low := by
    have hlow : (row.record call.trade call.alerts.length call.now).low =
        min row.low call.trade.price := pyMin_real row.low call.trade.price
    rw [List.map_append, hlow]
    exact isLeast_snoc h.low call.trade.price
  trades := by simp [SymbolMetrics.record, h.trades]
  points := h.points
  spark := by
    rw [List.map_append]
    exact h.spark.append (roundDigits call.trade.price 6)

theorem ofSymbol_snoc (calls : List (RecordCall ℝ)) (call : RecordCall ℝ) (symbol : String) :
    ofSymbol (calls ++ [call]) symbol =
      ofSymbol calls symbol ++ if call.trade.symbol = symbol then [call] else [] := by
  unfold ofSymbol
  rw [List.filter_append]
  congr 1
  split_ifs with hsymbol <;> simp [hsymbol]

end Describes

section Snapshot

theorem symbolRow_eq_ok (row : SymbolMetrics ℝ) :
    ∃ shown, symbolRow row = .ok shown ∧ shown.symbol = row.symbol ∧
      shown.spark = row.prices.items := by
  unfold symbolRow
  dsimp only
  generalize (if isZero row.firstPrice then row.lastPrice else row.firstPrice) = first
  rcases hzero : isZero first with _ | _
  · have hdiv : trueDiv (sub row.lastPrice first) first =
        .ok (div (sub row.lastPrice first) first) := by
      rw [trueDiv, hzero]
      rfl
    rw [hdiv]
    exact ⟨_, rfl, rfl, rfl⟩
  · exact ⟨_, rfl, rfl, rfl⟩

/-- The dashboard shows every symbol once. -/
theorem symbolRows_eq_ok (m : MetricsCollector ℝ) :
    ∃ rows, m.symbolRows = .ok rows ∧
      (rows.map fun row => (row.symbol, row.spark)).Perm
        (m.symbols.values.map fun row => (row.symbol, row.prices.items)) := by
  have hout : ∀ values : List (SymbolMetrics ℝ), ∃ out, values.mapM symbolRow = .ok out ∧
      out.map (fun row => (row.symbol, row.spark)) =
        values.map fun row => (row.symbol, row.prices.items) := by
    intro values
    induction values with
    | nil => exact ⟨[], rfl, rfl⟩
    | cons row rest ih =>
        obtain ⟨shown, hshown, hsymbol, hspark⟩ := symbolRow_eq_ok row
        obtain ⟨out, hrest, hmap⟩ := ih
        refine ⟨shown :: out, ?_, ?_⟩
        · rw [List.mapM_cons, hshown, hrest]
          rfl
        · rw [List.map_cons, List.map_cons, hmap, hsymbol, hspark]
  obtain ⟨out, hvalues, hmap⟩ := hout m.symbols.values
  unfold symbolRows
  rw [hvalues]
  refine ⟨_, rfl, ?_⟩
  rw [← hmap]
  exact (List.perm_insertionSort _ out).map _

end Snapshot

/-- The invariant of a run, but for what the dashboard makes of it. -/
structure Booked (m : MetricsCollector ℝ) (pricePoints tapeSize : ℕ)
    (calls : List (RecordCall ℝ)) : Prop where
  points : m.pricePoints = pricePoints
  trades : (m.symbols.values.map (·.trades)).sum = calls.length
  sides : (m.symbols.values.map fun row => row.buy + row.sell).sum = calls.length
  alerts : (m.symbols.values.map (·.alerts)).sum = (calls.flatMap (·.alerts)).length
  notional : (m.symbols.values.map (·.notional)).sum = (calls.map (·.trade.notional)).sum
  untracked : ∀ symbol, m.symbols.get? symbol = none ↔ ofSymbol calls symbol = []
  describes : ∀ symbol row, m.symbols.get? symbol = some row →
    Describes row pricePoints (roundDigits · 6) symbol (ofSymbol calls symbol)
  tapeSize : m.tape.maxlen = tapeSize
  tape : m.tape.KeepsNewestFirst (calls.map fun call => tapeRow call.trade call.alerts)

theorem Booked.record {m : MetricsCollector ℝ} {pricePoints tapeSize : ℕ}
    {calls : List (RecordCall ℝ)} (h : Booked m pricePoints tapeSize calls)
    (call : RecordCall ℝ) :
    Booked (m.record call.trade call.alerts call.latencyUs call.now) pricePoints tapeSize
      (calls ++ [call]) := by
  have hsymbols := m.record_symbols call.trade call.alerts call.latencyUs call.now
  obtain ⟨hpoints, htape⟩ :
      (m.record call.trade call.alerts call.latencyUs call.now).pricePoints = m.pricePoints ∧
        (m.record call.trade call.alerts call.latencyUs call.now).tape =
          m.tape.appendleft (tapeRow call.trade call.alerts) := by
    obtain ⟨_, _, _, _, hrecord⟩ := m.record_eq call.trade call.alerts call.latencyUs call.now
    rw [hrecord]
    exact ⟨rfl, rfl⟩
  constructor
  · rw [hpoints, h.points]
  · rw [m.sum_record _ _ _ _ (·.trades) 1 rfl (fun row => rfl), h.trades, List.length_append,
      List.length_singleton]
  · rw [m.sum_record _ _ _ _ (fun row => row.buy + row.sell) 1 rfl ?_, h.sides,
      List.length_append, List.length_singleton]
    intro row
    unfold SymbolMetrics.record
    dsimp only
    split_ifs <;> omega
  · rw [m.sum_record _ _ _ _ (·.alerts) call.alerts.length rfl (fun row => rfl), h.alerts]
    simp
  · rw [m.sum_record _ _ _ _ (·.notional) call.trade.notional ?_ (fun row => rfl), h.notional]
    · simp
    · simp [SymbolMetrics.opened]
  · intro symbol
    rw [hsymbols, OrderedDict.get?_set, ofSymbol_snoc]
    by_cases hsymbol : symbol = call.trade.symbol
    · simp [hsymbol]
    · rw [if_neg hsymbol, if_neg (Ne.symm hsymbol), List.append_nil]
      exact h.untracked symbol
  · intro symbol row
    rw [hsymbols, OrderedDict.get?_set, ofSymbol_snoc]
    by_cases hsymbol : symbol = call.trade.symbol
    · subst hsymbol
      rw [if_pos rfl, if_pos rfl]
      rintro ⟨⟩
      cases hold : m.symbols.get? call.trade.symbol with
      | none =>
          rw [(h.untracked _).mp hold, h.points]
          exact describes_opened call
      | some old => exact (h.describes _ old hold).record call
    · rw [if_neg hsymbol, if_neg (Ne.symm hsymbol), List.append_nil]
      exact h.describes symbol row
  · rw [htape]
    exact h.tapeSize
  · rw [htape, List.map_append]
    exact h.tape.appendleft (tapeRow call.trade call.alerts)

/-- The dashboard's rows are the tracked symbols with their sparklines. -/
theorem Booked.sparks {m : MetricsCollector ℝ} {pricePoints tapeSize : ℕ}
    {calls : List (RecordCall ℝ)} (h : Booked m pricePoints tapeSize calls) :
    ∃ rows, m.symbolRows = .ok rows ∧ (rows.map (·.symbol)).Perm m.symbols.keys ∧
      ∀ row ∈ rows, row.spark = ((ofSymbol calls row.symbol).map fun call =>
        roundDigits call.trade.price 6).rtake pricePoints := by
  obtain ⟨rows, hrows, hperm⟩ := m.symbolRows_eq_ok
  have hdescribes : ∀ entry ∈ m.symbols.entries,
      Describes entry.2 pricePoints (roundDigits · 6) entry.1 (ofSymbol calls entry.1) := by
    intro entry hentry
    exact h.describes entry.1 entry.2 (OrderedDict.mem_entries_iff.mp hentry)
  refine ⟨rows, hrows, ?_, ?_⟩
  · have hkeys : m.symbols.values.map (·.symbol) = m.symbols.keys := by
      unfold OrderedDict.values OrderedDict.keys
      rw [List.map_map]
      apply List.map_congr_left
      intro entry hentry
      exact (hdescribes entry hentry).symbol
    rw [← hkeys]
    simpa [List.map_map, Function.comp_def] using hperm.map Prod.fst
  · intro row hrow
    have hshown := hperm.subset (List.mem_map_of_mem hrow)
    obtain ⟨kept, hkept, heq⟩ := List.mem_map.mp hshown
    obtain ⟨entry, hentry, rfl⟩ := List.mem_map.mp hkept
    obtain ⟨hname, hspark⟩ := Prod.mk.inj heq
    have hentry := hdescribes entry hentry
    rw [← hspark, ← hname, hentry.symbol, ← hentry.points]
    exact hentry.spark

section Run

variable (startTime : ℚ) (tsWindow : ℤ) (pricePoints latencyReservoir tapeSize : ℕ)
  (calls : List (RecordCall ℝ))

theorem booked_recordAll :
    Booked ((init startTime tsWindow pricePoints latencyReservoir tapeSize).recordAll calls)
      pricePoints tapeSize calls := by
  induction calls using List.reverseRecOn with
  | nil =>
      exact
        { points := rfl
          trades := rfl
          sides := rfl
          alerts := rfl
          notional := rfl
          untracked := fun symbol => by simp [recordAll, init, ofSymbol]
          describes := fun symbol row hrow => by simp [recordAll, init] at hrow
          tapeSize := rfl
          tape := BoundedDeque.keepsNewestFirst_empty tapeSize }
  | append_singleton calls call ih =>
      rw [recordAll, List.foldl_append]
      exact ih.record call

theorem tapeRow_shows (call : RecordCall ℝ) :
    (tapeRow call.trade call.alerts).Shows call where
  tradeId := rfl
  symbol := rfl
  price := rfl
  quantity := rfl
  side := rfl
  ts := rfl
  anomalous := by simp [tapeRow]

/-- The books balance after any run, and the sparkline rounds each price to six
digits. -/
theorem conserved_recordAll :
    Conserved ((init startTime tsWindow pricePoints latencyReservoir tapeSize).recordAll calls)
      pricePoints latencyReservoir tapeSize (roundDigits · 6) calls := by
  have hbooked :=
    booked_recordAll startTime tsWindow pricePoints latencyReservoir tapeSize calls
  have hlife :=
    lifetime_recordAll startTime tsWindow pricePoints latencyReservoir tapeSize calls
  generalize (init startTime tsWindow pricePoints latencyReservoir tapeSize).recordAll calls = m
    at hbooked hlife
  constructor
  · exact hlife.trades
  · rw [hlife.trades, hbooked.trades]
  · rw [hlife.trades, hbooked.sides]
  · rw [hlife.alerts, hlife.byDetector, Counter.total_tally, List.length_map]
    exact (Nat.zero_add _).symm
  · rw [hlife.alerts, hlife.bySeverity, Counter.total_tally, List.length_map]
    exact (Nat.zero_add _).symm
  · rw [hlife.alerts, hbooked.alerts]
  · rw [hlife.notional, hbooked.notional]
  · intro symbol
    rw [← not_iff_not, not_not, ← OrderedDict.get?_eq_none_iff]
    exact hbooked.untracked symbol
  · exact hbooked.describes
  · exact hbooked.sparks
  · have hitems : m.tape.items =
        (calls.reverse.take tapeSize).map fun call => tapeRow call.trade call.alerts := by
      rw [hbooked.tape, hbooked.tapeSize, ← List.map_reverse, List.map_take]
    rw [hitems, List.forall₂_map_left_iff]
    exact List.forall₂_same.mpr fun call _ => tapeRow_shows call
  · rw [hlife.latency, hlife.reservoir]

end Run

/-- A trade at a tenth of a millionth. -/
noncomputable def dustCall : RecordCall ℝ where
  trade := { realTradeAt 0 with price := (1 / 10 ^ 7 : ℚ), price_pos := by simp }
  alerts := []
  latencyUs := 0
  now := 0

/-- The sparkline shows the price as zero. -/
theorem sparkline_rounds_price :
    ¬Conserved ((init 0).recordAll [dustCall]) 120 4000 80 id [dustCall] := by
  intro hconserved
  have hbooked := booked_recordAll 0 300 120 4000 80 [dustCall]
  have hown : ofSymbol [dustCall] "ACME" = [dustCall] := rfl
  obtain ⟨row, hrow⟩ : ∃ row, ((init 0).recordAll [dustCall]).symbols.get? "ACME" = some row := by
    rw [← Option.ne_none_iff_exists', ne_eq, hbooked.untracked, hown]
    exact List.cons_ne_nil dustCall []
  have hclaimed := hconserved.describes "ACME" row hrow
  have hactual := hbooked.describes "ACME" row hrow
  have hsame := hclaimed.spark.symm.trans hactual.spark
  rw [hown, hactual.points] at hsame
  have hprice : dustCall.trade.price = roundDigits dustCall.trade.price 6 := by
    simpa [List.rtake] using hsame
  have hround : roundDigits (1 / 10 ^ 7 : ℚ) 6 = 0 := by decide +kernel
  have hzero : roundDigits dustCall.trade.price 6 = 0 := by
    change roundDigits (((1 / 10 ^ 7 : ℚ)) : ℝ) 6 = 0
    rw [roundDigits_cast, hround, Rat.cast_zero]
  exact dustCall.trade.price_pos_real.ne' (hprice.trans hzero)

end MetricsCollector

end TradeWatch
