import TradeWatch.Recency
import TradeWatch.Tape

/-!
The wash-trade detector against its rule, on any window. The loop over the
recent trades is a search for the newest matching leg, the two tolerances are
what they are called once the divisions are multiplied out, and the trade does
not match itself, since it is on its own side.
-/

namespace TradeWatch

open PyFloat

namespace WashTradeDetector

/-- Sizes below this are compared as if they were this. -/
def sizeFloor : ℚ := 1 / 10 ^ 9

/-- `other` is recent, of the same account and on the other side, and matches in
price and in size. Sizes below `floor` are compared as if they were `floor`. -/
structure Crosses (cfg : WashTradeConfig ℝ) (floor : ℝ) (trade other : Trade ℝ) : Prop where
  recent : trade.timestamp - cfg.windowSeconds ≤ other.timestamp
  account : other.accountId = trade.accountId
  side : other.side ≠ trade.side
  price : |other.price - trade.price| ≤ cfg.priceTolerance * trade.price
  quantity : |other.quantity - trade.quantity| ≤
    cfg.quantityTolerance * max (max other.quantity trade.quantity) floor

variable {cfg : WashTradeConfig ℝ} {trade other : Trade ℝ}

theorem relClose_real (a b tol : ℝ) :
    relClose a b tol =
      .ok (decide (|a - b| ≤ tol * max (max |a| |b|) (sizeFloor : ℝ))) := by
  have hfloor : (0 : ℝ) < (sizeFloor : ℝ) := by
    rw [sizeFloor]
    positivity
  have hdenom : 0 < max (max |a| |b|) (sizeFloor : ℝ) := hfloor.trans_le (le_max_right _ _)
  have hmax : pyMax |a| |b| = max |a| |b| := by simp only [pyMax, lt_real, max_def_lt]
  have hdiv := trueDiv_pyMax_real (q := sizeFloor) (by norm_num [sizeFloor]) |a - b| (max |a| |b|)
  have hle : le (|a - b| / max (max |a| |b|) (sizeFloor : ℝ)) tol =
      decide (|a - b| ≤ tol * max (max |a| |b|) (sizeFloor : ℝ)) := by
    rw [Bool.eq_iff_iff, le_real, decide_eq_true_eq, div_le_iff₀ hdenom]
  unfold relClose
  simp only [abs_real, sub_real, ofRat_real, hmax]
  rw [show (1 / 10 ^ 9 : ℚ) = sizeFloor from rfl, hdiv]
  simp only [bind, Except.bind, pure, Except.pure, hle]

/-- A leg is another trade that crosses, up to the cutoff. -/
theorem isLeg_real (cfg : WashTradeConfig ℝ) (trade other : Trade ℝ)
    (hrecent : trade.timestamp - cfg.windowSeconds ≤ other.timestamp) :
    isLeg cfg trade (if trade.side = .buy then .sell else .buy) other = true ↔
      other.tradeId ≠ trade.tradeId ∧ Crosses cfg sizeFloor trade other := by
  have hprice : trueDiv |other.price - trade.price| trade.price =
      .ok (|other.price - trade.price| / trade.price) :=
    trueDiv_real trade.price_pos_real.ne'
  have hside : other.side = (if trade.side = .buy then .sell else .buy) ↔
      other.side ≠ trade.side := by
    cases other.side <;> cases trade.side <;> simp
  unfold isLeg
  simp only [abs_real, sub_real, hprice, relClose_real, Bool.and_eq_true, decide_eq_true_eq,
    le_real, div_le_iff₀ trade.price_pos_real, hside,
    abs_of_pos (Trade.quantity_pos_real _)]
  constructor
  · rintro ⟨⟨⟨hid, haccount⟩, hside⟩, hprice, hquantity⟩
    exact ⟨hid, hrecent, haccount, hside, hprice, hquantity⟩
  · rintro ⟨hid, _, haccount, hside, hprice, hquantity⟩
    exact ⟨⟨⟨hid, haccount⟩, hside⟩, hprice, hquantity⟩

/-- The loop never raises: it is a search for the first leg. -/
theorem findCross_real (cfg : WashTradeConfig ℝ) (trade : Trade ℝ) (opposite : Side)
    (recent : List (Trade ℝ)) :
    findCross cfg trade opposite recent = .ok (recent.find? (isLeg cfg trade opposite)) := by
  have hprice : ∀ first : Trade ℝ, trueDiv |first.price - trade.price| trade.price =
      .ok (|first.price - trade.price| / trade.price) :=
    fun _ => trueDiv_real trade.price_pos_real.ne'
  obtain ⟨found, hfound⟩ : ∃ found, findCross cfg trade opposite recent = .ok found := by
    induction recent with
    | nil => exact ⟨none, rfl⟩
    | cons first rest ih =>
        unfold findCross
        split_ifs
        · exact ih
        · exact ih
        · simp only [abs_real, sub_real, hprice, relClose_real, bind, Except.bind]
          split_ifs
          · exact ⟨_, rfl⟩
          · exact ih
  rw [hfound, find?_of_findCross hfound]

/-- The alert on an account that is its own counterparty. -/
def selfTradeSignal {F : Type} [PyFloat F] (trade : Trade F) : Alert F :=
  let account := trade.accountId.getD ""
  Alert.build trade name .critical (ofRat (98 / 100))
    (s!"self-trade: account {account} is both buyer and seller of " ++ s!"{trade.symbol}")
    [("account_id", .text account), ("signal", .text "self_counterparty"),
      ("price", .float trade.price)]

/-- The alert on a trade that crosses `other`. -/
def crossSignal {F : Type} [PyFloat F] (cfg : WashTradeConfig F) (trade other : Trade F) :
    Alert F :=
  let account := trade.accountId.getD ""
  Alert.build trade name .critical (ofRat (95 / 100))
    (s!"account {account} crossed both sides of {trade.symbol} " ++
      s!"at ~{format trade.price (.fixed 4)} x {format trade.quantity (.fixed 2)} " ++
      s!"within {formatExact cfg.windowSeconds (.fixed 0)}s")
    [("account_id", .text account), ("signal", .text "matched_cross"),
      ("matched_trade_id", .text other.tradeId), ("price", .float trade.price),
      ("quantity", .float trade.quantity)]

/-- What the detector answers: it never raises. -/
theorem inspect_real (cfg : WashTradeConfig ℝ) (trade : Trade ℝ) (w : SymbolWindow ℝ) :
    inspect cfg trade w =
      .ok (if selfTrade trade then some (selfTradeSignal trade)
        else if truthy trade.accountId then (newestLeg cfg trade w).map (crossSignal cfg trade)
        else none) := by
  have hpos : le trade.price (ofRat 0) = false := by
    rw [← Bool.not_eq_true, le_real, ofRat_real, Rat.cast_zero, not_le]
    exact trade.price_pos_real
  have hfound : matchedCross cfg trade w = .ok (newestLeg cfg trade w) := by
    simp only [matchedCross, EventTime.timestamp_exact, SymbolWindow.recent_some, bind, Except.bind]
    exact findCross_real _ _ _ _
  unfold inspect
  cases hself : selfTrade trade with
  | true => rfl
  | false =>
      cases haccount : truthy trade.accountId with
      | false => rfl
      | true =>
          simp only [hpos, hfound, Bool.not_true, Bool.or_self, Bool.false_eq_true, if_false,
            if_true, bind, Except.bind]
          cases newestLeg cfg trade w <;> rfl

/-- The newest leg is looked for among the earlier trades: the trade is on its own
side, so it is passed over. -/
theorem newestLeg_of_getLast? {w : SymbolWindow ℝ} (hlast : w.trades.getLast? = some trade) :
    newestLeg cfg trade w =
      w.trades.dropLast.reverse.find? (fun other =>
        notOlder (trade.timestamp - cfg.windowSeconds) other &&
          isLeg cfg trade (if trade.side = .buy then .sell else .buy) other) := by
  obtain ⟨earlier, hearlier⟩ := List.getLast?_eq_some_iff.mp hlast
  have hself : isLeg cfg trade (if trade.side = .buy then .sell else .buy) trade = false := by
    simp [isLeg]
  rw [newestLeg, SymbolWindow.reaching_eq_filter, hearlier, List.dropLast_concat, ← List.filter_reverse,
    List.find?_filter, List.reverse_append, List.reverse_singleton, List.singleton_append,
    List.find?_cons_of_neg (by simp [hself])]
  simp

/-- `other` is the newest of the earlier trades that are crossed. -/
def NewestCrossed (cfg : WashTradeConfig ℝ) (floor : ℝ) (trade : Trade ℝ) (w : SymbolWindow ℝ)
    (other : Trade ℝ) : Prop :=
  ∃ older newer, w.trades.dropLast = older ++ other :: newer ∧ Crosses cfg floor trade other ∧
    ∀ x ∈ newer, ¬ Crosses cfg floor trade x

/-- The rule on one window: an alert exactly for an account that is its own
counterparty or crosses an earlier trade, and then the newest such trade is
named. -/
def FollowsRule (cfg : WashTradeConfig ℝ) (floor : ℝ) (trade : Trade ℝ) (w : SymbolWindow ℝ) :
    Prop :=
  ∃ answer, inspect cfg trade w = .ok answer ∧
    (answer.isSome ↔ truthy trade.accountId ∧ (trade.accountId = trade.counterpartyId ∨
      ∃ other ∈ w.trades.dropLast, Crosses cfg floor trade other)) ∧
    ∀ alert, answer = some alert → trade.accountId ≠ trade.counterpartyId →
      ∃ other, NewestCrossed cfg floor trade w other ∧
        alert.details.lookup "matched_trade_id" = some (.text other.tradeId)

open Classical in
theorem exists_newestCrossed {floor : ℝ} {w : SymbolWindow ℝ}
    (h : ∃ other ∈ w.trades.dropLast, Crosses cfg floor trade other) :
    ∃ other, NewestCrossed cfg floor trade w other := by
  have hsome : (w.trades.dropLast.reverse.find?
      (fun other => Crosses cfg floor trade other)).isSome := by
    simpa [List.find?_isSome] using h
  obtain ⟨other, hfound⟩ := Option.isSome_iff_exists.mp hsome
  obtain ⟨hcross, older, newer, hwindow, hnewer⟩ := Suffix.find?_reverse_eq_some_iff.mp hfound
  exact ⟨other, older, newer, hwindow, of_decide_eq_true hcross,
    fun x hx => of_decide_eq_false (hnewer x hx)⟩

/-- The leg that the detector finds crosses, and it finds the newest trade that is
crossed unless this bears the id of the crossing trade. -/
theorem newestLeg_of_newestCrossed {w : SymbolWindow ℝ} {other : Trade ℝ}
    (hlast : w.trades.getLast? = some trade)
    (hnewest : NewestCrossed cfg sizeFloor trade w other) (hid : other.tradeId ≠ trade.tradeId) :
    newestLeg cfg trade w = some other := by
  obtain ⟨older, newer, hwindow, hcross, hnewer⟩ := hnewest
  rw [newestLeg_of_getLast? hlast, Suffix.find?_reverse_eq_some_iff]
  refine ⟨?_, older, newer, hwindow, ?_⟩
  · rw [Bool.and_eq_true]
    exact ⟨decide_eq_true hcross.recent,
      (isLeg_real cfg trade other hcross.recent).mpr ⟨hid, hcross⟩⟩
  · intro x hx
    rw [Bool.eq_false_iff, ne_eq, Bool.and_eq_true]
    rintro ⟨hrecent, hleg⟩
    exact hnewer x hx ((isLeg_real cfg trade x (of_decide_eq_true hrecent)).mp hleg).2

theorem newestLeg_eq_none {w : SymbolWindow ℝ} (hlast : w.trades.getLast? = some trade)
    (hnone : ∀ other ∈ w.trades.dropLast, ¬ Crosses cfg sizeFloor trade other) :
    newestLeg cfg trade w = none := by
  rw [newestLeg_of_getLast? hlast, List.find?_eq_none]
  intro other hother
  rw [Bool.and_eq_true]
  rintro ⟨hrecent, hleg⟩
  exact hnone other (List.mem_reverse.mp hother)
    ((isLeg_real cfg trade other (of_decide_eq_true hrecent)).mp hleg).2

/-- The detector follows the rule, with small sizes compared as if they were `sizeFloor`,
unless the trade is between two parties and the newest trade that it crosses bears its
own id. -/
theorem followsRule_of_newest (cfg : WashTradeConfig ℝ) (trade : Trade ℝ) (w : SymbolWindow ℝ)
    (hlast : w.trades.getLast? = some trade)
    (hid : truthy trade.accountId → trade.accountId ≠ trade.counterpartyId →
      ∀ other, NewestCrossed cfg sizeFloor trade w other → other.tradeId ≠ trade.tradeId) :
    FollowsRule cfg sizeFloor trade w := by
  refine ⟨_, inspect_real cfg trade w, ?_⟩
  cases haccount : truthy trade.accountId with
  | false => simp [selfTrade, haccount]
  | true =>
      by_cases hsame : trade.accountId = trade.counterpartyId
      · simp [selfTrade, haccount, ← hsame]
      · have hself : selfTrade trade = false := by simp [selfTrade, hsame]
        rw [hself, if_neg Bool.false_ne_true, if_pos rfl]
        by_cases hcrossed : ∃ other ∈ w.trades.dropLast, Crosses cfg sizeFloor trade other
        · obtain ⟨other, hnewest⟩ := exists_newestCrossed hcrossed
          rw [newestLeg_of_newestCrossed hlast hnewest (hid haccount hsame other hnewest)]
          refine ⟨by simp [hcrossed], ?_⟩
          intro alert halert _
          obtain rfl := Option.some.inj halert
          exact ⟨other, hnewest, rfl⟩
        · rw [newestLeg_eq_none hlast fun other hother hcross => hcrossed ⟨other, hother, hcross⟩]
          simp [hsame, hcrossed]

/-- One leg of a cross of one account. -/
noncomputable def leg (tradeId : String) (timestamp : ℚ) (side : Side) : Trade ℝ :=
  { realTradeAt timestamp with tradeId := tradeId, side := side, accountId := some "acct-1" }

theorem crosses_leg (floor : ℝ) (hfloor : 0 ≤ floor) (first second : String) :
    Crosses {} floor (leg second 1 .sell) (leg first 0 .buy) := by
  refine ⟨?_, rfl, by simp [leg], ?_, ?_⟩
  · simp only [leg, realTradeAt]
    norm_num
  · simp [leg, realTradeAt]
  · have hmax : 0 ≤ max (max (leg first 0 .buy).quantity (leg second 1 .sell).quantity) floor :=
      le_max_of_le_right hfloor
    have htolerance : (0 : ℝ) ≤ ofRat (2 / 100) := by
      rw [ofRat_real]
      norm_num
    have hsame : (leg first 0 .buy).quantity - (leg second 1 .sell).quantity = 0 := sub_self _
    rw [hsame, abs_zero]
    exact mul_nonneg htolerance hmax

/-- An earlier trade of the same id and the same side does not stand in the way. -/
theorem followsRule_of_newest_two_legs :
    ∃ alert, inspect {} (leg "b" 1 .sell)
        ⟨"ACME", 200, 300, [leg "b" 0 .sell, leg "a" 0 .buy, leg "b" 1 .sell]⟩ =
          .ok (some alert) ∧
      alert.details.lookup "matched_trade_id" = some (.text "a") := by
  have hfloor : (0 : ℝ) ≤ (sizeFloor : ℝ) := by simp [sizeFloor]
  have hcross := crosses_leg _ hfloor "a" "b"
  have hnewest : ∀ other, NewestCrossed {} sizeFloor (leg "b" 1 .sell)
      ⟨"ACME", 200, 300, [leg "b" 0 .sell, leg "a" 0 .buy, leg "b" 1 .sell]⟩ other →
        other = leg "a" 0 .buy := by
    rintro other ⟨older, newer, hwindow, hother, hnewer⟩
    have hmem : other ∈ older ++ other :: newer := by simp
    rw [← hwindow] at hmem
    simp only [List.dropLast_cons_cons, List.dropLast_singleton, List.mem_cons, List.not_mem_nil,
      or_false] at hmem
    rcases hmem with rfl | rfl
    · exact absurd rfl hother.side
    · rfl
  obtain ⟨answer, hanswer, hiff, hnamed⟩ := followsRule_of_newest {} (leg "b" 1 .sell)
    ⟨"ACME", 200, 300, [leg "b" 0 .sell, leg "a" 0 .buy, leg "b" 1 .sell]⟩ rfl
    (fun _ _ other hother => by simp [hnewest other hother, leg])
  have hfires : answer.isSome :=
    hiff.mpr ⟨rfl, Or.inr ⟨leg "a" 0 .buy, by simp, hcross⟩⟩
  obtain ⟨alert, rfl⟩ := Option.isSome_iff_exists.mp hfires
  obtain ⟨other, hother, hlookup⟩ := hnamed alert rfl (by simp [leg, realTradeAt])
  exact ⟨alert, hanswer, by rw [hlookup, hnewest other hother]; rfl⟩

/-- A leg whose size is `more` hundred-billionths above one of them. -/
noncomputable def tinyLeg (tradeId : String) (timestamp : ℚ) (side : Side) (more : ℕ) :
    Trade ℝ :=
  { leg tradeId timestamp side with
    quantity := (((more : ℚ) + 1) / 10 ^ 11 : ℚ)
    quantity_pos := by
      simp only [lt_real, ofRat_real, Rat.cast_lt]
      positivity }

/-- Two tiny sizes are apart by five per cent of the greater. -/
theorem not_crosses_tinyLeg :
    ¬ Crosses {} 0 (tinyLeg "b" 1 .sell 20) (tinyLeg "a" 0 .buy 19) := by
  intro h
  have hquantity := h.quantity
  simp only [tinyLeg, ofRat_real] at hquantity
  norm_num [abs_of_neg] at hquantity

/-- They are next to nothing apart in units of the floor. -/
theorem crosses_tinyLeg :
    Crosses {} sizeFloor (tinyLeg "b" 1 .sell 20) (tinyLeg "a" 0 .buy 19) := by
  refine ⟨?_, rfl, by simp [tinyLeg, leg], ?_, ?_⟩
  · simp only [tinyLeg, leg, realTradeAt]
    norm_num
  · simp [tinyLeg, leg, realTradeAt]
  · simp only [tinyLeg, ofRat_real, sizeFloor]
    norm_num [abs_of_neg]

/-- One leg of a cross, for runs on doubles. -/
def doubleLeg (tradeId : String) (timestamp : ℚ) (side : Side) : Trade Double :=
  { doubleTradeAt tradeId timestamp with side := side, counterpartyId := none }

/-- The unrestricted rule, without a floor for sizes, fails three times over: legs that
share an id are not matched, tiny sizes five per cent apart are; and on doubles a leg that
is exactly as old as the span is not found. -/
theorem not_followsRule_shared_id_or_tiny :
    ¬ FollowsRule {} 0 (leg "x" 1 .sell) ⟨"ACME", 200, 300, [leg "x" 0 .buy, leg "x" 1 .sell]⟩ ∧
      ¬ FollowsRule {} 0 (tinyLeg "b" 1 .sell 20)
        ⟨"ACME", 200, 300, [tinyLeg "a" 0 .buy 19, tinyLeg "b" 1 .sell 20]⟩ ∧
      ¬ ∀ (span : ℚ) (first second : Trade Double),
        truthy second.accountId → second.timestamp - span ≤ first.timestamp →
        first.accountId = second.accountId → first.side ≠ second.side →
        first.price = second.price → first.quantity = second.quantity →
        first.tradeId ≠ second.tradeId →
          ∃ alert, inspect { windowSeconds := span } second
            ⟨"ACME", 200, 300, [first, second]⟩ = .ok (some alert) := by
  refine ⟨?_, ?_, ?_⟩
  · rintro ⟨answer, hanswer, hiff, _⟩
    have hcross : answer.isSome := by
      apply hiff.mpr
      exact ⟨rfl, Or.inr ⟨leg "x" 0 .buy, by simp, crosses_leg 0 le_rfl "x" "x"⟩⟩
    have hnone : newestLeg {} (leg "x" 1 .sell)
        ⟨"ACME", 200, 300, [leg "x" 0 .buy, leg "x" 1 .sell]⟩ = none := by
      rw [newestLeg_of_getLast? rfl, List.find?_eq_none]
      simp [isLeg, leg]
    rw [inspect_real, hnone] at hanswer
    obtain rfl := Except.ok.inj hanswer
    exact absurd hcross (by simp [selfTrade, leg, realTradeAt])
  · rintro ⟨answer, hanswer, hiff, _⟩
    have hsilent : ¬ answer.isSome := by
      intro hsome
      obtain ⟨_, heq | ⟨other, hother, hcross⟩⟩ := hiff.mp hsome
      · simp [tinyLeg, leg, realTradeAt] at heq
      · obtain rfl : other = tinyLeg "a" 0 .buy 19 := by simpa using hother
        exact not_crosses_tinyLeg hcross
    have hclose := crosses_tinyLeg
    have hmatch : isLeg {} (tinyLeg "b" 1 .sell 20)
        (if (tinyLeg "b" 1 .sell 20).side = .buy then .sell else .buy)
        (tinyLeg "a" 0 .buy 19) = true :=
      (isLeg_real _ _ _ hclose.recent).mpr ⟨by simp [tinyLeg, leg], hclose⟩
    have hfound : newestLeg {} (tinyLeg "b" 1 .sell 20)
        ⟨"ACME", 200, 300, [tinyLeg "a" 0 .buy 19, tinyLeg "b" 1 .sell 20]⟩ =
          some (tinyLeg "a" 0 .buy 19) := by
      have hrecent : notOlder ((tinyLeg "b" 1 .sell 20).timestamp - 5) (tinyLeg "a" 0 .buy 19) :=
        decide_eq_true hclose.recent
      rw [newestLeg_of_getLast? rfl]
      exact List.find?_cons_of_pos (by rw [hmatch, Bool.and_true]; exact hrecent)
    rw [inspect_real, hfound] at hanswer
    obtain rfl := Except.ok.inj hanswer
    exact hsilent (by simp [selfTrade, truthy, tinyLeg, leg, realTradeAt])
  · intro h
    obtain ⟨alert, halert⟩ := h (7 / 10) (doubleLeg "a" (1 / 10) .buy)
      (doubleLeg "b" (8 / 10) .sell) (by decide) (by decide +kernel) rfl (by decide) rfl rfl
      (by decide)
    have hmissed : (inspect { windowSeconds := 7 / 10 } (doubleLeg "b" (8 / 10) .sell)
        ⟨"ACME", 200, 300, [doubleLeg "a" (1 / 10) .buy, doubleLeg "b" (8 / 10) .sell]⟩).toOption =
          some none := by
      decide +kernel
    rw [halert] at hmissed
    cases hmissed

end WashTradeDetector

end TradeWatch
