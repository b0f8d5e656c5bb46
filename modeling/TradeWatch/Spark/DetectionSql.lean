import TradeWatch.Velocity

/-!
The features of the Spark jobs. Spark orders the rows of a symbol by whole
seconds and may break ties as it likes; the row frame follows that order and
the range frame takes all rows of the same second with it. So a row sees later
trades of its own second, and its velocity counts from the start of a second.
-/

namespace TradeWatch.Spark

open PyFloat DetectionEngine

variable {F : Type} [PyFloat F]

/-- `F.avg` and `F.stddev` over the rows of a frame, null for too few. -/
structure Functions (F : Type) where
  avg : List F → Option F
  stddev : List F → Option F

/-- The columns that are added to a row. -/
structure Features (F : Type) where
  priceMean : Option F
  priceStd : Option F
  priceZ : F
  volRatio : F
  velocity : ℕ

/-- `ts_seconds`: the cast floors. -/
def tsSeconds (row : Trade F) : ℤ := ⌊row.timestamp⌋

/-- `rowsBetween(-lookback, -1)`, from the rows in front of the current one. -/
def prior (lookback : ℕ) (front : List (Trade F)) : List (Trade F) := front.rtake lookback

/-- `rangeBetween(-velocity_seconds, 0)`. -/
def recent (velocitySeconds : ℕ) (row : Trade F) (partition : List (Trade F)) :
    List (Trade F) :=
  partition.filter (fun other =>
    tsSeconds row - velocitySeconds ≤ tsSeconds other ∧ tsSeconds other ≤ tsSeconds row)

/-- `F.when(d > 0, n / d).otherwise(0.0)`, also for a null. -/
def whenPositive (numerator : F → F) : Option F → F
  | none => ofRat 0
  | some d => if lt (ofRat 0) d then div (numerator d) d else ofRat 0

/-- `add_statistical_features` for the row between `front` and `back` of the
rows of its symbol. -/
def addStatisticalFeatures (sql : Functions F) (front : List (Trade F)) (row : Trade F)
    (back : List (Trade F)) (lookback : ℕ := 100) (velocitySeconds : ℕ := 5) : Features F :=
  let frame := prior lookback front
  let priceMean := sql.avg (frame.map Trade.price)
  let priceStd := sql.stddev (frame.map Trade.price)
  let volMean := sql.avg (frame.map Trade.quantity)
  { priceMean := priceMean
    priceStd := priceStd
    priceZ := whenPositive (fun _ => sub row.price (priceMean.getD (ofRat 0))) priceStd
    volRatio := whenPositive (fun _ => row.quantity) volMean
    velocity := (recent velocitySeconds row (front ++ row :: back)).length }

/-- An order in which Spark may go through the rows of a symbol. -/
def ChosenOrder (tape : List (Trade F)) (symbol : String) (order : List (Trade F)) : Prop :=
  order.Perm (tape.filter (fun row => row.symbol = symbol)) ∧
    order.Pairwise (fun a b => tsSeconds a ≤ tsSeconds b)

/-- Whatever order is chosen, the row's frames hold trades of its symbol up to
its own time, and its velocity is the number of these in the last seconds. -/
def NoLookAhead (sql : Functions F) (lookback velocitySeconds : ℕ) (tape : List (Trade F))
    (row : Trade F) : Prop :=
  ∀ front back, ChosenOrder tape row.symbol (front ++ row :: back) →
    (∀ other ∈ prior lookback front ++ recent velocitySeconds row (front ++ row :: back),
      other.symbol = row.symbol ∧ other.timestamp ≤ row.timestamp) ∧
    (addStatisticalFeatures sql front row back lookback velocitySeconds).velocity =
      inSpan tape row velocitySeconds

/-- No trade of the symbol comes later within the row's second, and none is
within the second in which the span begins but before its beginning. -/
def SecondsSeparate (velocitySeconds : ℕ) (tape : List (Trade F)) (row : Trade F) : Prop :=
  ∀ other ∈ tape, other.symbol = row.symbol →
    ¬ (tsSeconds other = tsSeconds row ∧ row.timestamp < other.timestamp) ∧
      ¬ (tsSeconds other = tsSeconds row - velocitySeconds ∧
        other.timestamp < row.timestamp - velocitySeconds)

theorem countP_eq_iff_of_imp {α : Type*} {p q : α → Bool} {l : List α}
    (h : ∀ x ∈ l, p x → q x) : l.countP q = l.countP p ↔ ∀ x ∈ l, q x → p x := by
  induction l with
  | nil => simp
  | cons x rest ih =>
      obtain ⟨hx, hrest⟩ := List.forall_mem_cons.mp h
      have hle := List.countP_mono_left hrest
      rw [List.countP_cons, List.countP_cons, List.forall_mem_cons, ← ih hrest]
      cases hp : p x with
      | true =>
          rw [hx hp]
          simp
      | false =>
          cases hq : q x with
          | true =>
              simp only [if_true, Bool.false_eq_true, if_false, imp_false, not_true_eq_false,
                false_and, iff_false]
              omega
          | false => simp

section Frames

variable (velocitySeconds : ℕ) (row other : Trade F)

/-- The range frame takes everything in the span. -/
theorem seconds_of_inSpan
    (h : row.timestamp - velocitySeconds ≤ other.timestamp ∧ other.timestamp ≤ row.timestamp) :
    tsSeconds row - velocitySeconds ≤ tsSeconds other ∧ tsSeconds other ≤ tsSeconds row := by
  have hshift : tsSeconds row - velocitySeconds =
      ⌊row.timestamp - (velocitySeconds : ℚ)⌋ := by
    rw [Int.floor_sub_natCast]
    rfl
  exact ⟨hshift ▸ Int.floor_le_floor h.1, Int.floor_le_floor h.2⟩

/-- What the range frame takes beyond the span is later in the row's second or
earlier in the span's first one. -/
theorem inSpan_iff_of_seconds
    (h : tsSeconds row - velocitySeconds ≤ tsSeconds other ∧ tsSeconds other ≤ tsSeconds row) :
    (row.timestamp - velocitySeconds ≤ other.timestamp ∧ other.timestamp ≤ row.timestamp) ↔
      ¬ (tsSeconds other = tsSeconds row ∧ row.timestamp < other.timestamp) ∧
        ¬ (tsSeconds other = tsSeconds row - velocitySeconds ∧
          other.timestamp < row.timestamp - velocitySeconds) := by
  have hfirst : tsSeconds other ≠ tsSeconds row - velocitySeconds →
      row.timestamp - velocitySeconds ≤ other.timestamp := by
    intro hne
    have hlt : ⌊row.timestamp - (velocitySeconds : ℚ)⌋ < ⌊other.timestamp⌋ := by
      rw [Int.floor_sub_natCast]
      exact lt_of_le_of_ne h.1 (Ne.symm hne)
    by_contra hnot
    exact absurd (Int.floor_le_floor (not_le.mp hnot).le) (not_le.mpr hlt)
  have hlast : tsSeconds other ≠ tsSeconds row → other.timestamp ≤ row.timestamp := by
    intro hne
    have hlt : ⌊other.timestamp⌋ < ⌊row.timestamp⌋ := lt_of_le_of_ne h.2 hne
    by_contra hnot
    exact absurd (Int.floor_le_floor (not_le.mp hnot).le) (not_le.mpr hlt)
  constructor
  · rintro ⟨hlow, hhigh⟩
    exact ⟨fun hlate => absurd hlate.2 (not_lt.mpr hhigh),
      fun hearly => absurd hearly.2 (not_lt.mpr hlow)⟩
  · rintro ⟨hlate, hearly⟩
    constructor
    · by_contra hnot
      by_cases hsecond : tsSeconds other = tsSeconds row - velocitySeconds
      · exact hearly ⟨hsecond, not_le.mp hnot⟩
      · exact hnot (hfirst hsecond)
    · by_contra hnot
      by_cases hsecond : tsSeconds other = tsSeconds row
      · exact hlate ⟨hsecond, not_le.mp hnot⟩
      · exact hnot (hlast hsecond)

end Frames

/-- The velocity does not depend on the order. -/
theorem velocity_eq (sql : Functions F) (lookback velocitySeconds : ℕ) {tape : List (Trade F)}
    {front back : List (Trade F)} {row : Trade F}
    (h : ChosenOrder tape row.symbol (front ++ row :: back)) :
    (addStatisticalFeatures sql front row back lookback velocitySeconds).velocity =
      tape.countP (fun other => other.symbol = row.symbol ∧
        (tsSeconds row - velocitySeconds ≤ tsSeconds other ∧
          tsSeconds other ≤ tsSeconds row)) := by
  change (recent velocitySeconds row (front ++ row :: back)).length = _
  rw [recent, ← List.countP_eq_length_filter, h.1.countP_eq, List.countP_filter]
  apply List.countP_congr
  intro other _
  simp only [Bool.and_eq_true, decide_eq_true_eq]
  exact and_comm

theorem SecondsSeparate.past {velocitySeconds : ℕ} {tape : List (Trade F)} {row other : Trade F}
    (h : SecondsSeparate velocitySeconds tape row) (hmem : other ∈ tape)
    (hsymbol : other.symbol = row.symbol) (hseconds : tsSeconds other ≤ tsSeconds row) :
    other.timestamp ≤ row.timestamp := by
  rcases hseconds.lt_or_eq with hlt | heq
  · by_contra hnot
    exact absurd (Int.floor_le_floor (not_le.mp hnot).le) (not_le.mpr hlt)
  · exact not_lt.mp (fun hlate => (h other hmem hsymbol).1 ⟨heq, hlate⟩)

/-- The velocity is the live count exactly when the seconds are separate. -/
theorem velocity_eq_inSpan_iff (sql : Functions F) (lookback velocitySeconds : ℕ)
    {tape : List (Trade F)} {front back : List (Trade F)} {row : Trade F}
    (h : ChosenOrder tape row.symbol (front ++ row :: back)) :
    (addStatisticalFeatures sql front row back lookback velocitySeconds).velocity =
        inSpan tape row velocitySeconds ↔
      SecondsSeparate velocitySeconds tape row := by
  rw [velocity_eq sql lookback velocitySeconds h, inSpan, countP_eq_iff_of_imp]
  · simp only [decide_eq_true_eq]
    constructor
    · intro hall other hmem hsymbol
      constructor
      · rintro ⟨hsecond, hlate⟩
        have hframe := hall other hmem ⟨hsymbol, by omega, hsecond.le⟩
        exact absurd hframe.2.2 (not_le.mpr hlate)
      · rintro ⟨hsecond, hearly⟩
        have hframe := hall other hmem ⟨hsymbol, hsecond.ge, by omega⟩
        exact absurd hframe.2.1 (not_le.mpr hearly)
    · rintro hseparate other hmem ⟨hsymbol, hframe⟩
      exact ⟨hsymbol, (inSpan_iff_of_seconds velocitySeconds row other hframe).mpr
        (hseparate other hmem hsymbol)⟩
  · intro other _ hspan
    simp only [decide_eq_true_eq] at hspan ⊢
    exact ⟨hspan.1, seconds_of_inSpan velocitySeconds row other hspan.2⟩

/-- For every tape and row: no order lets the row look ahead and its velocity
is the live count, if and only if the seconds around it are separate. -/
theorem no_look_ahead_iff (sql : Functions F) (lookback velocitySeconds : ℕ)
    {tape : List (Trade F)} {row : Trade F} (hrow : row ∈ tape) :
    NoLookAhead sql lookback velocitySeconds tape row ↔
      SecondsSeparate velocitySeconds tape row := by
  constructor
  · intro h
    let bySecond := fun a b : Trade F => tsSeconds a ≤ tsSeconds b
    let order := (tape.filter (fun other => other.symbol = row.symbol)).insertionSort bySecond
    have hperm : order.Perm (tape.filter (fun other => other.symbol = row.symbol)) :=
      List.perm_insertionSort bySecond _
    have hsorted : order.Pairwise bySecond := by
      have htotal : Std.Total bySecond := ⟨fun a b => le_total (tsSeconds a) (tsSeconds b)⟩
      have htrans : IsTrans (Trade F) bySecond := ⟨fun a b c => le_trans⟩
      exact List.pairwise_insertionSort bySecond _
    have hmem : row ∈ order := by
      rw [hperm.mem_iff, List.mem_filter]
      exact ⟨hrow, by simp⟩
    obtain ⟨front, back, hsplit⟩ := List.append_of_mem hmem
    have hchosen : ChosenOrder tape row.symbol (front ++ row :: back) :=
      hsplit ▸ ⟨hperm, hsorted⟩
    exact (velocity_eq_inSpan_iff sql lookback velocitySeconds hchosen).mp
      (h front back hchosen).2
  · intro h front back hchosen
    refine ⟨?_, (velocity_eq_inSpan_iff sql lookback velocitySeconds hchosen).mpr h⟩
    have htape : ∀ other ∈ front ++ row :: back,
        other ∈ tape ∧ other.symbol = row.symbol := by
      intro other hother
      simpa using hchosen.1.mem_iff.mp hother
    intro other hother
    rcases List.mem_append.mp hother with hprior | hrecent
    · have hfront : other ∈ front := (Suffix.rtake_suffix lookback front).mem hprior
      have hseconds := (List.pairwise_append.mp hchosen.2).2.2 other hfront row
        List.mem_cons_self
      obtain ⟨hmem, hsymbol⟩ := htape other (List.mem_append_left _ hfront)
      exact ⟨hsymbol, h.past hmem hsymbol hseconds⟩
    · obtain ⟨hin, hframe⟩ := List.mem_filter.mp hrecent
      obtain ⟨hmem, hsymbol⟩ := htape other hin
      exact ⟨hsymbol, h.past hmem hsymbol (decide_eq_true_eq.mp hframe).2⟩

theorem no_look_ahead_iff_two_seconds :
    NoLookAhead ⟨fun _ => none, fun _ => none⟩ 100 5 [selfTradeAt "a" 0, selfTradeAt "b" 1]
        (selfTradeAt "a" 0) ↔
      SecondsSeparate 5 [selfTradeAt "a" 0, selfTradeAt "b" 1] (selfTradeAt "a" 0) :=
  no_look_ahead_iff _ 100 5 List.mem_cons_self

/-- A trade half a second later is counted for the earlier one. -/
theorem later_trade_counted :
    ¬ ∀ (sql : Functions ℚ) (tape : List (Trade ℚ)) (row : Trade ℚ), row ∈ tape →
      NoLookAhead sql 100 5 tape row := by
  intro h
  have hchosen : ChosenOrder [selfTradeAt "a" (1 / 4), selfTradeAt "b" (3 / 4)] "ACME"
      ([] ++ selfTradeAt "a" (1 / 4) :: [selfTradeAt "b" (3 / 4)]) := by
    refine ⟨?_, ?_⟩
    · rw [List.filter_eq_self.mpr (by decide +kernel)]
      exact List.Perm.refl _
    · decide +kernel
  have hcount := (h ⟨fun _ => none, fun _ => none⟩ _ _ List.mem_cons_self [] _ hchosen).2
  exact absurd hcount (by decide +kernel)

end TradeWatch.Spark
