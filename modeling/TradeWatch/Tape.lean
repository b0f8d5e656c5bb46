import TradeWatch.Windows

/-!
The window against the tape. The tape is the whole sequence of a symbol's
trades; the window only ever saw them one by one and evicted as it went. While
the tape is in event order, the two kinds of eviction never interfere: the
window is the young part of the tape, cut to its last `maxTrades` entries, and
a query over a shorter span than the horizon finds what it would find on the
tape, cut the same way.
-/

namespace TradeWatch

open PyFloat Suffix

variable {F : Type} [PyFloat F]

/-- The tape is in the order of event times. -/
def InOrder (tape : List (Trade F)) : Prop :=
  tape.Pairwise (fun a b => a.timestamp ≤ b.timestamp)

/-- The trade is not older than `cutoff`. -/
def notOlder (cutoff : ℚ) (trade : Trade F) : Bool := cutoff ≤ trade.timestamp

theorem InOrder.settles {tape : List (Trade F)} (h : InOrder tape) (cutoff : ℚ) :
    Settles (notOlder cutoff) tape := by
  refine h.imp ?_
  intro a b hab ha
  simp only [notOlder, decide_eq_true_eq] at ha ⊢
  exact ha.trans hab

theorem filter_notOlder_of_le {early late : ℚ} (h : early ≤ late) (trades : List (Trade F)) :
    (trades.filter (notOlder early)).filter (notOlder late) = trades.filter (notOlder late) := by
  rw [List.filter_filter]
  apply List.filter_congr
  intro trade _
  simp only [notOlder, Bool.and_eq_left_iff_imp, decide_eq_true_eq]
  exact h.trans

namespace SymbolWindow

theorem trades_add_of_nonneg {w : SymbolWindow F} (hmax : 0 ≤ w.maxTrades) (trade : Trade F) :
    (w.add trade).2.trades = ((w.trades ++ [trade]).rtake w.maxTrades.toNat).dropWhile
      (fun t => !notOlder (trade.timestamp - w.horizonSeconds) t) := by
  rw [add_of_nonneg hmax]
  dsimp only
  congr 1
  funext t
  simp [notOlder, ← not_le]

/-- One `add`: if the window was the end of the tape's part from some cutoff
on, it is the end of the part from the new cutoff on. -/
theorem add_trades {w : SymbolWindow F} (hmax : 0 ≤ w.maxTrades) (hhorizon : 0 ≤ w.horizonSeconds)
    {tape : List (Trade F)} (trade : Trade F) (horder : InOrder (tape ++ [trade]))
    (cutoff : ℚ) (hcutoff : cutoff ≤ trade.timestamp - w.horizonSeconds)
    (hw : w.trades = (tape.filter (notOlder cutoff)).rtake w.maxTrades.toNat) :
    (w.add trade).2.trades =
      ((tape ++ [trade]).filter (notOlder (trade.timestamp - w.horizonSeconds))).rtake
        w.maxTrades.toNat := by
  have hnew : (tape ++ [trade]).filter (notOlder cutoff) =
      tape.filter (notOlder cutoff) ++ [trade] := by
    have hyoung : notOlder cutoff trade = true := by
      simp only [notOlder, decide_eq_true_eq]
      linarith
    simp [hyoung]
  have hcount : (w.trades ++ [trade]).rtake w.maxTrades.toNat =
      ((tape ++ [trade]).filter (notOlder cutoff)).rtake w.maxTrades.toNat := by
    rw [hw, rtake_append_rtake, hnew]
  have hpart := (horder.settles (trade.timestamp - w.horizonSeconds)).of_sublist
    (List.filter_sublist (p := notOlder cutoff))
  rw [trades_add_of_nonneg hmax, hcount,
    (hpart.of_sublist (rtake_suffix _ _).sublist).dropWhile_eq_filter, hpart.filter_rtake,
    filter_notOlder_of_le hcutoff]

/-- The window after a whole tape. -/
theorem replay_trades {w : SymbolWindow F} (hmax : 0 ≤ w.maxTrades)
    (hhorizon : 0 ≤ w.horizonSeconds) (hempty : w.trades = []) (before : List (Trade F))
    (trade : Trade F) (horder : InOrder (before ++ [trade])) :
    (w.replay (before ++ [trade])).trades =
      ((before ++ [trade]).filter (notOlder (trade.timestamp - w.horizonSeconds))).rtake
        w.maxTrades.toNat := by
  induction before using List.reverseRecOn generalizing trade with
  | nil =>
      have hw : w.trades = (([] : List (Trade F)).filter
          (notOlder (trade.timestamp - w.horizonSeconds))).rtake w.maxTrades.toNat := by
        simp [hempty]
      exact add_trades hmax hhorizon trade horder _ le_rfl hw
  | append_singleton before last ih =>
      obtain ⟨hbefore, _, hlast⟩ := List.pairwise_append.mp horder
      have hle : last.timestamp ≤ trade.timestamp := hlast last (by simp) trade (by simp)
      have hw := ih last hbefore
      rw [replay_append]
      have hstep := add_trades (w := w.replay (before ++ [last])) (by simpa using hmax)
        (by simpa using hhorizon) trade horder (last.timestamp - w.horizonSeconds)
        (by simpa using hle) (by simpa using hw)
      simpa using hstep

theorem reaching_eq_filter (w : SymbolWindow F) (ts seconds : ℚ) :
    w.reaching ts seconds = w.trades.filter (notOlder (ts - seconds)) := rfl

section Queries

variable {w : SymbolWindow F} (hmax : 0 ≤ w.maxTrades) (hhorizon : 0 ≤ w.horizonSeconds)
  (hempty : w.trades = []) (before : List (Trade F)) (trade : Trade F)
  (horder : InOrder (before ++ [trade]))
include hmax hhorizon hempty horder

/-- How much of the tape a query over `span` finds. -/
theorem replay_recent {span : ℚ} (hspan : span ≤ w.horizonSeconds) :
    (w.replay (before ++ [trade])).recent span (some trade.timestamp) =
      .ok ((before ++ [trade]).rtake (min w.maxTrades.toNat
        ((before ++ [trade]).countP (notOlder (trade.timestamp - span))))) := by
  have hpart := (horder.settles (trade.timestamp - span)).of_sublist
    (List.filter_sublist (p := notOlder (trade.timestamp - w.horizonSeconds)))
  rw [recent_some, reaching_eq_filter, replay_trades hmax hhorizon hempty before trade horder, hpart.filter_rtake,
    filter_notOlder_of_le (by linarith), (horder.settles _).filter_eq_rtake, rtake_rtake]

theorem replay_countWithin {span : ℚ} (hspan : span ≤ w.horizonSeconds) :
    (w.replay (before ++ [trade])).countWithin span (some trade.timestamp) =
      .ok (min w.maxTrades.toNat
        ((before ++ [trade]).countP (notOlder (trade.timestamp - span)))) := by
  have hshort : (before ++ [trade]).countP (notOlder (trade.timestamp - span)) ≤
      (before ++ [trade]).length := List.countP_le_length
  rw [countWithin_eq_length_recent,
    replay_recent hmax hhorizon hempty before trade horder hspan, Except.map, length_rtake,
    min_eq_left (by omega)]

end Queries

/-- After every `add` the window is the end of the tape, and its queries over
spans within the horizon are answered as the tape would answer them. -/
theorem window_refines_tape {maxTrades : ℤ} {horizon : ℚ} (hmax : 1 ≤ maxTrades)
    (hhorizon : 0 ≤ horizon) (symbol : String) (before : List (Trade F)) (trade : Trade F)
    (horder : InOrder (before ++ [trade])) :
    let tape := before ++ [trade]
    let fresh : SymbolWindow F := ⟨symbol, maxTrades, horizon, []⟩
    let w := ((fresh.replay before).add trade).2
    let kept := fun span : ℚ =>
      min maxTrades.toNat (tape.countP (notOlder (trade.timestamp - span)))
    ((fresh.replay before).add trade).1 = .ok () ∧
      w.trades = tape.rtake (kept horizon) ∧
      w.trades.getLast? = some trade ∧
      ∀ span, 0 ≤ span → span ≤ horizon →
        w.countWithin span (some trade.timestamp) = .ok (kept span) ∧
          w.recent span (some trade.timestamp) = .ok (tape.rtake (kept span)) := by
  intro tape fresh w kept
  have hnonneg : 0 ≤ fresh.maxTrades := by
    change 0 ≤ maxTrades
    omega
  have hw : w = fresh.replay tape := by
    simp [w, tape]
  have htrades : w.trades =
      (tape.filter (notOlder (trade.timestamp - horizon))).rtake maxTrades.toNat := by
    rw [hw]
    exact replay_trades hnonneg hhorizon rfl before trade horder
  refine ⟨?_, ?_, ?_, ?_⟩
  · rw [add_of_nonneg (by simpa using hnonneg)]
  · rw [htrades, (horder.settles _).filter_eq_rtake, rtake_rtake]
  · have hyoung : notOlder (trade.timestamp - horizon) trade = true := by
      simp only [notOlder, decide_eq_true_eq]
      linarith
    obtain ⟨bound, hbound⟩ : ∃ bound, maxTrades.toNat = bound + 1 :=
      ⟨maxTrades.toNat - 1, by omega⟩
    have hend : tape.filter (notOlder (trade.timestamp - horizon)) =
        before.filter (notOlder (trade.timestamp - horizon)) ++ [trade] := by
      simp [tape, hyoung]
    rw [htrades, hend, hbound, List.rtake_concat_succ, List.getLast?_append_cons]
    rfl
  · intro span _ hspan
    rw [hw]
    exact ⟨replay_countWithin hnonneg hhorizon rfl before trade horder hspan,
      replay_recent hnonneg hhorizon rfl before trade horder hspan⟩

theorem window_refines_tape_full_window :
    (((⟨"ACME", 2, 5, []⟩ : SymbolWindow ℚ).replay [selfTradeAt "a" 0, selfTradeAt "b" 1]).add
      (selfTradeAt "c" 1)).2.countWithin 1 (some 1) = .ok 2 := by
  have horder : InOrder ([selfTradeAt "a" 0, selfTradeAt "b" 1] ++ [selfTradeAt "c" 1]) := by
    unfold InOrder
    decide +kernel
  obtain ⟨_, _, _, hqueries⟩ :=
    window_refines_tape (show (1 : ℤ) ≤ 2 by decide) (show (0 : ℚ) ≤ 5 by norm_num) "ACME"
      [selfTradeAt "a" 0, selfTradeAt "b" 1] (selfTradeAt "c" 1) horder
  exact (hqueries 1 (by norm_num) (by norm_num)).1.trans (by decide +kernel)

/-- On doubles the window is not the end of the tape: with a horizon of 0.1 s a trade that
is exactly 0.1 s old is gone, and with one of 0.2 s a trade is kept whose seconds, as they
were read, lie further back. -/
theorem not_window_refines_tape_rounded :
    (¬ ∀ (maxTrades : ℤ) (horizon : ℚ) (before : List (Trade Double)) (trade : Trade Double),
        1 ≤ maxTrades → 0 ≤ horizon → InOrder (before ++ [trade]) →
          ((⟨"ACME", maxTrades, horizon, []⟩ : SymbolWindow Double).replay
              (before ++ [trade])).trades =
            (before ++ [trade]).rtake (min maxTrades.toNat
              ((before ++ [trade]).countP (notOlder (trade.timestamp - horizon))))) ∧
      ¬ ∀ (maxTrades : ℤ) (horizon : ℚ) (before : List (Trade Double)) (trade : Trade Double),
        1 ≤ maxTrades → 0 ≤ horizon → InOrder (before ++ [trade]) →
          ((⟨"ACME", maxTrades, horizon, []⟩ : SymbolWindow Double).replay
              (before ++ [trade])).trades =
            (before ++ [trade]).rtake (min maxTrades.toNat
              ((before ++ [trade]).countP (fun t =>
                EventTime.seconds trade.timestamp - horizon ≤ EventTime.seconds t.timestamp))) := by
  constructor
  · intro h
    have hwindow := h 2 (1 / 10) [doubleTradeAt "a" (7 / 10)] (doubleTradeAt "b" (8 / 10))
      (by decide) (by decide +kernel) (by unfold InOrder; decide +kernel)
    exact absurd (congrArg List.length hwindow) (by decide +kernel)
  · intro h
    have hwindow := h 2 (2 / 10) [doubleTradeAt "a" 1767225600]
      (doubleTradeAt "b" (1767225600 + 2 / 10)) (by decide) (by decide +kernel)
      (by unfold InOrder; decide +kernel)
    exact absurd (congrArg List.length hwindow) (by decide +kernel)

end SymbolWindow

end TradeWatch
