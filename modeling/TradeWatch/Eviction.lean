import TradeWatch.Tape
import TradeWatch.Watch

/-!
What eviction leaves in a window, for any bounds and any order of arrival. The
window is popped from its front alone, so a young trade there shields an old
one behind it; and nothing keeps the bounds of a ruleset from evicting the very
trade that was added, or `timestamp()` from raising once it is appended.
-/

namespace TradeWatch

open PyFloat Suffix Transducer EventTime

namespace SymbolWindow

section Horizon

variable {F : Type} [PyFloat F]

/-- After `trade` is added, everything retained is within the horizon of it. -/
def WithinHorizon (w : SymbolWindow F) (trade : Trade F) : Prop :=
  ∀ x ∈ (w.add trade).2.trades, trade.timestamp - w.horizonSeconds ≤ x.timestamp

/-- Of the trades that the bound on their number leaves, none that is within the
horizon of `trade` stands before one that is not. -/
def NoneShielded (w : SymbolWindow F) (trade : Trade F) : Prop :=
  Settles (notOlder (trade.timestamp - w.horizonSeconds))
    ((w.trades ++ [trade]).rtake w.maxTrades.toNat)

theorem withinHorizon_iff (w : SymbolWindow F) (trade : Trade F) :
    w.WithinHorizon trade ↔ w.NoneShielded trade := by
  unfold WithinHorizon NoneShielded
  rcases lt_or_ge w.maxTrades 0 with hneg | hnonneg
  · have hbound : w.maxTrades.toNat = 0 := Int.toNat_eq_zero.mpr hneg.le
    have hnone : (w.add trade).2.trades = [] := by
      rw [add_of_neg hneg rfl]
    simp [hnone, hbound, Settles]
  · have hyoung : ∀ t : Trade F, trade.timestamp - w.horizonSeconds ≤ t.timestamp ↔
        notOlder (trade.timestamp - w.horizonSeconds) t = true := by
      intro t
      simp [notOlder]
    rw [trades_add_of_nonneg hnonneg]
    simp only [hyoung]
    exact forall_mem_dropWhile_iff

/-- In event order nothing is ever shielded. -/
theorem noneShielded_of_inOrder (symbol : String) (maxTrades : ℤ) (horizon : ℚ)
    {trades : List (Trade F)} (horder : InOrder trades) :
    Along add NoneShielded (⟨symbol, maxTrades, horizon, []⟩ : SymbolWindow F) trades := by
  rintro before trade after rfl
  let w := (⟨symbol, maxTrades, horizon, []⟩ : SymbolWindow F).replay before
  have hheld : List.Sublist w.trades before := replay_sublist _ before
  have htape : List.Sublist ((w.trades ++ [trade]).rtake w.maxTrades.toNat)
      (before ++ trade :: after) := by
    rw [List.append_cons before trade after]
    exact (rtake_suffix _ _).sublist.trans
      ((hheld.append_right [trade]).trans (List.sublist_append_left _ _))
  exact (horder.settles _).of_sublist htape

end Horizon

section Newest

variable {F : Type} [PyFloat F] [EventTime F]

/-- The trade can be read, there is room for it, and it or one of the trades that the bound
on their number leaves before it is not older than the horizon. -/
def KeepsNewest (w : SymbolWindow F) (trade : Trade F) : Prop :=
  readable trade = true ∧ 1 ≤ w.maxTrades ∧
    ∃ x ∈ (w.trades ++ [trade]).rtake w.maxTrades.toNat,
      older trade.timestamp w.horizonSeconds x = false

/-- The loop ends well with a trade at the front only if that trade is not old. -/
theorem exists_not_older_of_popWhileOlder {nowTs horizon : ℚ} {trades : List (Trade F)}
    (hok : (popWhileOlder nowTs horizon trades).1 = .ok ())
    (hkept : (popWhileOlder nowTs horizon trades).2 ≠ []) :
    ∃ x ∈ trades, older nowTs horizon x = false := by
  induction trades with
  | nil => exact absurd rfl hkept
  | cons trade rest ih =>
      unfold popWhileOlder at hok hkept
      split_ifs at hok hkept with hread hold
      · obtain ⟨x, hx, hyoung⟩ := ih hok hkept
        exact ⟨x, List.mem_cons_of_mem _ hx, hyoung⟩
      · exact ⟨trade, List.mem_cons_self, Bool.eq_false_iff.mpr hold⟩

/-- An addition that works and keeps the trade was one that could. -/
theorem keepsNewest_of_add {w : SymbolWindow F} {trade : Trade F}
    (hok : (w.add trade).1 = .ok ()) (hlast : (w.add trade).2.trades.getLast? = some trade) :
    w.KeepsNewest trade := by
  cases hread : readable trade with
  | false =>
      rw [add_of_unreadable w hread] at hok
      cases hok
  | true =>
      rcases lt_or_ge w.maxTrades 0 with hneg | hnonneg
      · rw [add_of_neg hneg hread] at hok
        cases hok
      · simp only [add, timestamp, hread, if_true, evict,
          popWhileOver_of_nonneg hnonneg] at hok hlast
        have hkept : (popWhileOlder trade.timestamp w.horizonSeconds
            ((w.trades ++ [trade]).rtake w.maxTrades.toNat)).2 ≠ [] := by
          intro hnil
          rw [hnil] at hlast
          cases hlast
        obtain ⟨x, hx, hyoung⟩ := exists_not_older_of_popWhileOlder hok hkept
        refine ⟨hread, ?_, x, hx, hyoung⟩
        by_contra hroom
        rw [show w.maxTrades.toNat = 0 by omega, List.rtake_zero] at hx
        exact absurd hx List.not_mem_nil

theorem getLast?_add_of_keepsNewest {w : SymbolWindow F} {trade : Trade F}
    (h : w.KeepsNewest trade) (hread : ∀ t ∈ w.trades, readable t = true) :
    (w.add trade).1 = .ok () ∧ (w.add trade).2.trades.getLast? = some trade := by
  obtain ⟨htrade, hmax, x, hx, hyoung⟩ := h
  have hall : ∀ t ∈ w.trades ++ [trade], readable t = true := by
    intro t ht
    rcases List.mem_append.mp ht with hold | hnew
    · exact hread t hold
    · rwa [List.mem_singleton.mp hnew]
  have hadd := add_of_readable (show 0 ≤ w.maxTrades by omega) hall
  have hne : (w.add trade).2.trades ≠ [] := by
    rw [hadd]
    intro hnil
    have hdropped := List.dropWhile_eq_nil_iff.mp hnil x hx
    rw [hyoung] at hdropped
    cases hdropped
  refine ⟨by rw [hadd], ?_⟩
  obtain ⟨newest, hnewest⟩ := Option.ne_none_iff_exists'.mp (mt List.getLast?_eq_none_iff.mp hne)
  rw [hnewest, eq_of_getLast?_add hnewest]

end Newest

/-- With exact event times the added trade is not older than a horizon that looks back. -/
theorem keepsNewest_of_nonneg {F : Type} [PyFloat F] {w : SymbolWindow F}
    (hmax : 1 ≤ w.maxTrades) (hhorizon : 0 ≤ w.horizonSeconds) (trade : Trade F) :
    w.KeepsNewest trade := by
  obtain ⟨bound, hbound⟩ : ∃ bound, w.maxTrades.toNat = bound + 1 :=
    ⟨w.maxTrades.toNat - 1, by omega⟩
  refine ⟨rfl, hmax, trade, ?_, ?_⟩
  · rw [hbound, List.rtake_concat_succ]
    simp
  · simpa using hhorizon

end SymbolWindow

namespace DetectionEngine

section Contract

variable {F D M : Type} [PyFloat F] [EventTime F] [Detector D F]

/-- The call on `trade` finds a window that takes it, and the detectors are
shown a window in which it is the most recent element. -/
def HoldsCurrent (e : DetectionEngine D F) (trade : Trade F) : Prop :=
  ((e.windows.window trade.symbol).add trade).1 = .ok () ∧
    (e.windowAfter trade).trades.getLast? = some trade

/-- The window of the trade's symbol can take the trade. -/
def KeepsCurrent (e : DetectionEngine D F) (trade : Trade F) : Prop :=
  (e.windows.window trade.symbol).KeepsNewest trade

variable (sklearn : SkLearn F M) (cfg : DetectionConfig F)

/-- The bounds of a ruleset reach every window of a run. -/
theorem final_window_bounds (trades : List (Trade F)) (symbol : String) :
    ((final watch (init sklearn cfg) trades).windows.window symbol).maxTrades =
        cfg.window.maxTrades ∧
      ((final watch (init sklearn cfg) trades).windows.window symbol).horizonSeconds =
        cfg.window.horizonSeconds := by
  rw [final_window, SymbolWindow.replay_maxTrades, SymbolWindow.replay_horizonSeconds]
  exact ⟨rfl, rfl⟩

/-- A window of a run holds trades of the run. -/
theorem mem_of_mem_final_window {trades : List (Trade F)} {symbol : String} {t : Trade F}
    (ht : t ∈ ((final watch (init sklearn cfg) trades).windows.window symbol).trades) :
    t ∈ trades := by
  rw [final_window] at ht
  have htape := (SymbolWindow.replay_sublist _ _).subset ht
  exact List.mem_of_mem_filter htape

/-- The window contract holds throughout a run exactly if each of its trades finds a window
that can take it. -/
theorem holdsCurrent_run_iff (trades : List (Trade F)) :
    Along watch HoldsCurrent (init sklearn cfg) trades ↔
      Along watch KeepsCurrent (init sklearn cfg) trades := by
  constructor
  · intro h before trade after hsplit
    obtain ⟨hok, hlast⟩ := h before trade after hsplit
    exact SymbolWindow.keepsNewest_of_add hok hlast
  · intro h before trade after hsplit
    refine SymbolWindow.getLast?_add_of_keepsNewest (h before trade after hsplit) ?_
    intro t ht
    obtain ⟨earlier, between, rfl⟩ := List.append_of_mem
      (mem_of_mem_final_window sklearn cfg ht)
    exact (h earlier t (between ++ trade :: after) (by simp [hsplit])).1

end Contract

section Exact

variable {F M : Type} [PyFloat F] (sklearn : SkLearn F M) (cfg : DetectionConfig F)

/-- With exact event times that is so exactly if the run is empty or the ruleset leaves room
for one trade and looks back from it. -/
theorem keepsCurrent_run_iff (trades : List (Trade F)) :
    Along watch KeepsCurrent (init sklearn cfg) trades ↔
      trades = [] ∨ (1 ≤ cfg.window.maxTrades ∧ 0 ≤ cfg.window.horizonSeconds) := by
  constructor
  · intro h
    cases trades with
    | nil => exact Or.inl rfl
    | cons first rest =>
        have hfresh : SymbolWindow.KeepsNewest
            (⟨first.symbol, cfg.window.maxTrades, cfg.window.horizonSeconds, []⟩ :
              SymbolWindow F) first := h [] first rest rfl
        obtain ⟨_, hmax, x, hx, hyoung⟩ := hfresh
        obtain rfl : x = first := by simpa using (rtake_suffix _ _).mem hx
        exact Or.inr ⟨hmax, by simpa using hyoung⟩
  · rintro (rfl | ⟨hmax, hhorizon⟩)
    · exact along_nil _ _ _
    · intro before trade after _
      obtain ⟨hmaxTrades, hhorizonSeconds⟩ :=
        final_window_bounds sklearn cfg before trade.symbol
      exact SymbolWindow.keepsNewest_of_nonneg (by rwa [hmaxTrades])
        (by rwa [hhorizonSeconds]) trade

end Exact

/-- A negative bound on the number of trades makes the first call raise. -/
theorem not_holdsCurrent_run_negative_bound :
    ¬ Along watch HoldsCurrent (init .missing { window := { maxTrades := -1 } })
      [selfTradeAt "a" 0] := by
  intro h
  obtain ⟨hadded, _⟩ := h [] (selfTradeAt "a" 0) [] rfl
  exact absurd hadded (by decide +kernel)

end DetectionEngine

end TradeWatch
