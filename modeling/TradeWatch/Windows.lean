import TradeWatch.EventTime
import TradeWatch.Lib.OrderedDict
import TradeWatch.Lib.Statistics
import TradeWatch.Lib.Suffix

/-!
Per-symbol rolling windows. A window keeps the trades of one symbol in arrival
order and evicts from the front: first while there are more than `maxTrades`,
then while the front is older than the horizon. The statistics read the window
but never change it. A deque that is popped while empty raises, which happens
exactly when `maxTrades` is negative; and so does every read of an event time that
`timestamp()` raises on.
-/

namespace TradeWatch

open PyFloat EventTime

section Eviction

variable {F : Type} [PyFloat F]

structure SymbolWindow (F : Type) [PyFloat F] where
  symbol : String
  maxTrades : ℤ
  horizonSeconds : ℚ
  trades : List (Trade F)

/-- The loop that pops from the front while the window is too long. -/
def popWhileOver (maxTrades : ℤ) : List (Trade F) → Except PyError (List (Trade F))
  | [] => if maxTrades < 0 then .error .indexError else .ok []
  | trade :: rest =>
      if maxTrades < (trade :: rest).length then popWhileOver maxTrades rest
      else .ok (trade :: rest)

theorem popWhileOver_of_nonneg {maxTrades : ℤ} (hmax : 0 ≤ maxTrades) (trades : List (Trade F)) :
    popWhileOver maxTrades trades = .ok (trades.rtake maxTrades.toNat) := by
  induction trades with
  | nil => simp [popWhileOver, not_lt.mpr hmax, List.rtake]
  | cons trade rest ih =>
      unfold popWhileOver
      split_ifs with hover
      · have hdrop : (trade :: rest).length - maxTrades.toNat =
            rest.length - maxTrades.toNat + 1 := by
          simp only [List.length_cons] at hover ⊢
          omega
        rw [ih, List.rtake, List.rtake, hdrop, List.drop_succ_cons]
      · have hfits : (trade :: rest).length ≤ maxTrades.toNat := by omega
        rw [Suffix.rtake_of_length_le hfits]

theorem popWhileOver_of_neg {maxTrades : ℤ} (hmax : maxTrades < 0) (trades : List (Trade F)) :
    popWhileOver maxTrades trades = .error .indexError := by
  induction trades with
  | nil => simp [popWhileOver, hmax]
  | cons trade rest ih =>
      have hover : maxTrades < ((trade :: rest).length : ℕ) := by omega
      rw [popWhileOver, if_pos hover, ih]

theorem popWhileOver_suffix {maxTrades : ℤ} {trades kept : List (Trade F)}
    (h : popWhileOver maxTrades trades = .ok kept) : kept <:+ trades := by
  induction trades with
  | nil =>
      unfold popWhileOver at h
      split_ifs at h
      obtain rfl := Except.ok.inj h
      exact List.suffix_refl []
  | cons trade rest ih =>
      unfold popWhileOver at h
      split_ifs at h
      · exact (ih h).trans (List.suffix_cons trade rest)
      · obtain rfl := Except.ok.inj h
        exact List.suffix_refl _

variable [EventTime F]

/-- The loop that pops from the front while it is older than the horizon. It ends where an
event time cannot be read. -/
def popWhileOlder (nowTs horizon : ℚ) : List (Trade F) → Except PyError Unit × List (Trade F)
  | [] => (.ok (), [])
  | trade :: rest =>
      if !readable trade then (.error .valueError, trade :: rest)
      else if older nowTs horizon trade then popWhileOlder nowTs horizon rest
      else (.ok (), trade :: rest)

theorem popWhileOlder_of_readable (nowTs horizon : ℚ) {trades : List (Trade F)}
    (hread : ∀ t ∈ trades, readable t = true) :
    popWhileOlder nowTs horizon trades = (.ok (), trades.dropWhile (older nowTs horizon)) := by
  induction trades with
  | nil => rfl
  | cons trade rest ih =>
      obtain ⟨hfirst, hrest⟩ := List.forall_mem_cons.mp hread
      cases hold : older nowTs horizon trade <;>
        simp [popWhileOlder, hfirst, hold, ih hrest]

theorem popWhileOlder_suffix (nowTs horizon : ℚ) (trades : List (Trade F)) :
    (popWhileOlder nowTs horizon trades).2 <:+ trades := by
  induction trades with
  | nil => exact List.suffix_refl []
  | cons trade rest ih =>
      unfold popWhileOlder
      split_ifs
      · exact List.suffix_refl _
      · exact ih.trans (List.suffix_cons trade rest)
      · exact List.suffix_refl _

namespace SymbolWindow

/-- `_evict`: by count, then by age relative to `nowTs`. A pop that raises has
emptied the deque first. -/
def evict (w : SymbolWindow F) (nowTs : ℚ) : Except PyError Unit × SymbolWindow F :=
  match popWhileOver w.maxTrades w.trades with
  | .error err => (.error err, { w with trades := [] })
  | .ok kept =>
      let (done, kept) := popWhileOlder nowTs w.horizonSeconds kept
      (done, { w with trades := kept })

/-- `add`. The trade is appended before its event time is read. -/
def add (w : SymbolWindow F) (trade : Trade F) : Except PyError Unit × SymbolWindow F :=
  let appended := { w with trades := w.trades ++ [trade] }
  match timestamp trade with
  | .error err => (.error err, appended)
  | .ok nowTs => appended.evict nowTs

@[simp] theorem add_maxTrades (w : SymbolWindow F) (trade : Trade F) :
    (w.add trade).2.maxTrades = w.maxTrades := by
  unfold add evict
  cases timestamp trade with
  | error err => rfl
  | ok nowTs => dsimp only; split <;> rfl

@[simp] theorem add_horizonSeconds (w : SymbolWindow F) (trade : Trade F) :
    (w.add trade).2.horizonSeconds = w.horizonSeconds := by
  unfold add evict
  cases timestamp trade with
  | error err => rfl
  | ok nowTs => dsimp only; split <;> rfl

theorem add_of_unreadable (w : SymbolWindow F) {trade : Trade F}
    (hread : readable trade = false) :
    w.add trade = (.error .valueError, { w with trades := w.trades ++ [trade] }) := by
  simp [add, timestamp, hread]

/-- With a bound that is not negative and times that can be read nothing raises: what stays
is young enough among the last `maxTrades`. -/
theorem add_of_readable {w : SymbolWindow F} (hmax : 0 ≤ w.maxTrades) {trade : Trade F}
    (hread : ∀ t ∈ w.trades ++ [trade], readable t = true) :
    w.add trade =
      (.ok (),
        { w with
          trades := ((w.trades ++ [trade]).rtake w.maxTrades.toNat).dropWhile
            (older trade.timestamp w.horizonSeconds) }) := by
  have hkept : ∀ t ∈ (w.trades ++ [trade]).rtake w.maxTrades.toNat, readable t = true :=
    fun t ht => hread t ((Suffix.rtake_suffix _ _).subset ht)
  simp only [add, timestamp, hread trade (by simp), if_true, evict, popWhileOver_of_nonneg hmax,
    popWhileOlder_of_readable _ _ hkept]

theorem add_of_neg {w : SymbolWindow F} (hmax : w.maxTrades < 0) {trade : Trade F}
    (hread : readable trade = true) :
    w.add trade = (.error .indexError, { w with trades := [] }) := by
  simp only [add, timestamp, hread, if_true, evict, popWhileOver_of_neg hmax]

/-- Whatever the bounds, a window keeps an end of what it held, the new trade
last. -/
theorem add_suffix (w : SymbolWindow F) (trade : Trade F) :
    (w.add trade).2.trades <:+ w.trades ++ [trade] := by
  unfold add evict
  cases timestamp trade with
  | error err => exact List.suffix_refl _
  | ok nowTs =>
      rcases hpop : popWhileOver w.maxTrades (w.trades ++ [trade]) with err | kept
      · simp only [hpop]
        exact List.nil_suffix
      · simp only [hpop]
        exact (popWhileOlder_suffix _ _ _).trans (popWhileOver_suffix hpop)

theorem eq_of_getLast?_add {w : SymbolWindow F} {trade newest : Trade F}
    (h : (w.add trade).2.trades.getLast? = some newest) : newest = trade := by
  obtain ⟨front, hfront⟩ := w.add_suffix trade
  have hlast : (front ++ (w.add trade).2.trades).getLast? = some trade := by
    rw [hfront]
    simp
  rw [List.getLast?_append, h] at hlast
  exact Option.some.inj hlast

/-- The window after a sequence of trades. -/
def replay (w : SymbolWindow F) (trades : List (Trade F)) : SymbolWindow F :=
  trades.foldl (fun w trade => (w.add trade).2) w

@[simp] theorem replay_nil (w : SymbolWindow F) : w.replay [] = w := rfl

@[simp] theorem replay_cons (w : SymbolWindow F) (trade : Trade F) (rest : List (Trade F)) :
    w.replay (trade :: rest) = (w.add trade).2.replay rest := rfl

@[simp] theorem replay_append (w : SymbolWindow F) (first second : List (Trade F)) :
    w.replay (first ++ second) = (w.replay first).replay second := by
  simp [replay]

/-- A window holds trades it was given, in the order it was given them. -/
theorem replay_sublist (w : SymbolWindow F) (trades : List (Trade F)) :
    List.Sublist (w.replay trades).trades (w.trades ++ trades) := by
  induction trades generalizing w with
  | nil => simp
  | cons trade rest ih =>
      rw [replay_cons, List.append_cons]
      exact (ih _).trans ((w.add_suffix trade).sublist.append_right rest)

@[simp] theorem replay_maxTrades (w : SymbolWindow F) (trades : List (Trade F)) :
    (w.replay trades).maxTrades = w.maxTrades := by
  induction trades generalizing w with
  | nil => rfl
  | cons trade rest ih => rw [replay_cons, ih, add_maxTrades]

@[simp] theorem replay_horizonSeconds (w : SymbolWindow F) (trades : List (Trade F)) :
    (w.replay trades).horizonSeconds = w.horizonSeconds := by
  induction trades generalizing w with
  | nil => rfl
  | cons trade rest ih => rw [replay_cons, ih, add_horizonSeconds]

end SymbolWindow

end Eviction

section Statistics

variable {F : Type} [PyFloat F]

theorem popWhileOlder_exact (nowTs horizon : ℚ) (trades : List (Trade F)) :
    popWhileOlder nowTs horizon trades =
      (.ok (), trades.dropWhile (fun t => t.timestamp < nowTs - horizon)) :=
  popWhileOlder_of_readable nowTs horizon fun _ _ => rfl

/-- With exact event times nothing raises as long as the bound is not negative. -/
theorem SymbolWindow.add_of_nonneg {w : SymbolWindow F} (hmax : 0 ≤ w.maxTrades)
    (trade : Trade F) :
    w.add trade =
      (.ok (),
        { w with
          trades := ((w.trades ++ [trade]).rtake w.maxTrades.toNat).dropWhile
            (fun t => t.timestamp < trade.timestamp - w.horizonSeconds) }) :=
  add_of_readable hmax fun _ _ => rfl

/-- At least `minTrades` observations before the current one. -/
def SymbolWindow.ready (w : SymbolWindow F) (minTrades : ℤ) : Bool := minTrades < w.trades.length

/-- `_mean_std`: the mean and the sample standard deviation. -/
def meanStd (values : List F) : Except PyError (F × F) := do
  let n := values.length
  if n = 0 then
    return (ofRat 0, ofRat 0)
  let mean := div (sum values) (ofRat n)
  if n = 1 then
    return (mean, ofRat 0)
  let squares ← values.mapM (fun v => pow2 (sub v mean))
  let var := div (sum squares) (ofRat (n - 1 : ℕ))
  let std ← mathSqrt (pyMax var (ofRat 0))
  return (mean, std)

open SampleStatistics in
/-- The statistics, exactly. -/
theorem meanStd_real (xs : List ℝ) : meanStd xs = .ok (average xs, sampleStd xs) := by
  rcases Nat.lt_or_ge 1 xs.length with hmany | hfew
  · have hn : (1 : ℝ) < xs.length := by exact_mod_cast hmany
    have hmean : div (sum xs) (ofRat (xs.length : ℚ)) = average xs := by
      simp [div, sum, ofRat, average]
    have hsquares : xs.mapM (fun v => pow2 (sub v (average xs))) =
        .ok (xs.map (fun v => (v - average xs) ^ 2)) := mapM_ok _ xs
    have hvar : div (sum (xs.map (fun v => (v - average xs) ^ 2)))
        (ofRat ((xs.length - 1 : ℕ) : ℚ)) = squares xs / (xs.length - 1) := by
      simp [div, sum, ofRat, squares, Nat.cast_sub hmany.le]
    have hnonneg : 0 ≤ squares xs / (xs.length - 1) :=
      div_nonneg (squares_nonneg xs) (by linarith)
    have hmax : pyMax (squares xs / (xs.length - 1)) (ofRat 0) = squares xs / (xs.length - 1) := by
      simp [pyMax, lt, ofRat, not_lt.mpr hnonneg]
    have hroot : mathSqrt (squares xs / (xs.length - 1)) = .ok (sampleStd xs) := by
      simp [mathSqrt, lt, ofRat, not_lt.mpr hnonneg, sqrt, sampleStd]
    unfold meanStd
    simp only [if_neg (show xs.length ≠ 0 by omega), if_neg (show xs.length ≠ 1 by omega), hmean,
      hsquares, hvar, hmax, hroot, bind, Except.bind, pure, Except.pure]
  · rcases xs with _ | ⟨x, _ | ⟨y, rest⟩⟩
    · simp [meanStd, average, sampleStd, squares, pure, Except.pure, ofRat]
    · simp [meanStd, average, sampleStd, squares, pure, Except.pure, ofRat, div, sum]
    · simp at hfew

/-- `_median` of a list that is already sorted. -/
def median (values : List F) : F :=
  if h : values.length = 0 then ofRat 0
  else if values.length % 2 = 1 then
    values.get ⟨values.length / 2, by omega⟩
  else
    div
      (add (values.get ⟨values.length / 2 - 1, by omega⟩)
        (values.get ⟨values.length / 2, by omega⟩))
      (ofRat 2)

namespace SymbolWindow

def prices (w : SymbolWindow F) (excludeLast : Bool := true) : List F :=
  let prices := w.trades.map (·.price)
  if excludeLast then prices.dropLast else prices

def priceMeanStd (w : SymbolWindow F) (excludeLast : Bool := true) :
    Except PyError (F × F) :=
  meanStd (w.prices excludeLast)

def volumeMeanStd (w : SymbolWindow F) (excludeLast : Bool := true) :
    Except PyError (F × F) :=
  let vols := w.trades.map (·.quantity)
  meanStd (if excludeLast then vols.dropLast else vols)

/-- The list is sorted before its last entry is dropped, so what is left out is
the greatest quantity. -/
def volumeMedian (w : SymbolWindow F) (excludeLast : Bool := true) : F :=
  let vols := sorted (w.trades.map (·.quantity))
  median (if excludeLast then vols.dropLast else vols)

def previousPrice (w : SymbolWindow F) : Option F :=
  if w.trades.length < 2 then none
  else (w.trades[w.trades.length - 2]?).map (·.price)

end SymbolWindow

end Statistics

section Queries

variable {F : Type} [PyFloat F] [EventTime F]

namespace SymbolWindow

/-- The trades whose time reaches `nowTs - seconds`. -/
def reaching (w : SymbolWindow F) (nowTs seconds : ℚ) : List (Trade F) :=
  w.trades.filter (reaches nowTs seconds)

/-- `recent`: the trades not older than `seconds` before `nowTs`, which
defaults to the newest trade's time. The time of every trade is read. -/
def recent (w : SymbolWindow F) (seconds : ℚ) (nowTs : Option ℚ := none) :
    Except PyError (List (Trade F)) :=
  match w.trades.getLast? with
  | none => .ok []
  | some newest => do
      let ref ← nowTs.elim (timestamp newest) .ok
      if w.trades.all readable then .ok (w.reaching ref seconds) else .error .valueError

def countWithin (w : SymbolWindow F) (seconds : ℚ) (nowTs : Option ℚ := none) :
    Except PyError ℕ :=
  match w.trades.getLast? with
  | none => .ok 0
  | some newest => do
      let ref ← nowTs.elim (timestamp newest) .ok
      if w.trades.all readable then .ok (w.trades.countP (reaches ref seconds))
      else .error .valueError

/-- The numbers of buys and of sells within the horizon. -/
def sideImbalance (w : SymbolWindow F) (seconds : ℚ) : Except PyError (ℕ × ℕ) := do
  let window ← w.recent seconds
  let buys := window.countP (fun t => t.side = .buy)
  return (buys, window.length - buys)

theorem countWithin_eq_length_recent (w : SymbolWindow F) (seconds : ℚ)
    (nowTs : Option ℚ) :
    w.countWithin seconds nowTs = (w.recent seconds nowTs).map List.length := by
  unfold countWithin recent reaching
  cases w.trades.getLast? with
  | none => rfl
  | some newest =>
      rcases href : nowTs.elim (timestamp newest) .ok with err | ref
      · simp [href, bind, Except.bind, Except.map]
      · simp only [href, bind, Except.bind, List.countP_eq_length_filter]
        cases w.trades.all readable <;> rfl

/-- After an addition the newest trade is the one that was added, so both ways
of asking for the recent trades put the cutoff in the same place. -/
theorem recent_add (w : SymbolWindow F) (trade : Trade F) (seconds : ℚ) {nowTs : Option ℚ}
    (hnow : ∀ ts ∈ nowTs, ts = trade.timestamp) :
    (w.add trade).2.recent seconds nowTs =
      if (w.add trade).2.trades.all readable then
        .ok ((w.add trade).2.reaching trade.timestamp seconds)
      else .error .valueError := by
  unfold recent
  cases hlast : (w.add trade).2.trades.getLast? with
  | none => simp [reaching, List.getLast?_eq_none_iff.mp hlast]
  | some newest =>
      obtain rfl := eq_of_getLast?_add hlast
      cases nowTs with
      | some ts =>
          obtain rfl := hnow ts rfl
          rfl
      | none =>
          cases hread : readable newest with
          | true => simp [timestamp, hread, bind, Except.bind]
          | false =>
              have hmem := List.mem_of_getLast? hlast
              have hnot : (w.add newest).2.trades.all readable = false :=
                List.all_eq_false.mpr ⟨newest, hmem, by simp [hread]⟩
              simp [timestamp, hread, hnot, bind, Except.bind]

end SymbolWindow

end Queries

section ExactQueries

variable {F : Type} [PyFloat F]

theorem SymbolWindow.recent_some (w : SymbolWindow F) (seconds ts : ℚ) :
    w.recent seconds (some ts) = .ok (w.reaching ts seconds) := by
  unfold recent
  cases hlast : w.trades.getLast? with
  | none => simp [reaching, List.getLast?_eq_none_iff.mp hlast]
  | some newest => simp [bind, Except.bind]

end ExactQueries

section Store

variable {F : Type} [PyFloat F]

/-- `WindowStore`: one window a symbol, created on first use. -/
structure WindowStore (F : Type) [PyFloat F] where
  maxTrades : ℤ
  horizon : ℚ
  windows : OrderedDict String (SymbolWindow F)

namespace WindowStore

def init (maxTrades : ℤ) (horizonSeconds : ℚ) : WindowStore F :=
  ⟨maxTrades, horizonSeconds, .empty⟩

/-- The window that `get` answers with. -/
def window (store : WindowStore F) (symbol : String) : SymbolWindow F :=
  (store.windows.get? symbol).getD ⟨symbol, store.maxTrades, store.horizon, []⟩

/-- `get`: the symbol's window and the registry, which now has an entry for
the symbol. -/
def get (store : WindowStore F) (symbol : String) : SymbolWindow F × WindowStore F :=
  match store.windows.get? symbol with
  | some win => (win, store)
  | none =>
      let win := ⟨symbol, store.maxTrades, store.horizon, []⟩
      (win, { store with windows := store.windows.set symbol win })

/-- A window that was changed through the reference `get` handed out. -/
def write (store : WindowStore F) (symbol : String) (win : SymbolWindow F) :
    WindowStore F :=
  { store with windows := store.windows.set symbol win }

def symbols (store : WindowStore F) : List String := store.windows.keys

theorem get_fst (store : WindowStore F) (symbol : String) :
    (store.get symbol).1 = store.window symbol := by
  unfold get window
  cases store.windows.get? symbol <;> rfl

theorem window_init (maxTrades : ℤ) (horizon : ℚ) (symbol : String) :
    (init maxTrades horizon : WindowStore F).window symbol =
      ⟨symbol, maxTrades, horizon, []⟩ := rfl

@[simp] theorem window_write_self (store : WindowStore F) (symbol : String)
    (win : SymbolWindow F) : (store.write symbol win).window symbol = win := by
  simp [window, write]

theorem window_write_ne (store : WindowStore F) {symbol other : String}
    (h : other ≠ symbol) (win : SymbolWindow F) :
    (store.write symbol win).window other = store.window other := by
  simp [window, write, OrderedDict.get?_set_ne _ h]

/-- Creating a window on first use changes no window that `get` answers with. -/
theorem window_get (store : WindowStore F) (symbol other : String) :
    (store.get symbol).2.window other = store.window other := by
  unfold get
  cases hsym : store.windows.get? symbol with
  | some win => rfl
  | none =>
      by_cases h : other = symbol
      · subst h
        simp [window, hsym]
      · simp [window, OrderedDict.get?_set_ne _ h]

/-- Handling a trade of `symbol` tracks that symbol and no other. -/
theorem mem_symbols_write_get (store : WindowStore F) (symbol other : String)
    (win : SymbolWindow F) :
    other ∈ ((store.get symbol).2.write symbol win).symbols ↔
      other = symbol ∨ other ∈ store.symbols := by
  unfold get
  cases store.windows.get? symbol <;>
    simp [symbols, write, OrderedDict.mem_keys_set]

end WindowStore

end Store

end TradeWatch
