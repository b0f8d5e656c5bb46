import TradeWatch.Lib.Limited
import TradeWatch.Sources.Simulator

/-!
The event clock of the simulator in exact arithmetic. An event time is the epoch
plus a whole number of microseconds, and dates end with the year 9999: when the
clock runs past that, adding to the epoch raises. Next to the simulator stands the
same simulator with a calendar that has no end. The rules below step through both
at once.
-/

namespace TradeWatch

open PyFloat StateExcept

section Calendar

variable {K : Type} [Field K] [LinearOrder K] [FloorRing K]

/-- `timedelta(seconds=x)` in exact seconds: a whole number of microseconds. -/
def wholeMicroseconds (x : K) : ℚ := (roundHalfEven (x * (10 ^ 6 : ℕ)) : ℚ) / 10 ^ 6

def clockTime (elapsed : K) : ℚ := simEpoch + wholeMicroseconds elapsed

/-- A `datetime` can hold it: it lies in the years 1 to 9999. -/
def Dated (moment : ℚ) : Prop := -62135596800 ≤ moment ∧ moment < 253402300800

instance (moment : ℚ) : Decidable (Dated moment) := inferInstanceAs (Decidable (_ ∧ _))

/-- `timedelta(seconds=x)`, to be added to the epoch. A delta too long for a
`timedelta` is also too long for the sum, and both raise alike. -/
def calendar (x : K) : Except PyError ℚ :=
  if Dated (clockTime x) then .ok (wholeMicroseconds x) else .error .overflowError

/-- The same outcomes on a calendar that has no end. -/
def Chance.endless {G : Type} (env : Chance K G) : Chance K G :=
  { env with timedelta := fun x => .ok (wholeMicroseconds x) }

/-- What the generator and the calendar document. A `gauss` may be anything. -/
structure Chance.Documented {G : Type} (env : Chance K G) : Prop where
  uniform : ∀ a b rng, a ≤ b → a ≤ (env.uniform a b rng).1 ∧ (env.uniform a b rng).1 ≤ b
  timedelta : env.timedelta = calendar

end Calendar

section ClockTime

theorem clockTime_mono {K : Type} [Field K] [LinearOrder K] [IsStrictOrderedRing K] [FloorRing K]
    {x y : K} (h : x ≤ y) : clockTime x ≤ clockTime y := by
  have hscaled : x * (10 ^ 6 : ℕ) ≤ y * (10 ^ 6 : ℕ) := by
    push_cast
    linarith
  unfold clockTime wholeMicroseconds
  gcongr
  exact roundHalfEven_mono hscaled

/-- The gap between two events is more than the rounding. -/
theorem clockTime_lt {x y : ℝ} (h : x + 1 / 100 ≤ y) : clockTime x < clockTime y := by
  have hscaled : x * (10 ^ 6 : ℕ) + 2 ≤ y * (10 ^ 6 : ℕ) := by
    push_cast
    linarith
  unfold clockTime wholeMicroseconds
  gcongr
  exact roundHalfEven_lt hscaled

theorem clockTime_zero : clockTime (0 : ℝ) = simEpoch := by
  have hzero : roundHalfEven (0 : ℝ) = 0 := by simp [roundHalfEven]
  simp [clockTime, wholeMicroseconds, hzero]

/-- The clock starts at the epoch, so it can only leave the calendar at its end. -/
theorem dated_of_le {x y : ℝ} (hx : 0 ≤ x) (h : x ≤ y) (hy : Dated (clockTime y)) :
    Dated (clockTime x) := by
  have hstart := clockTime_mono hx
  rw [clockTime_zero] at hstart
  unfold simEpoch at hstart
  refine ⟨by linarith, (clockTime_mono h).trans_lt hy.2⟩

end ClockTime

namespace MarketSimulator

/-- Only the generator has moved. -/
def withRng {F G : Type} (sim : MarketSimulator F G) (rng : G) : MarketSimulator F G :=
  { sim with rng := rng }

/-- Only the clock has moved. -/
def tick {F G : Type} (sim : MarketSimulator F G) (elapsed : F) : MarketSimulator F G :=
  { sim with elapsed := elapsed }

/-- The clock shows a date. -/
def clockLimit (G : Type) : Limit (MarketSimulator ℝ G) PyError where
  within sim := Dated (clockTime sim.elapsed)
  err := .overflowError

section Rules

variable {G : Type} {env : Chance ℝ G} {sim : MarketSimulator ℝ G} {rng : G}
  {α β : Type} {post : β → MarketSimulator ℝ G → Prop}

/-- A method that leaves the clock alone. -/
theorem meets_bind_of_eq {action : Sim ℝ G α} {next next' : α → Sim ℝ G β} {x : α} {rng' : G}
    (hrun : action (sim.withRng rng) = .ok (x, sim.withRng rng'))
    (hnext : Meets (clockLimit G) (next x) (next' x) (sim.withRng rng') post) :
    Meets (clockLimit G) (action >>= next) (action >>= next') (sim.withRng rng) post := by
  have hsame : Meets (clockLimit G) action action (sim.withRng rng)
      (fun y sim' => y = x ∧ sim' = sim.withRng rng') :=
    .same hrun Iff.rfl ⟨rfl, rfl⟩
  refine hsame.bind ?_
  rintro y sim' ⟨rfl, rfl⟩
  exact hnext

theorem meets_draw_bind {f : G → α × G} {next next' : α → Sim ℝ G β}
    (hnext : ∀ seed rng, Meets (clockLimit G) (next (f seed).1) (next' (f seed).1)
      (sim.withRng rng) post) :
    Meets (clockLimit G) (draw f >>= next) (draw f >>= next') (sim.withRng rng) post :=
  meets_bind_of_eq rfl (hnext rng (f rng).2)

theorem meets_uniform_bind (henv : env.Documented) {a b : ℚ} (hab : a ≤ b)
    {next next' : ℝ → Sim ℝ G β}
    (hnext : ∀ x : ℝ, a ≤ x → x ≤ b → ∀ rng,
      Meets (clockLimit G) (next x) (next' x) (sim.withRng rng) post) :
    Meets (clockLimit G) (draw (env.endless.uniform (ofRat a) (ofRat b)) >>= next)
      (draw (env.uniform (ofRat a) (ofRat b)) >>= next') (sim.withRng rng) post := by
  have hbounds := henv.uniform a b rng (Rat.cast_le.mpr hab)
  exact meets_bind_of_eq rfl (hnext _ hbounds.1 hbounds.2 _)

theorem meets_choice_bind {xs : List α} {next next' : α → Sim ℝ G β} (hne : xs ≠ [])
    (hnext : ∀ x ∈ xs, ∀ rng, Meets (clockLimit G) (next x) (next' x) (sim.withRng rng) post) :
    Meets (clockLimit G) (choice env.endless xs >>= next) (choice env xs >>= next')
      (sim.withRng rng) post := by
  have hlength : 0 < xs.length := List.length_pos_iff.mpr hne
  have hrun : choice env xs (sim.withRng rng) =
      .ok (xs.get (env.choice xs.length hlength rng).1,
        sim.withRng (env.choice xs.length hlength rng).2) := by
    rw [choice, dif_pos hlength]
    rfl
  exact meets_bind_of_eq hrun (hnext _ (List.get_mem _ _) _)

theorem meets_normalGap_bind {next next' : ℝ → Sim ℝ G β}
    (hnext : ∀ gap, 1 / 100 ≤ gap → ∀ rng,
      Meets (clockLimit G) (next gap) (next' gap) (sim.withRng rng) post) :
    Meets (clockLimit G) (normalGap env.endless >>= next) (normalGap env >>= next')
      (sim.withRng rng) post := by
  have hrun : normalGap env (sim.withRng rng) =
      .ok (pyMax (ofRat (1 / 100)) (env.gauss (ofRat (25 / 100)) (ofRat (8 / 100)) rng).1,
        sim.withRng (env.gauss (ofRat (25 / 100)) (ofRat (8 / 100)) rng).2) := rfl
  refine meets_bind_of_eq hrun (hnext _ ?_ _)
  rw [pyMax_real, ofRat_real]
  push_cast
  exact le_max_left _ _

/-- A size that is rounded to two decimals is no less than one. -/
theorem one_le_roundDigits {x : ℝ} (h : 1 ≤ x) : 1 ≤ roundDigits x 2 := by
  have hgrid : ((100 : ℤ) : ℝ) / 10 ^ 2 = 1 := by norm_num
  rw [← hgrid]
  apply le_roundDigits
  push_cast
  linarith

theorem meets_drawSize_bind {state : SymbolState ℝ} {next next' : ℝ → Sim ℝ G β}
    (hnext : ∀ size, 1 ≤ size → ∀ rng,
      Meets (clockLimit G) (next size) (next' size) (sim.withRng rng) post) :
    Meets (clockLimit G) (drawSize env.endless state >>= next) (drawSize env state >>= next')
      (sim.withRng rng) post := by
  have hrun : drawSize env state (sim.withRng rng) =
      .ok (round (pyMax (ofRat 1) (mul
            (env.lognormvariate (ofRat 0) (ofRat (1 / 2)) rng).1 state.baseSize)) 2,
        sim.withRng (env.lognormvariate (ofRat 0) (ofRat (1 / 2)) rng).2) := rfl
  refine meets_bind_of_eq hrun (hnext _ (one_le_roundDigits ?_) _)
  rw [pyMax_real, ofRat_real, Rat.cast_one]
  exact le_max_left _ _

/-- The clock goes on, and the calendar may end. -/
theorem meets_advance (henv : env.Documented) (hclock : 0 ≤ sim.elapsed) {gap : ℝ}
    (hgap : 0 ≤ gap) :
    Meets (clockLimit G) (advance env.endless gap) (advance env gap) (sim.withRng rng)
      (fun moment sim' => moment = clockTime (sim.elapsed + gap) ∧
        sim' = (sim.tick (sim.elapsed + gap)).withRng rng) := by
  have hdt : pyMax gap (ofRat 0) = gap := by
    rw [pyMax_real, ofRat_real, Rat.cast_zero]
    exact max_eq_left hgap
  have hnow : ∀ env : Chance ℝ G, advance env gap (sim.withRng rng) =
      (env.timedelta (sim.elapsed + gap)).map (fun delta =>
        (simEpoch + delta, (sim.tick (sim.elapsed + gap)).withRng rng)) := by
    intro env
    have hlift : advance env gap (sim.withRng rng) =
        (liftM (env.timedelta (sim.elapsed + gap)) >>= fun delta => pure (simEpoch + delta) :
          Sim ℝ G ℚ) ((sim.tick (sim.elapsed + gap)).withRng rng) := by
      unfold advance
      rw [hdt]
      rfl
    rw [hlift, bind_apply]
    cases env.timedelta (sim.elapsed + gap) <;> rfl
  refine ⟨clockTime (sim.elapsed + gap), (sim.tick (sim.elapsed + gap)).withRng rng, ?_,
    ⟨rfl, rfl⟩, dated_of_le hclock (le_add_of_nonneg_right hgap), ?_⟩
  · rw [hnow]
    rfl
  · intro _
    rw [hnow, henv.timedelta, calendar]
    constructor
    · intro (hdated : Dated (clockTime (sim.elapsed + gap)))
      rw [if_pos hdated]
      rfl
    · intro (hbeyond : ¬ Dated (clockTime (sim.elapsed + gap)))
      rw [if_neg hbeyond]
      rfl

end Rules

end MarketSimulator

end TradeWatch
