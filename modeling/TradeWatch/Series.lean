import TradeWatch.Lib.Buckets
import TradeWatch.Metrics

/-!
The per-second series against the calls they were recorded from. The collector
trims its buckets now and then, by the second of the call that comes in; a query
reads by the second it is asked in. What it may ask for is always still there.
-/

namespace TradeWatch

open PyFloat Buckets

theorem pyInt_of_nonneg {x : ℚ} (h : 0 ≤ x) : pyInt x = ⌊x⌋ := by
  rw [pyInt, Int.tdiv_eq_ediv_of_nonneg (Rat.num_nonneg.mpr h), Rat.floor_def']

theorem pyInt_neg (x : ℚ) : pyInt (-x) = -pyInt x := by
  simp [pyInt]

/-- Rounding towards zero keeps the order. -/
theorem pyInt_mono {x y : ℚ} (h : x ≤ y) : pyInt x ≤ pyInt y := by
  rcases le_total 0 x with hx | hx
  · rw [pyInt_of_nonneg hx, pyInt_of_nonneg (hx.trans h)]
    exact Int.floor_le_floor h
  · have hlow : pyInt x ≤ 0 := by
      have hneg := pyInt_of_nonneg (neg_nonneg.mpr hx)
      have hfloor := Int.floor_nonneg.mpr (neg_nonneg.mpr hx)
      rw [pyInt_neg] at hneg
      omega
    rcases le_total 0 y with hy | hy
    · rw [pyInt_of_nonneg hy]
      exact hlow.trans (Int.floor_nonneg.mpr hy)
    · have hfloor := Int.floor_le_floor (neg_le_neg h)
      rw [← pyInt_of_nonneg (neg_nonneg.mpr hy), ← pyInt_of_nonneg (neg_nonneg.mpr hx), pyInt_neg,
        pyInt_neg] at hfloor
      omega

variable {F : Type} [PyFloat F]

/-- The second that a call is booked in. -/
def RecordCall.second (call : RecordCall F) : ℤ := pyInt call.now

/-- The notionals of some calls, added up in order. -/
def runningNotional (calls : List (RecordCall F)) : F :=
  (calls.map (·.trade.notional)).foldl add (ofRat 0)

theorem runningNotional_real (calls : List (RecordCall ℝ)) :
    runningNotional calls = (calls.map (·.trade.notional)).sum := by
  rw [List.sum_eq_foldl, runningNotional, ofRat_real, Rat.cast_zero]
  rfl

/-- How many alerts some calls came with. -/
def alertCount (calls : List (RecordCall F)) : ℕ := (calls.flatMap (·.alerts)).length

namespace MetricsCollector

/-- What `record` does to the three bucket maps. -/
theorem record_buckets (m : MetricsCollector F) (call : RecordCall F) :
    let next := m.record call.trade call.alerts call.latencyUs call.now
    let sec := call.second
    let trim : Bool := sec ≠ m.lastTrim
    next.tsWindow = m.tsWindow ∧ next.lastTrim = sec ∧
      next.tsTrades =
        advance m.tsTrades m.tsWindow sec (some ((m.tsTrades.get? sec).getD 0 + 1)) trim ∧
      next.tsAlerts =
        advance m.tsAlerts m.tsWindow sec
          (if call.alerts.isEmpty then none
            else some ((m.tsAlerts.get? sec).getD 0 + call.alerts.length)) trim ∧
      next.tsNotional =
        advance m.tsNotional m.tsWindow sec
          (some (add ((m.tsNotional.get? sec).getD (ofRat 0)) call.trade.notional)) trim := by
  obtain ⟨trade, alerts, latencyUs, now⟩ := call
  -- with alerts or without, in the second of the last call or in a new one
  cases alerts with
  | nil =>
      by_cases hsame : pyInt now = m.lastTrim
      · simp [record, recordTrade, recordAlerts, advance, RecordCall.second, hsame]
      · simp [record, recordTrade, recordAlerts, advance, RecordCall.second, hsame,
          MetricsCollector.trim]
  | cons alert rest =>
      by_cases hsame : pyInt now = m.lastTrim
      · simp [record, recordTrade, recordAlerts, advance, RecordCall.second, hsame]
      · simp [record, recordTrade, recordAlerts, advance, RecordCall.second, hsame,
          MetricsCollector.trim]

/-- The buckets hold the calls so far, as far back as the window reaches. -/
structure Bucketed (m : MetricsCollector F) (calls : List (RecordCall F)) : Prop where
  trades : Tallies RecordCall.second m.tsWindow List.length m.tsTrades calls
  alerts : Tallies RecordCall.second m.tsWindow alertCount m.tsAlerts calls
  notional : Tallies RecordCall.second m.tsWindow runningNotional m.tsNotional calls
  lastTrim : ∀ last ∈ calls.getLast?, last.second = m.lastTrim

theorem Bucketed.record {m : MetricsCollector F} {calls : List (RecordCall F)}
    (h : Bucketed m calls) (hwindow : 0 ≤ m.tsWindow) (call : RecordCall F)
    (hlater : ∀ c ∈ calls, c.now ≤ call.now) :
    Bucketed (m.record call.trade call.alerts call.latencyUs call.now) (calls ++ [call]) := by
  obtain ⟨hspan, htrim, htrades, halerts, hnotional⟩ := m.record_buckets call
  have hseconds : ∀ c ∈ calls, c.second ≤ call.second := fun c hc => pyInt_mono (hlater c hc)
  have hsame : decide (call.second ≠ m.lastTrim) = false →
      ∀ last ∈ calls.getLast?, last.second = call.second := by
    intro hkept last hlast
    rw [h.lastTrim last hlast]
    exact (not_not.mp (of_decide_eq_false hkept)).symm
  have hyoung : ∀ c ∈ calls, c.second - m.tsWindow ≤ call.second := by
    intro c hc
    have hle := hseconds c hc
    omega
  constructor
  · rw [hspan, htrades]
    apply h.trades.advance _ hwindow hseconds hsame
    have hheld : (m.tsTrades.get? call.second).getD 0 =
        (inSecond RecordCall.second calls call.second).length := h.trades.exact _ hyoung
    rw [Option.getD_some, hheld, List.length_append, List.length_singleton]
  · rw [hspan, halerts]
    apply h.alerts.advance _ hwindow hseconds hsame
    have hheld : (m.tsAlerts.get? call.second).getD 0 =
        alertCount (inSecond RecordCall.second calls call.second) := h.alerts.exact _ hyoung
    have hadded : alertCount (inSecond RecordCall.second calls call.second ++ [call]) =
        alertCount (inSecond RecordCall.second calls call.second) + call.alerts.length := by
      simp [alertCount]
    rw [hadded]
    split_ifs with hnone
    · simp [List.isEmpty_iff.mp hnone]
    · rw [Option.getD_some, hheld]
  · rw [hspan, hnotional]
    apply h.notional.advance _ hwindow hseconds hsame
    have hheld : (m.tsNotional.get? call.second).getD (ofRat 0) =
        runningNotional (inSecond RecordCall.second calls call.second) := h.notional.exact _ hyoung
    rw [Option.getD_some, hheld]
    simp [runningNotional]
  · intro last hlast
    rw [List.getLast?_concat, Option.mem_some_iff] at hlast
    rw [htrim, ← hlast]

theorem bucketed_recordAll (startTime : ℚ) {tsWindow : ℤ} (hwindow : 0 ≤ tsWindow)
    (pricePoints latencyReservoir tapeSize : ℕ) {calls : List (RecordCall F)}
    (horder : calls.Pairwise (fun a b => a.now ≤ b.now)) :
    let m := (init startTime tsWindow pricePoints latencyReservoir tapeSize).recordAll calls
    m.tsWindow = tsWindow ∧ Bucketed m calls := by
  induction calls using List.reverseRecOn with
  | nil =>
      refine ⟨rfl, ?_, ?_, ?_, by simp⟩
      · exact tallies_empty _ _ _
      · exact tallies_empty _ _ _
      · exact tallies_empty _ _ _
  | append_singleton calls call ih =>
      obtain ⟨hcalls, _, hlast⟩ := List.pairwise_append.mp horder
      obtain ⟨hspan, hheld⟩ := ih hcalls
      rw [recordAll, List.foldl_append]
      refine ⟨(record_buckets _ call).1.trans hspan, ?_⟩
      exact hheld.record (hspan.symm ▸ hwindow) call fun c hc => hlast c hc call (by simp)

/-- The second `s` as it should be shown. -/
def pointOf (calls : List (RecordCall F)) (s : ℤ) : SeriesPoint F where
  t := s
  trades := (inSecond RecordCall.second calls s).length
  alerts := alertCount (inSecond RecordCall.second calls s)
  notional := round (runningNotional (inSecond RecordCall.second calls s)) 2

/-- The rate over the `n` seconds before `sec` as it should be shown. -/
def rateOf (calls : List (RecordCall F)) (sec : ℤ) (n : ℕ) : Rate F :=
  let counted := between RecordCall.second calls (sec - n) sec
  { tradesPerSec := round (ofRat ((counted.length : ℚ) / n)) 2
    alertsPerSec := round (ofRat ((alertCount counted : ℚ) / n)) 2 }

section Queries

variable {m : MetricsCollector F} {calls : List (RecordCall F)} (h : Bucketed m calls) {now : ℚ}
  (hnow : ∀ c ∈ calls, c.now ≤ now)
include h hnow

/-- What a query reads of a second that the window reaches back to. -/
theorem Bucketed.read {s : ℤ} (hs : pyInt now - m.tsWindow ≤ s) :
    (m.tsTrades.get? s).getD 0 = (inSecond RecordCall.second calls s).length ∧
      (m.tsAlerts.get? s).getD 0 = alertCount (inSecond RecordCall.second calls s) ∧
      (m.tsNotional.get? s).getD (ofRat 0) =
        runningNotional (inSecond RecordCall.second calls s) := by
  have hyoung : ∀ c ∈ calls, c.second - m.tsWindow ≤ s := by
    intro c hc
    have hle : c.second ≤ pyInt now := pyInt_mono (hnow c hc)
    omega
  exact ⟨h.trades.exact s hyoung, h.alerts.exact s hyoung, h.notional.exact s hyoung⟩

theorem Bucketed.timeseries_eq {window : ℕ} (hpos : 1 ≤ window) (hwindow : window ≤ m.tsWindow) :
    m.timeseries now (some window) =
      (List.range window).map fun (i : ℕ) => pointOf calls (pyInt now - window + 1 + i) := by
  unfold timeseries
  dsimp only
  rw [Option.getD_some, if_neg (by omega), Int.toNat_natCast]
  apply List.map_congr_left
  intro i _
  obtain ⟨htrades, halerts, hnotional⟩ :=
    h.read hnow (s := pyInt now - window + 1 + i) (by omega)
  rw [htrades, halerts, hnotional]
  rfl

theorem Bucketed.rate_eq {seconds : ℕ} (hpos : 1 ≤ seconds) (hwindow : seconds ≤ m.tsWindow) :
    m.rate now seconds = .ok (rateOf calls (pyInt now) seconds) := by
  have hread : ∀ i ∈ List.range seconds,
      pyInt now - m.tsWindow ≤ pyInt now - seconds + (i : ℕ) := by
    intro i _
    omega
  have hsplit : ∀ weight : RecordCall F → ℕ, ((List.range seconds).map fun (i : ℕ) =>
      ((inSecond RecordCall.second calls (pyInt now - seconds + i)).map weight).sum).sum =
        ((between RecordCall.second calls (pyInt now - seconds) (pyInt now)).map weight).sum := by
    intro weight
    rw [sum_inSecond, sub_add_cancel]
  have htrades : ((List.range seconds).map fun (i : ℕ) =>
      (m.tsTrades.get? (pyInt now - seconds + i)).getD 0).sum =
        (between RecordCall.second calls (pyInt now - seconds) (pyInt now)).length := by
    have hones := hsplit fun _ => 1
    simp only [List.map_const', List.sum_replicate, smul_eq_mul, mul_one] at hones
    rw [← hones]
    congr 1
    exact List.map_congr_left fun i hi => (h.read hnow (hread i hi)).1
  have halerts : ((List.range seconds).map fun (i : ℕ) =>
      (m.tsAlerts.get? (pyInt now - seconds + i)).getD 0).sum =
        alertCount (between RecordCall.second calls (pyInt now - seconds) (pyInt now)) := by
    rw [alertCount, List.length_flatMap, ← hsplit fun call => call.alerts.length]
    congr 1
    refine List.map_congr_left fun i hi => ?_
    rw [(h.read hnow (hread i hi)).2.1, alertCount, List.length_flatMap]
  have hsome : (seconds : ℤ) ≠ 0 := by omega
  unfold rate
  simp only [List.map_map, Function.comp_def, htrades, halerts, intDiv_eq_ok hsome, bind,
    Except.bind, pure, Except.pure, Int.cast_natCast]
  rfl

end Queries

/-- The series are exact for any run of calls in the order of the clock and any later
query that stays within the window, and no more than a window of seconds is ever
held. -/
theorem series_exact (startTime : ℚ) (tsWindow pricePoints latencyReservoir tapeSize : ℕ)
    (calls : List (RecordCall F)) (horder : calls.Pairwise (fun a b => a.now ≤ b.now)) :
    let m := (init startTime tsWindow pricePoints latencyReservoir tapeSize).recordAll calls
    (∀ now, (∀ c ∈ calls, c.now ≤ now) →
        (∀ window : ℕ, 1 ≤ window → window ≤ tsWindow → m.timeseries now (some window) =
          (List.range window).map fun (i : ℕ) => pointOf calls (pyInt now - window + 1 + i)) ∧
        ∀ seconds : ℕ, 1 ≤ seconds → seconds ≤ tsWindow →
          m.rate now seconds = .ok (rateOf calls (pyInt now) seconds)) ∧
      m.tsTrades.keys.length ≤ tsWindow + 1 ∧ m.tsAlerts.keys.length ≤ tsWindow + 1 ∧
      m.tsNotional.keys.length ≤ tsWindow + 1 := by
  intro m
  obtain ⟨hspan, hheld⟩ : m.tsWindow = tsWindow ∧ Bucketed m calls :=
    bucketed_recordAll startTime (Int.natCast_nonneg tsWindow) pricePoints latencyReservoir tapeSize
      horder
  refine ⟨?_, ?_⟩
  · intro now hnow
    refine ⟨?_, ?_⟩
    · intro window hpos hwindow
      exact hheld.timeseries_eq hnow hpos (by omega)
    · intro seconds hpos hseconds
      exact hheld.rate_eq hnow hpos (by omega)
  · have hfew : ∀ {ν : Type} {value : List (RecordCall F) → ν} {d : OrderedDict ℤ ν},
        Tallies RecordCall.second m.tsWindow value d calls → d.keys.length ≤ tsWindow + 1 := by
      intro ν value d htallies
      cases hlast : calls.getLast? with
      | none =>
          -- nothing was recorded, so nothing is held
          rw [List.getLast?_eq_none_iff] at hlast
          have hnone : d.keys = [] := by
            rw [List.eq_nil_iff_forall_not_mem]
            intro k hk
            obtain ⟨c, hc, _⟩ := htallies.recorded k hk
            simp [hlast] at hc
          simp [hnone]
      | some last =>
          obtain ⟨earlier, hearlier⟩ := List.getLast?_eq_some_iff.mp hlast
          have hlater : ∀ c ∈ calls, c.second ≤ last.second := by
            intro c hc
            rw [hearlier] at hc horder
            rcases List.mem_append.mp hc with hold | hself
            · exact pyInt_mono ((List.pairwise_append.mp horder).2.2 c hold last (by simp))
            · rw [List.mem_singleton.mp hself]
          have hlength := htallies.length_keys_le _ (List.mem_of_getLast? hlast) hlater (by omega)
          omega
    exact ⟨hfew hheld.trades, hfew hheld.alerts, hfew hheld.notional⟩

/-- A trade in the first half of a second and one with an alert in the next second. -/
def twoCalls : List (RecordCall ℚ) :=
  [⟨selfTradeAt "a" 0, [], 1, 1 / 2⟩, ⟨selfTradeAt "b" 1, [selfTradeAlert], 1, 3 / 2⟩]

theorem series_exact_two_calls :
    (((init 0 10).recordAll twoCalls).timeseries 2 (some 2)).map
        (fun point => (point.t, point.trades, point.alerts)) =
      [(1, 1, 1), (2, 0, 0)] := by
  have horder : twoCalls.Pairwise (fun a b => a.now ≤ b.now) := by decide +kernel
  have hlater : ∀ c ∈ twoCalls, c.now ≤ 2 := by decide +kernel
  obtain ⟨hqueries, _⟩ := series_exact 0 10 120 4000 80 twoCalls horder
  have hseries := (hqueries 2 hlater).1 2 (by decide) (by decide)
  simp only [Nat.cast_ofNat] at hseries
  rw [hseries]
  decide +kernel

end MetricsCollector

end TradeWatch
