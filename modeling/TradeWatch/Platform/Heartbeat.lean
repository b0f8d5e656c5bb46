import TradeWatch.Lib.Transducer
import TradeWatch.Platform.BatchRunner
import TradeWatch.Platform.Health

/-!
The batch runner and the platform page share one file. The runner empties it and
writes a heartbeat into it piece by piece, it may fail or be killed at any point,
and the page reads the file whenever it is asked to. What the page then reports
is the last heartbeat if all of it is there, and nothing otherwise.
-/

namespace TradeWatch.Platform

open PyFloat BatchRunner

structure Machine where
  /-- How many cycles the runner has begun since it was started. -/
  cycle : ℕ
  /-- What `batch_status.json` holds, `none` as long as there is no file. -/
  file : Option (List Char)
  /-- What the runner has still to bring into the file. -/
  rest : List Char
  deriving DecidableEq, Repr

inductive Event
  /-- The runner takes the next cycle. `opens` says whether it can open the file. -/
  | cycle (s : Surroundings) (opens : Bool)
  /-- At most `n` more characters reach the file. -/
  | write (n : ℕ)
  /-- The write fails. The runner goes on with its next cycle. -/
  | abort
  /-- The runner is killed and started again. -/
  | restart
  /-- Somebody asks for the platform page. -/
  | read (now : ℚ)

inductive Outcome
  | failed
  | opened (hb : Heartbeat)
  | wrote (n : ℕ)
  | stopped
  | reported (status : OrderedDict String Json)
  /-- The runner is busy with its file. -/
  | busy

namespace Machine

def init : Machine := ⟨0, none, []⟩

variable (py : PyText ℚ) (env : Reducer.Thresholds ℚ) (trades : ℤ)

/-- A cycle up to the opened file. The text is made before the file is emptied, and
the loop of the runner outlives whatever a cycle raises. -/
def runCycle (m : Machine) (s : Surroundings) (opens : Bool) : Outcome × Machine :=
  let m := { m with cycle := m.cycle + 1 }
  match BatchRunner.runCycle py env s m.cycle trades with
  | .error _ => (.failed, m)
  | .ok hb =>
      match hb.dumps with
      | .error _ => (.failed, m)
      | .ok text =>
          if opens then (.opened hb, { m with file := some [], rest := text }) else (.failed, m)

def step (m : Machine) : Event → Outcome × Machine
  | .cycle s opens => if m.rest.isEmpty then runCycle py env trades m s opens else (.busy, m)
  | .write n =>
      let written := m.rest.take n
      (.wrote written.length,
        { m with file := m.file.map (· ++ written), rest := m.rest.drop n })
  | .abort => (.stopped, { m with rest := [] })
  | .restart => (.stopped, { m with cycle := 0, rest := [] })
  | .read now => (.reported (batchStatus py pyInt m.file now), m)

end Machine

/-- The heartbeat that the file was last opened for, and how many characters of it
have been written since. -/
def observe : Option (Heartbeat × ℕ) → Outcome → Option (Heartbeat × ℕ)
  | _, .opened hb => some (hb, 0)
  | some (hb, n), .wrote k => some (hb, n + k)
  | last, _ => last

def lastWritten (log : List (Event × Outcome)) : Option (Heartbeat × ℕ) :=
  (log.map Prod.snd).foldl observe none

/-- A heartbeat as the page shows it. -/
def shown (py : PyText ℚ) (hb : Heartbeat) (now : ℚ) : OrderedDict String Json :=
  if py.tooLarge hb.epoch then noHeartbeat
  else
    ((toDict hb.decoded).set "status" (.str (if now < hb.epoch + 900 then "up" else "stale"))).set
      "age_seconds" (.int (pyInt (now - hb.epoch)))

/-- What the page reports: a heartbeat that has been written to its end. -/
def reportOf (py : PyText ℚ) (last : Option (Heartbeat × ℕ)) (now : ℚ) : OrderedDict String Json :=
  match last with
  | none => noHeartbeat
  | some (hb, n) => if n < hb.text.length then noHeartbeat else shown py hb now

theorem lastWritten_snoc (log : List (Event × Outcome)) (entry : Event × Outcome) :
    lastWritten (log ++ [entry]) = observe (lastWritten log) entry.2 := by
  simp [lastWritten]

/-- How the file goes back to the log. -/
structure Backed (log : List (Event × Outcome)) (m : Machine) : Prop where
  none : lastWritten log = none → m.file = none ∧ m.rest = []
  some : ∀ hb n, lastWritten log = some (hb, n) →
    hb.writable ∧ n ≤ hb.text.length ∧ m.file = some (hb.text.take n) ∧
      (m.rest = [] ∨ m.rest = hb.text.drop n)

section Report

variable (py : PyText ℚ)

theorem batchStatus_none (now : ℚ) : batchStatus py pyInt none now = noHeartbeat := rfl

theorem get?_epoch_decoded (hb : Heartbeat) :
    (toDict hb.decoded).get? "epoch" = some (.int hb.epoch) := rfl

theorem batchStatus_text {hb : Heartbeat} (h : hb.writable) (now : ℚ) :
    batchStatus py pyInt (some hb.text) now = shown py hb now := by
  unfold batchStatus
  rw [Option.bind_some, Heartbeat.loads_text h py.nesting, Except.toOption]
  dsimp only
  rw [get?_epoch_decoded, Option.getD_some, PyText.float, shown]
  by_cases htoo : py.tooLarge hb.epoch = true
  · rw [if_pos htoo, if_pos htoo]
  · rw [if_neg htoo, if_neg htoo]
    have hage : (lt (sub now (ofRat (hb.epoch : ℚ))) (ofRat 900) = true) ↔
        now < hb.epoch + 900 := by
      change decide (now - (hb.epoch : ℚ) < 900) = true ↔ _
      rw [decide_eq_true_iff, sub_lt_iff_lt_add']
    simp only [hage]
    rfl

/-- The page and any stage of a write. -/
theorem batchStatus_take {hb : Heartbeat} (h : hb.writable) (n : ℕ) (now : ℚ) :
    batchStatus py pyInt (some (hb.text.take n)) now = reportOf py (some (hb, n)) now := by
  rw [reportOf]
  by_cases hshort : n < hb.text.length
  · have hne : hb.text.take n ≠ hb.text := by
      intro heq
      have hlength := congrArg List.length heq
      rw [List.length_take] at hlength
      omega
    have htorn := Heartbeat.loads_torn h (List.take_prefix n hb.text) hne py.nesting
    rw [if_pos hshort, batchStatus, Option.bind_some, htorn]
  · rw [if_neg hshort, List.take_of_length_le (Nat.le_of_not_lt hshort), batchStatus_text py h]

end Report

section Run

variable (py : PyText ℚ) (env : Reducer.Thresholds ℚ) (trades : ℤ)

/-- A cycle fails and leaves the file alone, or it opens the file for a heartbeat
that can be written. -/
theorem runCycle_cases (m : Machine) (s : Surroundings) (opens : Bool) :
    ((m.runCycle py env trades s opens).1 = .failed ∧
      (m.runCycle py env trades s opens).2 = { m with cycle := m.cycle + 1 }) ∨
    ∃ hb : Heartbeat, hb.writable ∧ (m.runCycle py env trades s opens).1 = .opened hb ∧
      (m.runCycle py env trades s opens).2 = ⟨m.cycle + 1, some [], hb.text⟩ := by
  unfold Machine.runCycle
  dsimp only
  rcases BatchRunner.runCycle py env s (m.cycle + 1) trades with err | hb
  · exact Or.inl ⟨rfl, rfl⟩
  · dsimp only
    by_cases hwritable : hb.writable = true
    · rw [Heartbeat.dumps, if_pos hwritable]
      dsimp only
      cases opens with
      | false => exact Or.inl ⟨rfl, rfl⟩
      | true => exact Or.inr ⟨hb, hwritable, rfl, rfl⟩
    · rw [Heartbeat.dumps, if_neg hwritable]
      exact Or.inl ⟨rfl, rfl⟩

/-- A write takes what is left of the heartbeat one piece further. -/
theorem backed_write {log : List (Event × Outcome)} {m : Machine} (h : Backed log m) (n : ℕ) :
    Backed (log ++ [(.write n, (m.step py env trades (.write n)).1)])
      (m.step py env trades (.write n)).2 := by
  constructor
  · intro hlast
    rw [lastWritten_snoc] at hlast
    cases hbefore : lastWritten log with
    | none =>
        obtain ⟨hfile, hrest⟩ := h.none hbefore
        simp [Machine.step, hfile, hrest]
    | some entry =>
        rw [hbefore] at hlast
        cases hlast
  · intro hb k hlast
    rw [lastWritten_snoc] at hlast
    cases hbefore : lastWritten log with
    | none =>
        rw [hbefore] at hlast
        cases hlast
    | some entry =>
        obtain ⟨written, done⟩ := entry
        obtain ⟨hwritable, hdone, hfile, hrest⟩ := h.some written done hbefore
        rw [hbefore] at hlast
        cases hlast
        refine ⟨hwritable, ?_⟩
        rcases hrest with hrest | hrest
        · refine ⟨?_, ?_, Or.inl ?_⟩ <;> simp [Machine.step, hrest, hfile, hdone]
        · -- the piece continues the text where it stood
          have hpiece : hb.text.take done ++ (hb.text.drop done).take n =
              hb.text.take (done + n) := (List.take_add).symm
          have hmin : hb.text.take (done + min n (hb.text.length - done)) =
              hb.text.take (done + n) := by
            rcases le_total n (hb.text.length - done) with hle | hle
            · rw [min_eq_left hle]
            · rw [min_eq_right hle, List.take_of_length_le (by omega),
                List.take_of_length_le (by omega)]
          have hdrop : hb.text.drop (done + n) =
              hb.text.drop (done + min n (hb.text.length - done)) := by
            rcases le_total n (hb.text.length - done) with hle | hle
            · rw [min_eq_left hle]
            · rw [min_eq_right hle, List.drop_eq_nil_of_le (by omega),
                List.drop_eq_nil_of_le (by omega)]
          simp only [Machine.step, hrest, hfile, Option.map_some, List.length_take,
            List.length_drop, hpiece, List.drop_drop]
          exact ⟨by omega, by rw [hmin], Or.inr hdrop⟩

theorem backed_step {log : List (Event × Outcome)} {m : Machine} (event : Event)
    (h : Backed log m) :
    Backed (log ++ [(event, (m.step py env trades event).1)]) (m.step py env trades event).2 := by
  have hquiet : ∀ outcome : Outcome, observe (lastWritten log) outcome = lastWritten log →
      ∀ m' : Machine, m'.file = m.file → m'.rest = [] ∨ m'.rest = m.rest →
        Backed (log ++ [(event, outcome)]) m' := by
    intro outcome hobserve m' hfile hrest
    constructor
    · intro hlast
      rw [lastWritten_snoc, hobserve] at hlast
      obtain ⟨hnofile, hnorest⟩ := h.none hlast
      refine ⟨hfile.trans hnofile, ?_⟩
      rcases hrest with hrest | hrest
      · exact hrest
      · exact hrest.trans hnorest
    · intro hb n hlast
      rw [lastWritten_snoc, hobserve] at hlast
      obtain ⟨hwritable, hn, hsome, hleft⟩ := h.some hb n hlast
      refine ⟨hwritable, hn, hfile.trans hsome, ?_⟩
      rcases hrest with hrest | hrest
      · exact Or.inl hrest
      · rw [hrest]
        exact hleft
  have hpass : ∀ last : Option (Heartbeat × ℕ), observe last .failed = last ∧
      observe last .stopped = last ∧ observe last .busy = last ∧
      ∀ status, observe last (.reported status) = last := by
    rintro (_ | ⟨hb, n⟩) <;> exact ⟨rfl, rfl, rfl, fun _ => rfl⟩
  cases event with
  | cycle s opens =>
      by_cases hidle : m.rest.isEmpty = true
      · rw [Machine.step, if_pos hidle]
        rcases runCycle_cases py env trades m s opens with ⟨hout, hm⟩ | ⟨hb, hwritable, hout, hm⟩
        · rw [hout, hm]
          exact hquiet _ (hpass _).1 _ rfl (Or.inr rfl)
        · rw [hout, hm]
          have hopened : lastWritten (log ++ [(.cycle s opens, .opened hb)]) = some (hb, 0) := by
            rw [lastWritten_snoc]
            cases lastWritten log <;> rfl
          constructor
          · intro hlast
            rw [hopened] at hlast
            cases hlast
          · intro hb' n hlast
            rw [hopened] at hlast
            cases hlast
            exact ⟨hwritable, Nat.zero_le _, rfl, Or.inr rfl⟩
      · rw [Machine.step, if_neg hidle]
        exact hquiet _ (hpass _).2.2.1 _ rfl (Or.inr rfl)
  | write n => exact backed_write py env trades h n
  | abort => exact hquiet _ (hpass _).2.1 _ rfl (Or.inl rfl)
  | restart => exact hquiet _ (hpass _).2.1 _ rfl (Or.inl rfl)
  | read now => exact hquiet _ ((hpass _).2.2.2 _) _ rfl (Or.inr rfl)

/-- Whatever the runner and its surroundings did before, and wherever a write was
interrupted: the page reports the heartbeat that the file was last opened for when
all of it has been written, and otherwise that there is none. It never shows a
part of a heartbeat, nor one that has since been overwritten in part. -/
theorem page_reports_last_written (before : List Event) (now : ℚ) :
    (Machine.step py env trades
        (Transducer.final (Machine.step py env trades) .init before) (.read now)).1 =
      .reported (reportOf py
        (lastWritten (Transducer.trace (Machine.step py env trades) .init before)) now) := by
  have hbacked : Backed (Transducer.trace (Machine.step py env trades) .init before)
      (Transducer.final (Machine.step py env trades) .init before) := by
    apply Transducer.history (Machine.step py env trades) (P := Backed)
    · exact ⟨fun _ => ⟨rfl, rfl⟩, fun hb n hlast => by cases hlast⟩
    · intro log m event h
      exact backed_step py env trades event h
  rw [Machine.step]
  cases hlast : lastWritten (Transducer.trace (Machine.step py env trades) .init before) with
  | none => rw [(hbacked.none hlast).1, batchStatus_none, reportOf]
  | some entry =>
      obtain ⟨hb, n⟩ := entry
      obtain ⟨hwritable, _, hfile, _⟩ := hbacked.some hb n hlast
      rw [hfile, batchStatus_take py hwritable]

end Run

end TradeWatch.Platform
