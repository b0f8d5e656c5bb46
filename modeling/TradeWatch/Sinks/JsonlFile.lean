import TradeWatch.Lib.JsonTorn
import TradeWatch.Lib.Split
import TradeWatch.Models

/-!
The JSONL file of alerts. Every alert is appended as one line; a write may be
refused, or stop anywhere in the line, after which the program goes on or is
started again and appends behind whatever is there.
-/

namespace TradeWatch.Sinks

open PyFloat Json

variable {F : Type} [PyFloat F]

/-- The fields of an alert that are drawn when it is built. -/
structure Stamp where
  alertId : String
  timestamp : String
  deriving DecidableEq, Repr

/-- What a line is made of. -/
structure Entry (F : Type) [PyFloat F] where
  stamp : Stamp
  alert : Alert F

def detailValue : Detail F → Value F
  | .float x => .float x
  | .seconds q => .float (ofRat q)
  | .int n => .int n
  | .text s => .str s
  | .floats xs => .list (xs.map .float)

/-- The fields of the model, in their order. -/
def Entry.fields (entry : Entry F) : List (String × Value F) :=
  [("alert_id", .str entry.stamp.alertId), ("timestamp", .str entry.stamp.timestamp),
    ("trade_id", .str entry.alert.tradeId), ("symbol", .str entry.alert.symbol),
    ("detector", .str entry.alert.detector), ("severity", .str entry.alert.severity.value),
    ("score", .float entry.alert.score.value), ("reason", .str entry.alert.reason),
    ("details", .dict (entry.alert.details.map fun detail => (detail.1, detailValue detail.2)))]

section File

variable (numbers : NumberText F)

/-- `alert.model_dump_json()`. -/
def Entry.modelDumpJson (entry : Entry F) : List Char :=
  Value.text .compact numbers (.dict entry.fields)

/-- What the line decodes to. -/
def Entry.decoded (entry : Entry F) : Json := Value.toJson numbers (.dict entry.fields)

/-- Every number in the alert has a text. -/
def Entry.Prints (entry : Entry F) : Prop := Value.Prints numbers (.dict entry.fields)

/-- How far a write gets. -/
inductive Write
  | whole
  /-- At most `n` characters of the line reach the file, and not its end. -/
  | torn (n : ℕ)
  deriving DecidableEq, Repr

/-- What `emit` appends. -/
def appended (entry : Entry F) : Write → List Char
  | .whole => entry.modelDumpJson numbers ++ ['\n']
  | .torn n => (entry.modelDumpJson numbers).take n

/-- The file after some writes. -/
def contents (history : List (Entry F × Write)) : List Char :=
  history.flatMap (fun write => appended numbers write.1 write.2)

/-- What somebody finds who reads the file line by line and passes over what is not
JSON. -/
def readable (chars : List Char) : List Json :=
  (Split.pieces '\n' chars).filterMap (fun line => parse (.ofList line))

/-- The line at the end of the file, which no newline has ended yet. -/
inductive Tail (F : Type) [PyFloat F]
  | fresh
  | whole (entry : Entry F)
  | lost

/-- The tail after a write that does not end its line. -/
def Tail.torn (tail : Tail F) (entry : Entry F) (n : ℕ) : Tail F :=
  if n = 0 then tail
  else
    match tail with
    | .fresh => if n < (entry.modelDumpJson numbers).length then .lost else .whole entry
    | .whole _ => .lost
    | .lost => .lost

/-- The alerts that can be read back. A write that stops in its line costs this
alert, and the alert that is written behind it on the same line. -/
def survivors : Tail F → List (Entry F × Write) → List (Entry F)
  | .whole entry, [] => [entry]
  | _, [] => []
  | .fresh, (entry, .whole) :: rest => entry :: survivors .fresh rest
  | .whole _, (_, .whole) :: rest => survivors .fresh rest
  | .lost, (_, .whole) :: rest => survivors .fresh rest
  | tail, (entry, .torn n) :: rest => survivors (tail.torn numbers entry n) rest

/-- What the open line holds. -/
def Tail.Holds (tail : Tail F) (line : List Char) : Prop :=
  match tail with
  | .fresh => line = []
  | .whole entry => line = entry.modelDumpJson numbers ∧ entry.Prints numbers
  | .lost => Lost line ∧ '\n' ∉ line

variable {numbers}

theorem keyed_alertId : Keyed .compact "alert_id" where
  ne_nil := by decide
  goes := Lexer.endsWord_of_all (by decide)
  noWord := by decide

theorem newline_notMem_modelDumpJson {entry : Entry F} (h : entry.Prints numbers) :
    '\n' ∉ entry.modelDumpJson numbers := Value.newline_notMem_text _ h

theorem modelDumpJson_ne_nil (numbers : NumberText F) (entry : Entry F) :
    entry.modelDumpJson numbers ≠ [] := by
  obtain ⟨inner, htext⟩ := Value.text_dict_eq .compact numbers entry.fields
  rw [Entry.modelDumpJson, htext]
  exact List.cons_ne_nil _ _

/-- A line that is lost stays lost behind a further write. -/
theorem lost_append {entry : Entry F} (h : entry.Prints numbers) {line piece : List Char}
    (hline : Lost line) (hpiece : piece <+: entry.modelDumpJson numbers) : Lost (line ++ piece) :=
  Lost.append keyed_alertId h hline hpiece

theorem readable_singleton {line : List Char} (hnewline : '\n' ∉ line) (hne : line ≠ []) :
    readable line = (parse (.ofList line)).toList := by
  rw [readable, Split.pieces_singleton hnewline hne]
  rcases hparse : parse (.ofList line) with _ | value <;> simp [hparse]

theorem readable_line {line : List Char} (hnewline : '\n' ∉ line) (hne : line ≠ [])
    (rest : List Char) :
    readable (line ++ '\n' :: rest) = (parse (.ofList line)).toList ++ readable rest := by
  rw [← readable_singleton hnewline hne, readable, readable, readable, Split.pieces_append,
    List.filterMap_append]

theorem holds_torn {tail : Tail F} {line : List Char} (h : tail.Holds numbers line)
    {entry : Entry F} (hentry : entry.Prints numbers) (n : ℕ) :
    (tail.torn numbers entry n).Holds numbers (line ++ (entry.modelDumpJson numbers).take n) := by
  have hpiece : (entry.modelDumpJson numbers).take n <+: entry.modelDumpJson numbers :=
    List.take_prefix _ _
  have hnewline : '\n' ∉ (entry.modelDumpJson numbers).take n :=
    fun hmem => newline_notMem_modelDumpJson hentry (List.mem_of_mem_take hmem)
  rw [Tail.torn.eq_def]
  by_cases hzero : n = 0
  · subst hzero
    simpa using h
  · rw [if_neg hzero]
    have hne : (entry.modelDumpJson numbers).take n ≠ [] := by
      rw [ne_eq, List.take_eq_nil_iff, not_or]
      exact ⟨hzero, modelDumpJson_ne_nil numbers entry⟩
    cases tail with
    | fresh =>
        obtain rfl : line = [] := h
        rw [List.nil_append]
        by_cases hshort : n < (entry.modelDumpJson numbers).length
        · simp only [if_pos hshort]
          refine ⟨lost_of_torn hentry hpiece hne ?_, hnewline⟩
          intro heq
          have hlength := congrArg List.length heq
          rw [List.length_take] at hlength
          have hsame : (Value.text Layout.compact numbers (.dict entry.fields)).length =
              (entry.modelDumpJson numbers).length := rfl
          omega
        · simp only [if_neg hshort]
          exact ⟨List.take_of_length_le (Nat.le_of_not_lt hshort), hentry⟩
    | whole before =>
        obtain ⟨rfl, hbefore⟩ := h
        refine ⟨lost_of_whole hbefore hpiece hne, ?_⟩
        rw [List.mem_append, not_or]
        exact ⟨newline_notMem_modelDumpJson hbefore, hnewline⟩
    | lost =>
        obtain ⟨hlost, hline⟩ := h
        refine ⟨lost_append hentry hlost hpiece, ?_⟩
        rw [List.mem_append, not_or]
        exact ⟨hline, hnewline⟩

/-- The file from an open line on. -/
theorem readable_from {history : List (Entry F × Write)}
    (hprints : ∀ write ∈ history, write.1.Prints numbers) {tail : Tail F} {line : List Char}
    (h : tail.Holds numbers line) :
    readable (line ++ contents numbers history) =
      (survivors numbers tail history).map (Entry.decoded numbers) := by
  induction history generalizing tail line with
  | nil =>
      rw [contents, List.flatMap_nil, List.append_nil]
      cases tail with
      | fresh =>
          obtain rfl : line = [] := h
          rfl
      | whole entry =>
          obtain ⟨rfl, hentry⟩ := h
          rw [readable_singleton (newline_notMem_modelDumpJson hentry)
              (modelDumpJson_ne_nil numbers entry),
            Entry.modelDumpJson, Value.parse_text hentry]
          rfl
      | lost =>
          obtain ⟨hlost, hline⟩ := h
          by_cases hne : line = []
          · subst hne
            rfl
          · rw [readable_singleton hline hne, hlost.parse]
            rfl
  | cons write rest ih =>
      obtain ⟨entry, write⟩ := write
      obtain ⟨hentry, hrest⟩ := List.forall_mem_cons.mp hprints
      rw [contents, List.flatMap_cons]
      change readable (line ++ (appended numbers entry write ++ contents numbers rest)) = _
      cases write with
      | torn n =>
          rw [appended, ← List.append_assoc, ih hrest (holds_torn h hentry n)]
          cases tail <;> rw [survivors]
      | whole =>
          have hnewline := newline_notMem_modelDumpJson hentry
          have hne := modelDumpJson_ne_nil numbers entry
          have hfresh : Tail.Holds numbers (.fresh : Tail F) [] := rfl
          have hnext := ih hrest hfresh
          rw [List.nil_append] at hnext
          rw [appended, List.append_assoc, List.singleton_append, ← List.append_assoc]
          cases tail with
          | fresh =>
              obtain rfl : line = [] := h
              rw [List.nil_append, readable_line hnewline hne, hnext, Entry.modelDumpJson,
                Value.parse_text hentry, survivors]
              rfl
          | whole before =>
              obtain ⟨rfl, hbefore⟩ := h
              have hlost :=
                lost_of_whole hbefore (List.prefix_refl (entry.modelDumpJson numbers)) hne
              rw [readable_line (by simp [hnewline, newline_notMem_modelDumpJson hbefore])
                (by simp [hne]), hnext, survivors]
              rw [Entry.modelDumpJson, hlost.parse]
              rfl
          | lost =>
              obtain ⟨hlost, hline⟩ := h
              have hstill := lost_append hentry hlost (List.prefix_refl _)
              rw [readable_line (by simp [hnewline, hline]) (by simp [hne]), hstill.parse, hnext,
                survivors]
              rfl

end File

section Example

/-- The text of a whole number. -/
def wholeNumbers : NumberText ℚ where
  repr x := (toString x.num ++ ".0").toList
  literal := .finite

def selfTradeEntry (alertId : String) : Entry ℚ :=
  ⟨⟨alertId, "2025-01-01T00:00:00Z"⟩, selfTradeAlert⟩

theorem prints_selfTradeEntry (alertId : String) :
    (selfTradeEntry alertId).Prints wholeNumbers := by
  have hscore : selfTradeAlert.score.value = 1 := by decide +kernel
  have htext : wholeNumbers.repr selfTradeAlert.score.value = ['1', '.', '0'] := by
    rw [hscore]
    decide +kernel
  refine ⟨trivial, trivial, trivial, trivial, trivial, trivial, ⟨?_, ?_⟩, trivial, trivial, trivial⟩
  · change word? (wholeNumbers.repr selfTradeAlert.score.value) =
      some (.float (.finite selfTradeAlert.score.value))
    rw [htext, hscore]
    simp [word?, number?, spanDigits, fraction?, exponent?, digitsValue, List.span, List.span.loop]
  · change ∀ c ∈ wholeNumbers.repr selfTradeAlert.score.value, Lexer.endsWord c = false
    rw [htext]
    exact Lexer.endsWord_of_all (by decide)

end Example

end TradeWatch.Sinks
