import TradeWatch.Hadoop.Mapper
import TradeWatch.Hadoop.Reducer
import TradeWatch.Lib.Split

/-!
From the mapper's output to the reducer's rows. The two programs only share a
text format that escapes nothing, so a record survives exactly when its symbol
holds none of the two separators.
-/

namespace TradeWatch

open PyFloat Split

variable {F : Type} [PyFloat F] (py : PyText F)

/-- The symbol of a record can be written and holds no separator. -/
def Mapper.Clean (record : Mapper.Record F) : Prop :=
  ∃ symbol, record.1 = some symbol ∧ '\t' ∉ symbol.toList ∧ '\n' ∉ symbol.toList

/-- The text of a record without its final line feed. -/
def Mapper.recordLine (symbol : String) (price quantity : F) : List Char :=
  symbol.toList ++ '\t' :: (format price .plain).toList ++ '\t' :: (format quantity .plain).toList

theorem Mapper.recordText_eq (symbol : String) (price quantity : F) :
    recordText symbol price quantity = recordLine symbol price quantity ++ ['\n'] := rfl

/-- A row names its symbol by a piece between two separators. -/
theorem Reducer.rows_clean {text : List Char} {row : String × F × F}
    (h : row ∈ Reducer.rows py text) : '\t' ∉ row.1.toList ∧ '\n' ∉ row.1.toList := by
  obtain ⟨line, hline, hparse⟩ := List.mem_filterMap.mp h
  obtain ⟨price, qty, hsplit, _, _⟩ := parseLine_eq_some py hparse
  have hsymbol : row.1.toList ∈ line.splitOn '\t' := hsplit ▸ List.mem_cons_self
  refine ⟨separator_notMem hsymbol, fun hnewline => ?_⟩
  exact separator_notMem hline (mem_piece hsymbol _ hnewline).2

/-- The line of a clean record is read back. -/
theorem Reducer.parseLine_recordLine {symbol : String} {price quantity : F}
    (htab : '\t' ∉ symbol.toList) (hprice : py.ReadsBack price)
    (hquantity : py.ReadsBack quantity) :
    parseLine py (Mapper.recordLine symbol price quantity) = some (symbol, price, quantity) := by
  have hsplit : (Mapper.recordLine symbol price quantity).splitOn '\t' =
      [symbol.toList, (format price .plain).toList, (format quantity .plain).toList] := by
    unfold Mapper.recordLine
    rw [List.append_assoc, List.cons_append, List.splitOn_append_cons_self_of_not_mem htab,
      List.splitOn_append_cons_self_of_not_mem hprice.no_tab,
      List.splitOn_eq_singleton hquantity.no_tab]
  have hnonempty : (Mapper.recordLine symbol price quantity).isEmpty = false := by
    simp [Mapper.recordLine]
  simp [parseLine, hnonempty, hsplit, hprice.parse_format, hquantity.parse_format]

/-- Blank lines hold no row. -/
theorem Reducer.rows_eq (text : List Char) :
    rows py text = (pieces '\n' text).filterMap (parseLine py) := by
  unfold rows pieces
  rw [List.filterMap_filter]
  apply List.filterMap_congr
  intro line _
  cases line with
  | nil => rfl
  | cons c rest => rfl

/-- The row of a record, with its symbol as the mapper has it. -/
def Reducer.asRecord (row : String × F × F) : Mapper.Record F := (some row.1, row.2)

/-- One line of the mapper's input: it is passed over, its trade is accepted and
written, or the task ends there. -/
theorem Mapper.line_cases (line : List Char) (rest : List (List Char)) :
    (main py (line :: rest) = main py rest ∧ accepted py (line :: rest) = accepted py rest) ∨
      (∃ symbol price quantity,
        main py (line :: rest) = recordText symbol price quantity ++ main py rest ∧
          accepted py (line :: rest) = (some symbol, price, quantity) :: accepted py rest) ∨
      (main py (line :: rest) = [] ∧
        (accepted py (line :: rest) = [] ∨
          ∃ price quantity, accepted py (line :: rest) = [(none, price, quantity)])) := by
  simp only [main, accepted]
  by_cases hblank : (strip line).isEmpty
  · simp [hblank]
  · rcases hread : readLine py (strip line) with err | ⟨_ | symbol, price, quantity⟩
    · cases hcaught : caught err <;> simp [hblank, hcaught]
    · right; right
      simp [hblank]
    · right; left
      exact ⟨symbol, price, quantity, by simp [hblank], by simp [hblank]⟩

/-- The reducer's rows are the accepted trades where all of these are clean. -/
theorem rows_main_of_clean {lines : List (List Char)}
    (hback : ∀ record ∈ Mapper.accepted py lines,
      py.ReadsBack record.2.1 ∧ py.ReadsBack record.2.2)
    (hclean : ∀ record ∈ Mapper.accepted py lines, Mapper.Clean record) :
    (Reducer.rows py (Mapper.main py lines)).map Reducer.asRecord = Mapper.accepted py lines := by
  induction lines with
  | nil => simp [Mapper.main, Mapper.accepted, Reducer.rows_eq]
  | cons line rest ih =>
      rcases Mapper.line_cases py line rest with ⟨hmain, haccepted⟩ |
        ⟨symbol, price, quantity, hmain, haccepted⟩ | ⟨hmain, hnone | ⟨price, quantity, hlast⟩⟩
      · rw [haccepted] at hback hclean ⊢
        rw [hmain]
        exact ih hback hclean
      · rw [haccepted] at hback hclean ⊢
        obtain ⟨⟨hprice, hquantity⟩, hback⟩ := List.forall_mem_cons.mp hback
        obtain ⟨⟨s, hs, htab, hnewline⟩, hclean⟩ := List.forall_mem_cons.mp hclean
        obtain rfl : symbol = s := Option.some.inj hs
        have hword : '\n' ∉ Mapper.recordLine symbol price quantity := by
          simp [Mapper.recordLine, hnewline, hprice.no_newline, hquantity.no_newline]
        have hrow := Reducer.parseLine_recordLine py htab hprice hquantity
        have hpieces : pieces '\n' (Mapper.main py (line :: rest)) =
            Mapper.recordLine symbol price quantity :: pieces '\n' (Mapper.main py rest) := by
          rw [hmain, Mapper.recordText_eq, List.append_assoc, List.singleton_append,
            pieces_append, pieces_singleton hword (by simp [Mapper.recordLine])]
          rfl
        rw [Reducer.rows_eq, hpieces, List.filterMap_cons, hrow, ← Reducer.rows_eq,
          List.map_cons, ih hback hclean]
        rfl
      · rw [hmain, hnone]
        simp [Reducer.rows_eq]
      · obtain ⟨symbol, hsymbol, _⟩ := hclean (none, price, quantity) (hlast ▸ List.mem_cons_self)
        cases hsymbol

/-- The rows that the reducer parses from the mapper's output are exactly the
accepted trades, in order, if and only if every accepted symbol can be written
and holds neither a tab nor a line feed. -/
theorem framing_round_trips_iff (lines : List (List Char))
    (hback : ∀ record ∈ Mapper.accepted py lines,
      py.ReadsBack record.2.1 ∧ py.ReadsBack record.2.2) :
    (Reducer.rows py (Mapper.main py lines)).map Reducer.asRecord = Mapper.accepted py lines ↔
      ∀ record ∈ Mapper.accepted py lines, Mapper.Clean record := by
  constructor
  · intro h record hrecord
    rw [← h] at hrecord
    obtain ⟨row, hrow, rfl⟩ := List.mem_map.mp hrecord
    exact ⟨row.1, rfl, Reducer.rows_clean py hrow⟩
  · exact rows_main_of_clean py hback

theorem framing_round_trips_plain :
    let lines := ["\x7b\"symbol\": \"ACME\", \"price\": 100.5, \"quantity\": 2\x7d".toList]
    (Reducer.rows .decimal (Mapper.main .decimal lines)).map Reducer.asRecord =
        Mapper.accepted .decimal lines ↔
      ∀ record ∈ Mapper.accepted .decimal lines, Mapper.Clean record := by
  have haccepted : Mapper.accepted .decimal
      ["\x7b\"symbol\": \"ACME\", \"price\": 100.5, \"quantity\": 2\x7d".toList] =
        [(some "ACME", 201 / 2, 2)] := by decide +kernel
  have hprice : PyText.decimal.ReadsBack (201 / 2 : ℚ) :=
    ⟨by decide +kernel, by decide +kernel, by decide +kernel⟩
  have hquantity : PyText.decimal.ReadsBack (2 : ℚ) :=
    ⟨by decide +kernel, by decide +kernel, by decide +kernel⟩
  refine framing_round_trips_iff .decimal _ ?_
  rw [haccepted]
  rintro record hrecord
  rw [List.mem_singleton.mp hrecord]
  exact ⟨hprice, hquantity⟩

/-- A symbol with separators in it forges a row for another symbol. -/
theorem separators_forge_rows :
    ¬ ∀ lines : List (List Char),
      (∀ record ∈ Mapper.accepted .decimal lines,
        PyText.decimal.ReadsBack record.2.1 ∧ PyText.decimal.ReadsBack record.2.2) →
      (Reducer.rows .decimal (Mapper.main .decimal lines)).map Reducer.asRecord =
        Mapper.accepted .decimal lines := by
  intro h
  have haccepted : Mapper.accepted .decimal
      ["\x7b\"symbol\": \"A\\t7\\t1\\nB\", \"price\": 100, \"quantity\": 1\x7d".toList] =
        [(some "A\t7\t1\nB", 100, 1)] := by decide +kernel
  have hprice : PyText.decimal.ReadsBack (100 : ℚ) :=
    ⟨by decide +kernel, by decide +kernel, by decide +kernel⟩
  have hquantity : PyText.decimal.ReadsBack (1 : ℚ) :=
    ⟨by decide +kernel, by decide +kernel, by decide +kernel⟩
  have hforged := h
    ["\x7b\"symbol\": \"A\\t7\\t1\\nB\", \"price\": 100, \"quantity\": 1\x7d".toList] (by
      rw [haccepted]
      rintro record hrecord
      rw [List.mem_singleton.mp hrecord]
      exact ⟨hprice, hquantity⟩)
  exact absurd hforged (by decide +kernel)

end TradeWatch
