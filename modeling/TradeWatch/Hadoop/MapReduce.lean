import TradeWatch.Hadoop.Framing
import TradeWatch.Hadoop.Groups

/-!
The whole job: mapper, shuffle, reducers. A shuffle sends each line to the
reducer its key is assigned to, in any order that keeps the records of a key
together. What the reducers write is then what the per-symbol specification
says of the mapper's records, whatever the order, the assignment and the
shuffle; the local runner's sort of whole lines is one such shuffle.
-/

namespace TradeWatch

open PyFloat Split GroupBy

namespace Mapper

variable {F : Type} [PyFloat F] (py : PyText F)

/-- What one line of input adds to the output: nothing where it is passed over,
and `none` where the task ends. -/
def lineText (line : List Char) : Option (List Char) :=
  let line := strip line
  if line.isEmpty then some []
  else
    match readLine py line with
    | .error err => if caught err then some [] else none
    | .ok (some symbol, price, quantity) => some (recordText symbol price quantity)
    | .ok (none, _, _) => none

/-- No line ends the task. -/
def Completes (input : List (List Char)) : Prop := ∀ line ∈ input, (lineText py line).isSome

theorem main_cons_of_some {line text : List Char} (h : lineText py line = some text)
    (rest : List (List Char)) : main py (line :: rest) = text ++ main py rest := by
  rw [main]
  unfold lineText at h
  dsimp only at h ⊢
  rcases hblank : (strip line).isEmpty with _ | _
  · simp only [hblank, Bool.false_eq_true, if_false] at h ⊢
    rcases hread : readLine py (strip line) with err | ⟨symbol, price, quantity⟩
    · simp only [hread] at h ⊢
      rcases hcaught : caught err with _ | _
      · simp [hcaught] at h
      · rw [hcaught, if_pos rfl] at h
        rw [if_pos rfl, ← Option.some.inj h, List.nil_append]
    · simp only [hread] at h ⊢
      cases symbol with
      | none => cases h
      | some symbol => rw [← Option.some.inj h]
  · simp only [hblank, if_true] at h ⊢
    rw [← Option.some.inj h, List.nil_append]

theorem main_of_completes {input : List (List Char)} (h : Completes py input) :
    main py input = input.flatMap (fun line => (lineText py line).getD []) := by
  induction input with
  | nil => rfl
  | cons line rest ih =>
      obtain ⟨hline, hrest⟩ := List.forall_mem_cons.mp h
      obtain ⟨text, htext⟩ := Option.isSome_iff_exists.mp hline
      rw [main_cons_of_some py htext, ih hrest, List.flatMap_cons, htext]
      rfl

/-- The text of a line is empty or ends its last line. -/
theorem lineText_ends {line text : List Char} (h : lineText py line = some text) :
    text = [] ∨ ∃ record, text = record ++ ['\n'] := by
  unfold lineText at h
  dsimp only at h
  split at h
  · exact Or.inl (Option.some.inj h).symm
  · split at h
    · split at h
      · exact Or.inl (Option.some.inj h).symm
      · cases h
    · rename_i symbol price quantity hread
      exact Or.inr ⟨recordLine symbol price quantity, (Option.some.inj h).symm⟩
    · cases h

/-- The lines of the output come from the lines of the input one by one. -/
theorem pieces_main {input : List (List Char)} (h : Completes py input) :
    pieces '\n' (main py input) =
      input.flatMap (fun line => pieces '\n' ((lineText py line).getD [])) := by
  rw [main_of_completes py h]
  induction input with
  | nil => simp
  | cons line rest ih =>
      obtain ⟨hline, hrest⟩ := List.forall_mem_cons.mp h
      obtain ⟨text, htext⟩ := Option.isSome_iff_exists.mp hline
      rw [List.flatMap_cons, List.flatMap_cons, ← ih hrest, htext, Option.getD_some]
      rcases lineText_ends py htext with rfl | ⟨record, rfl⟩
      · rw [List.nil_append, pieces_nil, List.nil_append]
      · rw [List.append_assoc, List.singleton_append, pieces_append, pieces_snoc]

/-- The order of the input only orders the output. -/
theorem pieces_main_perm {input input' : List (List Char)} (hperm : input'.Perm input)
    (h : Completes py input) :
    (pieces '\n' (main py input')).Perm (pieces '\n' (main py input)) := by
  have h' : Completes py input' := fun line hline => h line (hperm.mem_iff.mp hline)
  rw [pieces_main py h, pieces_main py h']
  exact hperm.flatMap_right _

end Mapper

section Shuffle

/-- The map output key: everything before the first tab. -/
def keyOf (line : List Char) : String := .ofList (line.takeWhile (· ≠ '\t'))

/-- Blank lines aside, every reducer gets the lines whose keys are assigned to
it, and it gets the records of one key together. -/
structure Shuffled {ι : Type} [DecidableEq ι] (assign : String → ι) (lines : List (List Char))
    (inputs : ι → List (List Char)) : Prop where
  received : ∀ j, ((inputs j).filter (fun line => !line.isEmpty)).Perm
    (lines.filter (fun line => assign (keyOf line) = j))
  contiguous : ∀ j, Contiguous (((inputs j).filter (fun line => '\t' ∈ line)).map keyOf)

variable {F : Type} [PyFloat F] (py : PyText F)

/-- A row is read from a record, under the key of its line. -/
theorem Reducer.key_of_parseLine {line : List Char} {row : String × F × F}
    (h : parseLine py line = some row) : row.1 = keyOf line ∧ '\t' ∈ line := by
  obtain ⟨price, qty, hsplit, _, _⟩ := parseLine_eq_some py h
  have hhead := head?_splitOn (a := '\t') line
  rw [hsplit, List.head?_cons, Option.some.injEq] at hhead
  constructor
  · rw [keyOf, ← hhead, String.ofList_toList]
  · by_contra hnone
    rw [List.splitOn_eq_singleton hnone] at hsplit
    cases hsplit

/-- The keys of the rows are the keys of some of the records. -/
theorem Reducer.keys_sublist (lines : List (List Char)) :
    ((lines.filterMap (parseLine py)).map Prod.fst).Sublist
      ((lines.filter (fun line => '\t' ∈ line)).map keyOf) := by
  induction lines with
  | nil => exact List.Sublist.refl []
  | cons line rest ih =>
      rcases hparse : parseLine py line with _ | row
      · rw [List.filterMap_cons_none hparse]
        refine ih.trans ?_
        exact ((List.sublist_cons_self line rest).filter _).map _
      · obtain ⟨hkey, htab⟩ := key_of_parseLine py hparse
        rw [List.filterMap_cons_some hparse, List.filter_cons_of_pos (by simpa using htab),
          List.map_cons, List.map_cons, hkey]
        exact ih.cons_cons _

/-- The rows of a reducer are the rows of the symbols assigned to it. -/
theorem Shuffled.rows_perm {ι : Type} [DecidableEq ι] {assign : String → ι}
    {lines : List (List Char)} {inputs : ι → List (List Char)} (h : Shuffled assign lines inputs)
    (j : ι) : ((inputs j).filterMap (Reducer.parseLine py)).Perm
      ((lines.filterMap (Reducer.parseLine py)).filter (fun row => assign row.1 = j)) := by
  have hblank : ((inputs j).filter (fun line => !line.isEmpty)).filterMap (Reducer.parseLine py) =
      (inputs j).filterMap (Reducer.parseLine py) := by
    rw [List.filterMap_filter]
    apply List.filterMap_congr
    intro line _
    cases line <;> rfl
  have hassigned : (lines.filter (fun line => assign (keyOf line) = j)).filterMap
        (Reducer.parseLine py) =
      (lines.filterMap (Reducer.parseLine py)).filter (fun row => assign row.1 = j) := by
    rw [List.filterMap_filter, List.filter_filterMap]
    apply List.filterMap_congr
    intro line _
    rcases hparse : Reducer.parseLine py line with _ | row
    · simp
    · have hkey := (Reducer.key_of_parseLine py hparse).1
      simp only [Option.filter_some, hkey]
  rw [← hblank, ← hassigned]
  exact (h.received j).filterMap _

end Shuffle

section BatchRunner

/-- What `str.splitlines` cuts at. -/
def lineBoundaries : List Char :=
  ['\n', '\r', '\x0b', '\x0c', '\x1c', '\x1d', '\x1e', '\u0085', '\u2028', '\u2029']

/-- `text.splitlines()`. -/
def splitlines : List Char → List (List Char)
  | [] => []
  | '\r' :: '\n' :: rest => [] :: splitlines rest
  | c :: rest =>
      if c ∈ lineBoundaries then [] :: splitlines rest
      else
        match splitlines rest with
        | [] => [[c]]
        | line :: more => (c :: line) :: more

/-- `sorted` of texts: it compares with `<` only. -/
def sortedTexts (texts : List (List Char)) : List (List Char) :=
  texts.insertionSort (fun a b => ¬ b < a)

theorem sortedTexts_perm (texts : List (List Char)) : (sortedTexts texts).Perm texts :=
  List.perm_insertionSort _ _

theorem sortedTexts_pairwise (texts : List (List Char)) :
    (sortedTexts texts).Pairwise (fun a b => ¬ b < a) := by
  have htotal : Std.Total (fun a b : List Char => ¬ b < a) := ⟨List.le_total⟩
  have htrans : IsTrans (List Char) (fun a b => ¬ b < a) := ⟨fun _ _ _ => List.le_trans⟩
  exact List.pairwise_insertionSort _ _

/-- `"\n".join(sorted(mapper.stdout.decode().splitlines()))`. -/
def ordered (text : List Char) : List Char := ['\n'].intercalate (sortedTexts (splitlines text))

/-- No other character of the text ends a line. -/
def OnlyLineFeeds (text : List Char) : Prop := ∀ c ∈ text, c ∈ lineBoundaries → c = '\n'

/-- The lines are the pieces between line feeds, except for a last piece that is
empty. -/
theorem splitOn_eq_splitlines {text : List Char} (h : OnlyLineFeeds text) :
    ∃ last, text.splitOn '\n' = splitlines text ++ last ∧ (last = [] ∨ last = [[]]) := by
  induction text using splitlines.induct with
  | case1 => exact ⟨[[]], rfl, Or.inr rfl⟩
  | case2 rest ih =>
      have hreturn := h '\r' List.mem_cons_self (by decide)
      exact absurd hreturn (by decide)
  | case3 c rest hcrlf hboundary ih =>
      obtain rfl : c = '\n' := h c List.mem_cons_self hboundary
      obtain ⟨last, hsplit, hlast⟩ := ih (fun x hx => h x (List.mem_cons_of_mem _ hx))
      refine ⟨last, ?_, hlast⟩
      rw [splitOn_cons_self, hsplit, splitlines]
      · simp [hboundary]
      · exact hcrlf
  | case4 c rest hcrlf hboundary hnone ih =>
      obtain ⟨last, hsplit, hlast⟩ := ih (fun x hx => h x (List.mem_cons_of_mem _ hx))
      have hne : c ≠ '\n' := fun heq => hboundary (heq ▸ by decide)
      obtain ⟨head, tail, hrest, hcons⟩ := splitOn_cons_ne hne rest
      rw [hnone, List.nil_append] at hsplit
      have hempty : head :: tail = [[]] := by
        rcases hlast with rfl | rfl
        · exact absurd hsplit (List.splitOn_ne_nil _ _)
        · rw [← hrest, hsplit]
      obtain ⟨rfl, rfl⟩ := List.cons.inj hempty
      refine ⟨[], ?_, Or.inl rfl⟩
      rw [hcons, splitlines]
      · simp [hboundary, hnone]
      · exact hcrlf
  | case5 c rest hcrlf hboundary line more hlines ih =>
      obtain ⟨last, hsplit, hlast⟩ := ih (fun x hx => h x (List.mem_cons_of_mem _ hx))
      have hne : c ≠ '\n' := fun heq => hboundary (heq ▸ by decide)
      obtain ⟨head, tail, hrest, hcons⟩ := splitOn_cons_ne hne rest
      rw [hlines, List.cons_append, hrest] at hsplit
      obtain ⟨rfl, rfl⟩ := List.cons.inj hsplit
      refine ⟨last, ?_, hlast⟩
      rw [hcons, splitlines]
      · simp [hboundary, hlines]
      · exact hcrlf

theorem filter_splitlines {text : List Char} (h : OnlyLineFeeds text) :
    (splitlines text).filter (fun line => !line.isEmpty) = pieces '\n' text := by
  obtain ⟨last, hsplit, rfl | rfl⟩ := splitOn_eq_splitlines h
  · rw [pieces, hsplit, List.append_nil]
  · rw [pieces, hsplit, List.filter_append]
    simp

theorem newline_notMem_splitlines {text line : List Char} (h : OnlyLineFeeds text)
    (hline : line ∈ splitlines text) : '\n' ∉ line := by
  obtain ⟨last, hsplit, _⟩ := splitOn_eq_splitlines h
  exact separator_notMem (hsplit ▸ List.mem_append_left last hline)

theorem keyOf_append {key : List Char} (h : '\t' ∉ key) (rest : List Char) :
    keyOf (key ++ '\t' :: rest) = .ofList key := by
  have hplain : ∀ c ∈ key, decide (c ≠ '\t') = true := by
    intro c hc
    exact decide_eq_true (fun heq => h (heq ▸ hc))
  rw [keyOf, List.takeWhile_append_of_pos hplain]
  simp

/-- Between two records of one key, whole lines in order, there are only records
of that key. -/
theorem keyOf_convex {x y z : List Char} (hx : '\t' ∈ x) (hz : '\t' ∈ z) (hxy : ¬ y < x)
    (hyz : ¬ z < y) (hkey : keyOf x = keyOf z) : keyOf y = keyOf x := by
  obtain ⟨key, first, rfl, hplain⟩ := List.eq_append_cons_of_mem hx
  obtain ⟨key', last, rfl, hplain'⟩ := List.eq_append_cons_of_mem hz
  rw [keyOf_append hplain, keyOf_append hplain', String.ofList_inj] at hkey
  subst hkey
  rw [← List.singleton_append, ← List.append_assoc] at hxy hyz
  obtain ⟨rest, rfl⟩ := prefix_of_between hxy hyz
  rw [List.append_assoc, List.singleton_append, keyOf_append hplain, keyOf_append hplain]

/-- The local runner's order is a shuffle to a single reducer. -/
theorem ordered_shuffled {text : List Char} (h : OnlyLineFeeds text) :
    Shuffled (fun _ => ()) (pieces '\n' text) (fun _ => (ordered text).splitOn '\n') := by
  have hsorted := sortedTexts_pairwise (splitlines text)
  have hplain : ∀ line ∈ sortedTexts (splitlines text), '\n' ∉ line := by
    intro line hline
    exact newline_notMem_splitlines h ((sortedTexts_perm _).mem_iff.mp hline)
  have hpieces : pieces '\n' (ordered text) =
      (sortedTexts (splitlines text)).filter (fun line => !line.isEmpty) :=
    pieces_intercalate hplain
  constructor
  · intro j
    change (pieces '\n' (ordered text)).Perm _
    have hall : (pieces '\n' text).filter (fun _ => () = j) = pieces '\n' text := by simp
    rw [hpieces, hall, ← filter_splitlines h]
    exact (sortedTexts_perm _).filter _
  · intro j
    have hrecords : ((ordered text).splitOn '\n').filter (fun line => '\t' ∈ line) =
        (pieces '\n' (ordered text)).filter (fun line => '\t' ∈ line) := by
      rw [pieces, List.filter_filter]
      apply List.filter_congr
      intro line _
      cases line <;> simp
    rw [hrecords, hpieces]
    refine Contiguous.of_convex ((hsorted.filter _).filter _) ?_
    intro x hx y _ z hz hxy hyz hkey
    have htab : ∀ line ∈ ((sortedTexts (splitlines text)).filter
        (fun line => !line.isEmpty)).filter (fun line => '\t' ∈ line), '\t' ∈ line := by
      intro line hline
      exact of_decide_eq_true (List.mem_filter.mp hline).2
    exact keyOf_convex (htab x hx) (htab z hz) hxy hyz hkey

end BatchRunner

section Job

/-- What the per-symbol specification says of some records, under a rule for
labels. -/
noncomputable def specification
    (label : Reducer.Statistics ℝ → ℝ × ℝ → Option Reducer.Label) (minTrades : ℤ)
    (records : List (String × ℝ × ℝ)) : Multiset (List Char) :=
  collect (fun symbol rows => (Reducer.judged label minTrades symbol rows : Multiset (List Char)))
    records

variable (py : PyText ℝ) (env : Reducer.Thresholds ℝ)

/-- Every reducer reads its input to the end, and together they write what is
expected. -/
def Writes {ι : Type} [Fintype ι] (inputs : ι → List (List Char))
    (expected : Multiset (List Char)) : Prop :=
  ∃ outputs : ι → List (List Char),
    (∀ j, Reducer.main py env (inputs j) = (outputs j, none)) ∧
      ∑ j, (outputs j : Multiset (List Char)) = expected

theorem specification_perm (label : Reducer.Statistics ℝ → ℝ × ℝ → Option Reducer.Label)
    (minTrades : ℤ) {records records' : List (String × ℝ × ℝ)} (h : records.Perm records') :
    specification label minTrades records = specification label minTrades records' :=
  collect_perm (fun symbol _ _ hrows =>
    Multiset.coe_eq_coe.mpr (Reducer.judged_perm label minTrades symbol hrows)) h

/-- One reducer with the records of each key together. -/
theorem linesOf_runs {lines : List (List Char)}
    (h : Contiguous ((lines.filter (fun line => '\t' ∈ line)).map keyOf)) :
    (Reducer.linesOf env (runs (lines.filterMap (Reducer.parseLine py))) : Multiset (List Char)) =
      specification (Reducer.labelOf env) env.minTrades
        (lines.filterMap (Reducer.parseLine py)) := by
  rw [Reducer.linesOf, coe_flatMap]
  exact sum_runs
    (fun symbol rows => (Reducer.judged (Reducer.labelOf env) env.minTrades symbol rows :
      Multiset (List Char)))
    (h.sublist (Reducer.keys_sublist py lines))

theorem Shuffled.writes {ι : Type} [Fintype ι] [DecidableEq ι] {assign : String → ι}
    {lines : List (List Char)} {inputs : ι → List (List Char)} (h : Shuffled assign lines inputs) :
    Writes py env inputs (specification (Reducer.labelOf env) env.minTrades
      (lines.filterMap (Reducer.parseLine py))) := by
  refine ⟨_, fun j => Reducer.main_real py env (inputs j), ?_⟩
  simp only [linesOf_runs py env (h.contiguous _)]
  exact sum_collect (fun symbol _ _ hrows =>
    Multiset.coe_eq_coe.mpr (Reducer.judged_perm _ _ symbol hrows)) assign (h.rows_perm py)

/-- The reducers write what the per-symbol specification says of the mapper's
records, whatever the order of the input, the assignment of the keys and the
shuffle; the local runner's order does so too. -/
theorem mapreduce_meets_specification {input : List (List Char)}
    (hcompletes : Mapper.Completes py input) :
    let expected := specification (Reducer.labelOf env) env.minTrades
      (Reducer.rows py (Mapper.main py input))
    ∀ input' : List (List Char), input'.Perm input →
      (∀ (ι : Type) [Fintype ι] [DecidableEq ι] (assign : String → ι)
          (inputs : ι → List (List Char)),
        Shuffled assign (pieces '\n' (Mapper.main py input')) inputs →
          Writes py env inputs expected) ∧
        (OnlyLineFeeds (Mapper.main py input') →
          Writes py env (fun _ : Unit => (ordered (Mapper.main py input')).splitOn '\n')
            expected) := by
  intro expected input' hperm
  have hrecords : ((pieces '\n' (Mapper.main py input')).filterMap (Reducer.parseLine py)).Perm
      (Reducer.rows py (Mapper.main py input)) := by
    rw [Reducer.rows_eq]
    exact (Mapper.pieces_main_perm py hperm hcompletes).filterMap _
  have hexpected := specification_perm (Reducer.labelOf env) env.minTrades hrecords
  constructor
  · intro ι _ _ assign inputs hshuffled
    have hwrites := hshuffled.writes py env
    rwa [hexpected] at hwrites
  · intro hplain
    have hwrites := (ordered_shuffled hplain).writes py env
    rwa [hexpected] at hwrites

end Job

section Examples

variable (py : PyText ℚ)

theorem Mapper.readTrade_toReal (trade : Json) :
    readTrade py.toReal trade =
      (readTrade py trade).map (fun r => (r.1, ((r.2.1 : ℚ) : ℝ), ((r.2.2 : ℚ) : ℝ))) := by
  unfold readTrade
  rcases PyText.getItem "symbol" trade with err | symbol
  · rfl
  · rcases PyText.getItem "price" trade with err | price
    · rfl
    · rcases PyText.getItem "quantity" trade with err | quantity
      · simp only [bind, Except.bind, py.float_toReal]
        rcases py.float price with err | p <;> rfl
      · simp only [bind, Except.bind, py.float_toReal, py.str_toReal]
        rcases py.float price with err | p
        · rfl
        · rcases py.float quantity with err | q <;> rfl

/-- Reading rational numbers as real ones, the mapper writes the same text. -/
theorem Mapper.lineText_toReal (line : List Char) :
    lineText py.toReal line = lineText py line := by
  have hread : readLine py.toReal (strip line) =
      (readLine py (strip line)).map (fun r => (r.1, ((r.2.1 : ℚ) : ℝ), ((r.2.2 : ℚ) : ℝ))) := by
    unfold readLine
    rw [py.nesting_toReal]
    rcases Json.loads py.nesting (String.ofList (strip line)) with err | trade
    · rfl
    · exact readTrade_toReal py trade
  unfold lineText
  dsimp only
  rw [hread]
  rcases readLine py (strip line) with err | ⟨_ | symbol, price, quantity⟩
  · rfl
  · rfl
  · simp only [Except.map, recordText, format_cast]

theorem Reducer.parseLine_toReal (line : List Char) :
    parseLine py.toReal line =
      (parseLine py line).map (fun r => (r.1, ((r.2.1 : ℚ) : ℝ), ((r.2.2 : ℚ) : ℝ))) := by
  unfold parseLine
  split
  · rfl
  · split
    · rename_i symbol price qty _
      dsimp only [PyText.toReal]
      rcases py.parse (.ofList price) with _ | p
      · rfl
      · rcases py.parse (.ofList qty) with _ | q <;> rfl
    · rfl

/-- Two trades of one symbol, the second nine times as large. -/
def blockLines : List (List Char) :=
  ["\x7b\"symbol\": \"A\", \"price\": 100, \"quantity\": 1\x7d".toList,
    "\x7b\"symbol\": \"A\", \"price\": 100, \"quantity\": 9\x7d".toList]

def blockText : List Char := "A\t100.0\t1.0\nA\t100.0\t9.0\n".toList

def blockLine : List Char := "A\tvolume_spike\t100.0000\t9.00\t1.8".toList

theorem lineText_block :
    blockLines.map (Mapper.lineText PyText.decimal.toReal) =
      [some "A\t100.0\t1.0\n".toList, some "A\t100.0\t9.0\n".toList] := by
  rw [funext (Mapper.lineText_toReal PyText.decimal)]
  decide +kernel

theorem completes_block : Mapper.Completes PyText.decimal.toReal blockLines := by
  intro line hline
  have hmem := List.mem_map_of_mem (f := Mapper.lineText PyText.decimal.toReal) hline
  rw [lineText_block] at hmem
  simp only [List.mem_cons, List.not_mem_nil, or_false] at hmem
  rcases hmem with h | h <;> rw [h] <;> rfl

theorem main_block : Mapper.main PyText.decimal.toReal blockLines = blockText := by
  have hflat : ∀ lines : List (List Char),
      lines.flatMap (fun line => (Mapper.lineText PyText.decimal.toReal line).getD []) =
        ((lines.map (Mapper.lineText PyText.decimal.toReal)).map (·.getD [])).flatten := by
    intro lines
    rw [List.map_map, ← List.flatMap_def]
    rfl
  rw [Mapper.main_of_completes _ completes_block, hflat, lineText_block]
  rfl

theorem onlyLineFeeds_block : OnlyLineFeeds (Mapper.main PyText.decimal.toReal blockLines) := by
  have hplain : (blockText.all fun c => !lineBoundaries.contains c || c == '\n') = true := by
    decide
  intro c hc hboundary
  rw [main_block] at hc
  simpa [hboundary] using List.all_eq_true.mp hplain c hc

theorem rows_block : Reducer.rows PyText.decimal.toReal
    (Mapper.main PyText.decimal.toReal blockLines) = [("A", 100, 1), ("A", 100, 9)] := by
  have hparsed : (blockText.splitOn '\n').filterMap (Reducer.parseLine PyText.decimal) =
      [("A", 100, 1), ("A", 100, 9)] := by
    decide +kernel
  have hreal := congrArg (List.map fun r : String × ℚ × ℚ =>
    (r.1, ((r.2.1 : ℚ) : ℝ), ((r.2.2 : ℚ) : ℝ))) hparsed
  rw [main_block, Reducer.rows, funext (Reducer.parseLine_toReal PyText.decimal),
    ← List.map_filterMap, hreal]
  simp

theorem statisticsOf_block : Reducer.statisticsOf [(100, 1), (100, 9)] = ⟨100, 0, 5⟩ := by
  have hprices : [(100 : ℝ), 100] = List.replicate 2 100 := rfl
  have hquantity : SampleStatistics.average [(1 : ℝ), 9] = 5 := by
    norm_num [SampleStatistics.average]
  simp only [Reducer.statisticsOf, List.map_cons, List.map_nil, hquantity]
  rw [hprices, SampleStatistics.average_replicate, SampleStatistics.sampleStd_replicate]

/-- The larger trade is the one that is labelled. -/
theorem labelOf_block : Reducer.labelOf Reducer.blockRules ⟨100, 0, 5⟩ (100, 1) = none ∧
    Reducer.labelOf Reducer.blockRules ⟨100, 0, 5⟩ (100, 9) = some .volumeSpike := by
  have htiny : ¬ (1 / 10 ^ 12 : ℝ) < 0 := by norm_num
  constructor <;>
  · simp only [Reducer.labelOf, Reducer.PriceOutlier, SampleStatistics.outlier_eq,
      Reducer.VolumeBlock, Reducer.blockRules, htiny, if_false, ofRat_real]
    norm_num

theorem specification_block :
    specification (Reducer.labelOf Reducer.blockRules) 2 [("A", 100, 1), ("A", 100, 9)] =
      {blockLine} := by
  have hline : Reducer.lineOf "A" ((100 : ℝ), (9 : ℝ))
      (.volumeSpike, Reducer.scoreOf ⟨100, 0, 5⟩ ((100 : ℝ), (9 : ℝ)) .volumeSpike) = blockLine := by
    have hscore : Reducer.scoreOf ⟨100, 0, 5⟩ ((100 : ℝ), (9 : ℝ)) .volumeSpike =
        ((9 / 5 : ℚ) : ℝ) := by
      simp [Reducer.scoreOf, Reducer.ratioOf]
    have hprice : (100 : ℝ) = ((100 : ℚ) : ℝ) := by norm_num
    have hquantity : (9 : ℝ) = ((9 : ℚ) : ℝ) := by norm_num
    rw [hscore, hprice, hquantity, Reducer.lineOf, format_cast, format_cast, format_cast]
    decide +kernel
  have hjudged : Reducer.judged (Reducer.labelOf Reducer.blockRules) 2 "A" [(100, 1), (100, 9)] =
      [blockLine] := by
    rw [Reducer.judged, statisticsOf_block, if_neg (by decide)]
    simp [labelOf_block, hline]
  simp [specification, collect, valuesOf, hjudged]
theorem mapreduce_meets_specification_block :
    Writes PyText.decimal.toReal Reducer.blockRules
      (fun _ : Unit =>
        (ordered (Mapper.main PyText.decimal.toReal blockLines)).splitOn '\n') {blockLine} := by
  obtain ⟨_, hordered⟩ := mapreduce_meets_specification PyText.decimal.toReal Reducer.blockRules
    completes_block blockLines (List.Perm.refl _)
  have hwrites := hordered onlyLineFeeds_block
  rwa [rows_block, show Reducer.blockRules.minTrades = 2 from rfl, specification_block] at hwrites

/-- A trade of quantity zero. -/
def zeroQuantityLine : List Char :=
  "\x7b\"symbol\": \"A\", \"price\": 100, \"quantity\": 0\x7d".toList

theorem lineText_zeroQuantity :
    Mapper.lineText PyText.decimal.toReal zeroQuantityLine = some "A\t100.0\t0.0\n".toList := by
  rw [Mapper.lineText_toReal]
  decide +kernel

theorem parseLine_zeroQuantity :
    Reducer.parseLine PyText.decimal.toReal "A\t100.0\t0.0".toList = some ("A", 100, 0) := by
  have hrow : Reducer.parseLine PyText.decimal "A\t100.0\t0.0".toList = some ("A", 100, 0) := by
    decide +kernel
  rw [Reducer.parseLine_toReal, hrow]
  simp

theorem completes_zeroQuantity (n : ℕ) :
    Mapper.Completes PyText.decimal.toReal (List.replicate n zeroQuantityLine) := by
  intro line hline
  rw [List.eq_of_mem_replicate hline, lineText_zeroQuantity]
  rfl

open Classical in
/-- The labels without the guards: an outlier needs prices that vary, and a
volume block any quantity that reaches the multiple of the mean. -/
noncomputable def unguardedLabel (env : Reducer.Thresholds ℝ) (stats : Reducer.Statistics ℝ)
    (row : ℝ × ℝ) : Option Reducer.Label :=
  if SampleStatistics.negligible < stats.std ∧
      env.priceZ * stats.std ≤ |row.1 - stats.mean| then some .zscore
  else if env.volRatio * stats.qmean ≤ row.2 then some .volumeSpike
  else none

theorem statisticsOf_replicate (n : ℕ) (price quantity : ℝ) :
    Reducer.statisticsOf (List.replicate (n + 1) (price, quantity)) = ⟨price, 0, quantity⟩ := by
  simp only [Reducer.statisticsOf, List.map_replicate, SampleStatistics.average_replicate,
    SampleStatistics.sampleStd_replicate]

theorem labelOf_zeroQuantity : Reducer.labelOf {} ⟨100, 0, 0⟩ (100, 0) = none := by
  have htiny : ¬ (1 / 10 ^ 12 : ℝ) < 0 := by norm_num
  simp only [Reducer.labelOf, Reducer.PriceOutlier, SampleStatistics.outlier_eq,
    Reducer.VolumeBlock, htiny, lt_irrefl, if_false, ofRat_real]
  norm_num

theorem unguardedLabel_zeroQuantity :
    unguardedLabel {} ⟨100, 0, 0⟩ (100, 0) = some .volumeSpike := by
  simp [unguardedLabel, SampleStatistics.negligible_eq]

/-- Twenty rows of quantity zero, under any rule for labels. -/
theorem specification_zeroQuantity
    (label : Reducer.Statistics ℝ → ℝ × ℝ → Option Reducer.Label) :
    specification label 20 (List.replicate 20 ("A", 100, 0)) =
      ((List.replicate 20 ((100 : ℝ), (0 : ℝ))).filterMap (fun row =>
        (label ⟨100, 0, 0⟩ row).map
          (fun l => Reducer.lineOf "A" row (l, Reducer.scoreOf ⟨100, 0, 0⟩ row l))) :
        Multiset (List Char)) := by
  unfold specification
  rw [collect_replicate _ (by decide), Reducer.judged, statisticsOf_replicate 19 100 0]
  rfl

/-- Twenty trades of quantity zero all reach the multiple of their mean
quantity, which is zero, and none is written. -/
theorem zero_quantities_not_flagged :
    ¬ ∀ (py : PyText ℝ) (env : Reducer.Thresholds ℝ) (input : List (List Char)),
      Mapper.Completes py input →
      ∀ input' : List (List Char), input'.Perm input →
        ∀ (ι : Type) [Fintype ι] [DecidableEq ι] (assign : String → ι)
          (inputs : ι → List (List Char)),
          Shuffled assign (pieces '\n' (Mapper.main py input')) inputs →
            Writes py env inputs (specification (unguardedLabel env) env.minTrades
              (Reducer.rows py (Mapper.main py input))) := by
  intro h
  have hcompletes := completes_zeroQuantity 20
  have hlines : pieces '\n' (Mapper.main PyText.decimal.toReal
      (List.replicate 20 zeroQuantityLine)) = List.replicate 20 "A\t100.0\t0.0".toList := by
    rw [Mapper.pieces_main _ hcompletes]
    simp only [List.flatMap_replicate, lineText_zeroQuantity, Option.getD_some]
    decide
  have hrows : (List.replicate 20 "A\t100.0\t0.0".toList).filterMap
      (Reducer.parseLine PyText.decimal.toReal) = List.replicate 20 ("A", 100, 0) := by
    rw [List.filterMap_replicate_of_some parseLine_zeroQuantity]
  have hcontiguous : Contiguous (((List.replicate 20 "A\t100.0\t0.0".toList).filter
      (fun line => '\t' ∈ line)).map keyOf) := by
    rw [List.filter_replicate_of_pos (by decide), List.map_replicate]
    intro before between after key heq other hother
    have hall : ∀ k ∈ before ++ key :: (between ++ key :: after), k = keyOf _ :=
      fun k hk => List.eq_of_mem_replicate (heq ▸ hk)
    rw [hall other (by simp [hother]), hall key (by simp)]
  obtain ⟨outputs, hmain, hsum⟩ := h PyText.decimal.toReal {} _ hcompletes _ (List.Perm.refl _)
    Unit (fun _ => ()) (fun _ => List.replicate 20 "A\t100.0\t0.0".toList)
    ⟨fun j => by rw [hlines]; simp, fun _ => hcontiguous⟩
  have hnone : (outputs () : Multiset (List Char)) = 0 := by
    have hwritten := hmain ()
    rw [Reducer.main_real, Prod.mk.injEq] at hwritten
    rw [← hwritten.1, linesOf_runs _ _ hcontiguous, hrows]
    change specification (Reducer.labelOf {}) 20 _ = 0
    rw [specification_zeroQuantity]
    rw [List.filterMap_replicate_of_none (by
      rw [labelOf_zeroQuantity]
      rfl)]
    rfl
  have hall : (outputs () : Multiset (List Char)) =
      specification (unguardedLabel {}) 20 (List.replicate 20 ("A", 100, 0)) := by
    rw [Reducer.rows_eq, hlines, hrows] at hsum
    simpa using hsum
  rw [hnone, specification_zeroQuantity] at hall
  have hcard := congrArg Multiset.card hall
  rw [Multiset.card_zero, Multiset.coe_card, List.filterMap_replicate_of_some (by
    rw [unguardedLabel_zeroQuantity]
    rfl), List.length_replicate] at hcard
  exact absurd hcard (by decide)

end Examples

end TradeWatch
