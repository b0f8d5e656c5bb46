import Mathlib.Tactic

/-!
The text format of a metrics scrape, read line by line: a name, labels in braces
with quoted values, a number. In a quoted value a backslash, a quote and a line
feed are escaped by a backslash; whatever is written so is read back. Writers
escape by replacing characters throughout a string, so what `String.replace` does
to the characters is said first.
-/

namespace TextFormat

section Replace

open String.Slice.Pattern

/-- The characters with each `c` written as `text`. -/
def substitute (c : Char) (text chars : List Char) : List Char :=
  chars.flatMap (fun x => if x = c then text else [x])

theorem substitute_cons (c : Char) (text : List Char) (x : Char) (rest : List Char) :
    substitute c text (x :: rest) = (if x = c then text else [x]) ++ substitute c text rest := by
  rw [substitute, List.flatMap_cons, ← substitute]

theorem substitute_append (c : Char) (text front back : List Char) :
    substitute c text (front ++ back) = substitute c text front ++ substitute c text back :=
  List.flatMap_append

theorem substitute_of_not_mem {c : Char} {text chars : List Char} (h : c ∉ chars) :
    substitute c text chars = chars := by
  have hkept : ∀ x ∈ chars, (if x = c then text else [x]) = [x] := by
    rintro x hx
    exact if_neg (by rintro rfl; exact h hx)
  rw [substitute, List.flatMap_congr hkept, List.flatMap_singleton']

/-- What `replace` adds to its result for one step of the search. -/
def putStep (s : String.Slice) (replacement sofar : String) : SearchStep s → String
  | .matched _ _ => sofar ++ replacement.toSlice
  | .rejected start stop => sofar ++ s.slice! start stop

theorem replace_eq_foldl (s pattern replacement : String) :
    s.replace pattern replacement =
      (ToForwardSearcher.toSearcher pattern s.toSlice).toList.foldl
        (putStep s.toSlice replacement) "" := by
  rw [Std.Iter.foldl_toList]
  unfold String.replace String.Slice.replace
  congr 1
  funext sofar step
  cases step <;> rfl

/-- Where the pattern is one character, every such character is a match. -/
theorem not_mem_of_unmatched {s : String.Slice} {pattern : String} {c : Char}
    (hpattern : pattern.toList = [c]) {start stop : s.Pos} {before middle after : String}
    (hstart : start.Splits before (middle ++ after)) (hstop : stop.Splits (before ++ middle) after)
    (h : ∀ pos : s.Pos, start ≤ pos → pos < stop → ¬ Model.MatchesAt pattern pos) :
    c ∉ middle.toList := by
  intro hmem
  obtain ⟨front, back, hmiddle⟩ := List.append_of_mem hmem
  have hcopy : s.copy =
      (before ++ String.ofList front) ++ (pattern ++ (String.ofList back ++ after)) := by
    rw [hstart.eq_append, ← String.toList_inj]
    simp [hmiddle, hpattern]
  have hpos := String.Slice.Pos.splits_ofEqAppend hcopy
  refine h (String.Slice.Pos.ofEqAppend hcopy) ?_ ?_ ?_
  · rw [hstart.le_iff_exists_eq_append hpos]
    refine ⟨String.ofList front, rfl, ?_⟩
    rw [← String.toList_inj]
    simp [hmiddle, hpattern]
  · rw [hpos.lt_iff_exists_eq_append hstop]
    refine ⟨pattern ++ String.ofList back, ?_, ?_, ?_⟩
    · intro hempty
      have hlist := congrArg String.toList hempty
      simp [hpattern] at hlist
    · rw [← String.toList_inj]
      simp [hmiddle, hpattern]
    · rw [← String.toList_inj]
      simp
  · exact Model.ForwardStringSearcher.matchesAt_iff_splits.mpr ⟨_, _, hpos⟩

/-- From a position on, the search puts what follows it with the replacements made. -/
theorem toList_foldl_putStep {s : String.Slice} {pattern : String} {c : Char}
    (hpattern : pattern.toList = [c]) (replacement : String) {pos : s.Pos}
    {steps : List (SearchStep s)} (h : Model.IsValidSearchFrom pattern pos steps)
    {before after : String} (hpos : pos.Splits before after) (sofar : String) :
    (steps.foldl (putStep s replacement) sofar).toList =
      sofar.toList ++ substitute c replacement.toList after.toList := by
  induction h generalizing before after sofar with
  | endPos =>
      obtain rfl := hpos.eq_right s.splits_endPos
      simp [substitute]
  | matched hmatch _ ih =>
      obtain ⟨front, back, hstart, hstop⟩ :=
        Model.ForwardStringSearcher.isLongestMatchAt_iff_splits.mp hmatch
      obtain rfl := hpos.eq_right hstart
      rw [List.foldl_cons, ih hstop]
      simp [putStep, substitute, hpattern]
  | @mismatched rest start stop hlt hno _ ih =>
      obtain ⟨middle, _, hfront, rfl⟩ := (hpos.lt_iff_exists_eq_append stop.splits).mp hlt
      have hstop := stop.splits
      rw [hfront] at hstop
      have hmiddle := not_mem_of_unmatched hpattern hpos hstop hno
      obtain ⟨hle, hcopy⟩ := String.Slice.copy_slice_eq_iff_splits.mpr ⟨_, _, hpos, hstop⟩
      rw [List.foldl_cons, ih hstop, putStep, ← String.Slice.slice_eq_slice! (h := hle),
        String.toList_append, substitute_append, substitute_of_not_mem hmiddle]
      simp [hcopy]

/-- Replacing one character by a text. -/
theorem toList_replace {pattern : String} {c : Char} (hpattern : pattern.toList = [c])
    (s replacement : String) :
    (s.replace pattern replacement).toList = substitute c replacement.toList s.toList := by
  have hne : pattern ≠ "" := by
    rintro rfl
    cases hpattern
  have hlawful := Model.ForwardStringSearcher.lawfulToForwardSearcherModel hne
  have hvalid := hlawful.isValidSearchFrom_toList s.toSlice
  rw [replace_eq_foldl, toList_foldl_putStep hpattern replacement hvalid
    s.toSlice.splits_startPos ""]
  simp

end Replace

section Quoted

/-- A character of a label value as it is written. -/
def escapeChar (c : Char) : List Char :=
  if c = '\\' then ['\\', '\\']
  else if c = '"' then ['\\', '"']
  else if c = '\n' then ['\\', 'n']
  else [c]

/-- What a backslash and a character stand for. -/
def unescape (c : Char) : Option Char :=
  if c = '\\' then some '\\'
  else if c = '"' then some '"'
  else if c = 'n' then some '\n'
  else none

/-- A label value up to its closing quote. A line feed must be escaped, and no other
escapes are known. -/
def readQuoted : List Char → Option (List Char × List Char)
  | [] => none
  | '"' :: rest => some ([], rest)
  | '\n' :: _ => none
  | '\\' :: c :: rest => do
      let x ← unescape c
      let (value, rest) ← readQuoted rest
      return (x :: value, rest)
  | c :: rest => do
      let (value, rest) ← readQuoted rest
      return (c :: value, rest)

theorem readQuoted_escapeChar (c : Char) (rest : List Char) :
    readQuoted (escapeChar c ++ rest) =
      (readQuoted rest).map (fun result => (c :: result.1, result.2)) := by
  unfold escapeChar
  split_ifs with hslash hquote hfeed
  · subst hslash
    cases hrest : readQuoted rest <;> simp [readQuoted, unescape, hrest]
  · subst hquote
    cases hrest : readQuoted rest <;> simp [readQuoted, unescape, hrest]
  · subst hfeed
    cases hrest : readQuoted rest <;> simp [readQuoted, unescape, hrest]
  · rw [List.singleton_append, readQuoted]
    · cases readQuoted rest <;> rfl
    · exact hquote
    · exact hfeed
    · rintro x tail h _
      exact hslash h

/-- Whatever is quoted is read back. -/
theorem readQuoted_escape (value rest : List Char) :
    readQuoted (value.flatMap escapeChar ++ '"' :: rest) = some (value, rest) := by
  induction value with
  | nil => rw [List.flatMap_nil, List.nil_append, readQuoted]
  | cons c value ih =>
      rw [List.flatMap_cons, List.append_assoc, readQuoted_escapeChar, ih]
      rfl

end Quoted

section Names

/-- The characters of a label's name. -/
def isLabelChar (c : Char) : Bool := c.isAlphanum || c == '_'

/-- The characters of a metric's name. -/
def isMetricChar (c : Char) : Bool := isLabelChar c || c == ':'

/-- A name does not begin with a digit. -/
structure IsName (allowed : Char → Bool) (name : List Char) : Prop where
  nonempty : name ≠ []
  start : ∀ c ∈ name.head?, c.isDigit = false
  chars : ∀ c ∈ name, allowed c = true

theorem isName_of_all {allowed : Char → Bool} {name : List Char} (hne : name ≠ [])
    (hstart : name.head?.any Char.isDigit = false) (hall : name.all allowed = true) :
    IsName allowed name where
  nonempty := hne
  start := by
    intro c hc
    rw [Option.mem_def] at hc
    simpa [hc] using hstart
  chars := List.all_eq_true.mp hall

def readName (allowed : Char → Bool) (chars : List Char) : Option (List Char × List Char) :=
  match chars.takeWhile allowed with
  | [] => none
  | first :: name =>
      if first.isDigit then none else some (first :: name, chars.dropWhile allowed)

theorem readName_append {allowed : Char → Bool} {name : List Char} (h : IsName allowed name)
    {next : Char} (hnext : allowed next = false) (rest : List Char) :
    readName allowed (name ++ next :: rest) = some (name, next :: rest) := by
  have htake : (name ++ next :: rest).takeWhile allowed = name := by
    rw [List.takeWhile_append_of_pos h.chars, List.takeWhile_cons_of_neg (by simp [hnext]),
      List.append_nil]
  have hdrop : (name ++ next :: rest).dropWhile allowed = next :: rest := by
    rw [List.dropWhile_append_of_pos h.chars, List.dropWhile_cons_of_neg (by simp [hnext])]
  obtain ⟨first, others, rfl⟩ := List.exists_cons_of_ne_nil h.nonempty
  have hstart : first.isDigit = false := h.start first rfl
  unfold readName
  rw [htake, hdrop]
  simp [hstart]

end Names

section Sample

structure Sample where
  name : String
  labels : List (String × String)
  value : String
  deriving DecidableEq, Repr

def readLabel (chars : List Char) : Option ((String × String) × List Char) :=
  match readName isLabelChar chars with
  | some (name, '=' :: '"' :: rest) =>
      (readQuoted rest).map fun (value, rest) => ((.ofList name, .ofList value), rest)
  | _ => none

/-- Labels up to the closing brace, at most so many. The last may be followed by a
comma. -/
def readLabels : ℕ → List Char → Option (List (String × String) × List Char)
  | 0, _ => none
  | most + 1, chars =>
      match readLabel chars with
      | some (label, ',' :: rest) => do
          let (labels, rest) ← readLabels most rest
          return (label :: labels, rest)
      | some (label, '\x7d' :: rest) => some ([label], rest)
      | some _ => none
      | none =>
          match chars with
          | '\x7d' :: rest => some ([], rest)
          | _ => none

def isBlank (c : Char) : Bool := c == ' ' || c == '\t'

/-- The value up to a timestamp that may follow it. -/
def readValue (chars : List Char) : Option String :=
  match (chars.dropWhile isBlank).takeWhile (fun c => !isBlank c) with
  | [] => none
  | value => some (.ofList value)

/-- A line that is neither empty nor a comment. -/
def readSample (line : List Char) : Option Sample := do
  let (name, rest) ← readName isMetricChar line
  let (labels, rest) ←
    match rest with
    | '\x7b' :: rest => readLabels rest.length rest
    | rest => some ([], rest)
  let value ← readValue rest
  return { name := .ofList name, labels := labels, value := value }

def writeLabel (label : String × String) : List Char :=
  label.1.toList ++ '=' :: '"' :: (label.2.toList.flatMap escapeChar ++ ['"'])

def writeLabels (labels : List (String × String)) : List Char :=
  [','].intercalate (labels.map writeLabel)

/-- A sample on a line of its own. -/
def writeSample (sample : Sample) : List Char :=
  let labels :=
    if sample.labels.isEmpty then [] else '\x7b' :: (writeLabels sample.labels ++ ['\x7d'])
  sample.name.toList ++ labels ++ ' ' :: sample.value.toList

structure Sample.WellFormed (sample : Sample) : Prop where
  name : IsName isMetricChar sample.name.toList
  labels : ∀ label ∈ sample.labels, IsName isLabelChar label.1.toList
  value : sample.value ≠ ""
  word : ∀ c ∈ sample.value.toList, isBlank c = false ∧ c ≠ '\n'

theorem readLabel_writeLabel {label : String × String} (h : IsName isLabelChar label.1.toList)
    (rest : List Char) : readLabel (writeLabel label ++ rest) = some (label, rest) := by
  have hname : readName isLabelChar (writeLabel label ++ rest) =
      some (label.1.toList,
        '=' :: '"' :: (label.2.toList.flatMap escapeChar ++ '"' :: rest)) := by
    rw [writeLabel, List.append_assoc, List.cons_append, readName_append h (by decide)]
    simp
  rw [readLabel, hname]
  simp [readQuoted_escape]

theorem readLabels_last {chars rest : List Char} {label : String × String}
    (h : readLabel chars = some (label, '\x7d' :: rest)) (most : ℕ) :
    readLabels (most + 1) chars = some ([label], rest) := by
  rw [readLabels.eq_def]
  simp [h]

theorem readLabels_comma {chars rest : List Char} {label : String × String}
    (h : readLabel chars = some (label, ',' :: rest)) (most : ℕ) :
    readLabels (most + 1) chars =
      (readLabels most rest).map (fun result => (label :: result.1, result.2)) := by
  rw [readLabels.eq_def]
  simp only [h]
  cases readLabels most rest <;> rfl

theorem readLabels_writeLabels {labels : List (String × String)} (hne : labels ≠ [])
    (hnames : ∀ label ∈ labels, IsName isLabelChar label.1.toList) {most : ℕ}
    (hmost : labels.length ≤ most) (rest : List Char) :
    readLabels most (writeLabels labels ++ '\x7d' :: rest) = some (labels, rest) := by
  induction labels generalizing most with
  | nil => exact absurd rfl hne
  | cons label more ih =>
      obtain ⟨hname, hmore⟩ := List.forall_mem_cons.mp hnames
      rw [List.length_cons] at hmost
      obtain ⟨most, rfl⟩ : ∃ n, most = n + 1 := Nat.exists_eq_add_of_le' (by omega)
      cases more with
      | nil =>
          have hlabel : writeLabels [label] = writeLabel label := by simp [writeLabels]
          rw [hlabel]
          exact readLabels_last (readLabel_writeLabel hname _) most
      | cons next more =>
          have hlabels : writeLabels (label :: next :: more) =
              writeLabel label ++ ',' :: writeLabels (next :: more) := by
            simp [writeLabels]
          have hrest := ih (List.cons_ne_nil _ _) hmore (Nat.le_of_succ_le_succ hmost)
          rw [hlabels, List.append_assoc, List.cons_append,
            readLabels_comma (readLabel_writeLabel hname _), hrest]
          rfl

theorem length_le_writeLabels (labels : List (String × String)) :
    labels.length ≤ (writeLabels labels).length + 1 := by
  induction labels with
  | nil => simp
  | cons label more ih =>
      cases more with
      | nil => simp
      | cons next more =>
          simp only [writeLabels, List.map_cons, List.intercalate_cons_cons, List.length_append,
            List.length_cons, List.length_nil] at ih ⊢
          omega

theorem readValue_blank {value : String} (hne : value ≠ "")
    (hword : ∀ c ∈ value.toList, isBlank c = false) :
    readValue (' ' :: value.toList) = some value := by
  have hchars : value.toList ≠ [] := by simpa using hne
  obtain ⟨first, others, hfirst⟩ := List.exists_cons_of_ne_nil hchars
  have hdrop : (' ' :: value.toList).dropWhile isBlank = value.toList := by
    rw [List.dropWhile_cons_of_pos (by decide), hfirst]
    exact List.dropWhile_cons_of_neg (by simp [hword first (by simp [hfirst])])
  have htake : value.toList.takeWhile (fun c => !isBlank c) = value.toList := by
    rw [← List.append_nil value.toList, List.takeWhile_append_of_pos (by simpa using hword)]
    rfl
  rw [readValue, hdrop, htake, hfirst]
  dsimp only
  rw [← hfirst, String.ofList_toList]

/-- A sample is read back as it was written. -/
theorem readSample_writeSample {sample : Sample} (h : sample.WellFormed) :
    readSample (writeSample sample) = some sample := by
  have hvalue := readValue_blank h.value (fun c hc => (h.word c hc).1)
  obtain ⟨name, labels, value⟩ := sample
  unfold readSample writeSample
  dsimp only at h hvalue ⊢
  split_ifs with hempty
  · obtain rfl := List.isEmpty_iff.mp hempty
    rw [List.append_nil, readName_append h.name (by decide)]
    simp [hvalue]
  · have hmost : labels.length ≤ (writeLabels labels ++ '\x7d' :: ' ' :: value.toList).length := by
      have hlength := length_le_writeLabels labels
      rw [List.length_append, List.length_cons]
      omega
    rw [List.isEmpty_iff] at hempty
    have hlabels := readLabels_writeLabels hempty h.labels hmost (' ' :: value.toList)
    rw [List.append_assoc, List.cons_append, readName_append h.name (by decide), List.append_assoc,
      List.singleton_append]
    simp only [Option.bind_eq_bind, Option.bind_some]
    rw [hlabels]
    simp [hvalue]

theorem newline_not_mem_escapeChar (c : Char) : '\n' ∉ escapeChar c := by
  unfold escapeChar
  split_ifs with hslash hquote hfeed
  · decide
  · decide
  · decide
  · simpa using Ne.symm hfeed

theorem newline_not_mem_of_isName {name : List Char} {allowed : Char → Bool}
    (h : IsName allowed name) (hfeed : allowed '\n' = false) : '\n' ∉ name := by
  intro hmem
  rw [h.chars _ hmem] at hfeed
  cases hfeed

theorem newline_not_mem_writeLabel {label : String × String}
    (h : IsName isLabelChar label.1.toList) : '\n' ∉ writeLabel label := by
  have hname := newline_not_mem_of_isName h (by decide)
  have hvalue : '\n' ∉ label.2.toList.flatMap escapeChar := by
    rw [List.mem_flatMap]
    rintro ⟨c, _, hc⟩
    exact newline_not_mem_escapeChar c hc
  simp [writeLabel, hname, hvalue]

theorem newline_not_mem_writeLabels {labels : List (String × String)}
    (h : ∀ label ∈ labels, IsName isLabelChar label.1.toList) : '\n' ∉ writeLabels labels := by
  induction labels with
  | nil => simp [writeLabels]
  | cons label more ih =>
      obtain ⟨hlabel, hmore⟩ := List.forall_mem_cons.mp h
      have hfirst := newline_not_mem_writeLabel hlabel
      have hrest := ih hmore
      cases more with
      | nil => simpa [writeLabels] using hfirst
      | cons next more =>
          rw [writeLabels, List.map_cons] at hrest ⊢
          simpa [hfirst] using hrest

/-- A sample takes one line. -/
theorem newline_not_mem_writeSample {sample : Sample} (h : sample.WellFormed) :
    '\n' ∉ writeSample sample := by
  have hname := newline_not_mem_of_isName h.name (by decide)
  have hvalue : '\n' ∉ sample.value.toList := fun hmem => (h.word _ hmem).2 rfl
  have hlabels := newline_not_mem_writeLabels h.labels
  unfold writeSample
  split_ifs
  · simp [hname, hvalue]
  · simp [hname, hvalue, hlabels]

end Sample

end TextFormat
