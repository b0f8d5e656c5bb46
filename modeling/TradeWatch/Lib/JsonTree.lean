import Mathlib.Data.List.TakeWhile
import TradeWatch.Lib.JsonText

/-!
The encoder of whole JSON values, and that the decoder reads back what it
writes. How a string is escaped and whether a blank follows a comma or a colon is
a `Layout`: Python's `json.dumps` puts the blanks and keeps to ASCII, pydantic
does neither.
-/

namespace Json

/-- A Python value that JSON can carry. -/
inductive Value (F : Type)
  | null
  | bool (b : Bool)
  | int (n : ℤ)
  | float (x : F)
  | str (text : String)
  | list (items : List (Value F))
  | dict (entries : List (String × Value F))

/-- How an encoder writes. No string it writes goes over the end of the line. -/
structure Layout where
  escape : Char → List Char
  gap : List Char
  blank : ∀ c ∈ gap, c = ' '
  reads : ∀ (draft : Draft), draft.high = none → ∀ c rest,
    Lexer.run (.string draft) (escape c ++ rest) = Lexer.run (.string (draft.push c)) rest
  oneLine : ∀ c, '\n' ∉ escape c

section Layouts

theorem hexChar_ne_newline {digit : ℕ} (h : digit < 16) : hexChar digit ≠ '\n' := by
  interval_cases digit <;> decide

theorem newline_notMem_unitText (unit : ℕ) : '\n' ∉ unitText unit := by
  have hdigit : ∀ n : ℕ, '\n' ≠ hexChar (n % 16) :=
    fun n => (hexChar_ne_newline (Nat.mod_lt n (by omega))).symm
  simp [unitText, hdigit]

theorem shortEscape_ne_newline {c letter : Char} (h : shortEscape c = some letter) :
    letter ≠ '\n' := by
  unfold shortEscape at h
  split_ifs at h <;> (obtain rfl := Option.some.inj h; decide)

theorem newline_notMem_escapeChar (c : Char) : '\n' ∉ escapeChar c := by
  unfold escapeChar
  cases hshort : shortEscape c with
  | some letter =>
      have hne := (shortEscape_ne_newline hshort).symm
      simp [hne]
  | none =>
      dsimp only
      split_ifs with hprintable
      · rw [List.mem_singleton]
        rintro rfl
        exact absurd hprintable (by decide)
      · exact newline_notMem_unitText _
      · simp [newline_notMem_unitText]

/-- `json.dumps`. -/
def Layout.dumps : Layout where
  escape := escapeChar
  gap := [' ']
  blank := by simp
  reads _ hhigh := Lexer.run_escapeChar hhigh
  oneLine := newline_notMem_escapeChar

/-- A character of a string where only control characters need an escape. -/
def escapeControl (c : Char) : List Char :=
  match shortEscape c with
  | some letter => ['\\', letter]
  | none => if c.toNat < 0x20 then unitText c.toNat else [c]

theorem run_escapeControl {draft : Draft} (hhigh : draft.high = none) (c : Char)
    (rest : List Char) :
    Lexer.run (.string draft) (escapeControl c ++ rest) =
      Lexer.run (.string (draft.push c)) rest := by
  unfold escapeControl
  cases hshort : shortEscape c with
  | some letter =>
      have hescape := Lexer.run_escapeChar hhigh c rest
      unfold escapeChar at hescape
      rwa [hshort] at hescape
  | none =>
      obtain ⟨hquote, hslash⟩ := Lexer.shortEscape_eq_none hshort
      dsimp only
      split_ifs with hcontrol
      · have hplane : c.toNat < 0x10000 := by omega
        rw [Lexer.run_unitText draft hplane, Lexer.pushUnit_plane draft hplane]
      · have hplain : Lexer.step (.string draft) c = some ([], .string (draft.push c)) := by
          simp [Lexer.step, hquote, hslash, hcontrol]
        exact Lexer.run_step hplain rest

theorem newline_notMem_escapeControl (c : Char) : '\n' ∉ escapeControl c := by
  unfold escapeControl
  cases hshort : shortEscape c with
  | some letter =>
      have hne := (shortEscape_ne_newline hshort).symm
      simp [hne]
  | none =>
      dsimp only
      split_ifs with hcontrol
      · exact newline_notMem_unitText _
      · rw [List.mem_singleton]
        rintro rfl
        exact absurd hshort (by decide)

/-- pydantic's `model_dump_json`. -/
def Layout.compact : Layout where
  escape := escapeControl
  gap := []
  blank := by simp
  reads _ hhigh := run_escapeControl hhigh
  oneLine := newline_notMem_escapeControl

end Layouts

section Numbers

/-- `repr` of an integer. -/
def intText (n : ℤ) : List Char :=
  if n < 0 then '-' :: Nat.toDigits 10 n.natAbs else Nat.toDigits 10 n.natAbs

theorem digitsValue_toDigits (n : ℕ) : digitsValue (Nat.toDigits 10 n) = n :=
  Nat.ofDigitChars_ten_toDigits

theorem spanDigits_toDigits (n : ℕ) : spanDigits (Nat.toDigits 10 n) = (Nat.toDigits 10 n, []) := by
  have hdigit : ∀ c ∈ Nat.toDigits 10 n, c.isDigit :=
    fun c hc => Nat.isDigit_of_mem_toDigits (by omega) (by omega) hc
  rw [spanDigits, List.span_eq_takeWhile_dropWhile, List.takeWhile_eq_self_iff.mpr hdigit,
    List.dropWhile_eq_nil_iff.mpr hdigit]

/-- Only zero begins with a zero. -/
theorem head?_toDigits {n : ℕ} (h : 0 < n) : (Nat.toDigits 10 n).head? ≠ some '0' := by
  induction n using Nat.strong_induction_on with
  | _ n ih =>
      rcases lt_or_ge n 10 with hsmall | hlarge
      · rw [Nat.toDigits_of_lt_base hsmall]
        interval_cases n <;> decide
      · have hfewer := ih (n / 10) (by omega) (by omega)
        rw [Nat.toDigits_of_base_le (by omega) hlarge,
          List.head?_append_of_ne_nil _ Nat.toDigits_ne_nil]
        exact hfewer

theorem number?_toDigits (negative : Bool) {n : ℕ} (hlength : (Nat.toDigits 10 n).length ≤ 4300) :
    number? negative (Nat.toDigits 10 n) = some (.int ((if negative then -1 else 1) * n)) := by
  have hzero : ¬ ((Nat.toDigits 10 n).length > 1 ∧ (Nat.toDigits 10 n).head? = some '0') := by
    rintro ⟨hlong, hhead⟩
    rcases Nat.eq_zero_or_pos n with rfl | hpos
    · rw [Nat.toDigits_zero, List.length_singleton] at hlong
      omega
    · exact head?_toDigits hpos hhead
  unfold number?
  rw [spanDigits_toDigits]
  cases hdigits : Nat.toDigits 10 n with
  | nil => exact absurd hdigits Nat.toDigits_ne_nil
  | cons d rest =>
      have hvalue := digitsValue_toDigits n
      rw [hdigits] at hzero hlength hvalue
      dsimp only
      rw [if_neg hzero, if_pos rfl, if_neg (by omega), hvalue]

/-- A word that begins with a digit is a number. -/
theorem word?_digits {d : Char} (h : d.isDigit) (rest : List Char) :
    word? (d :: rest) = number? false (d :: rest) := by
  unfold word?
  split
  case h_8 => rfl
  all_goals
    rename_i hword
    obtain ⟨rfl, _⟩ := List.cons.inj hword
    exact absurd h (by decide)

theorem word?_minus {d : Char} (h : d.isDigit) (rest : List Char) :
    word? ('-' :: d :: rest) = number? true (d :: rest) := by
  unfold word?
  split
  case h_7 hword => rw [(List.cons.inj hword).2]
  case h_6 hword =>
    obtain ⟨rfl, _⟩ := List.cons.inj (List.cons.inj hword).2
    exact absurd h (by decide)
  case h_8 hminus => exact absurd rfl (hminus _)
  all_goals
    rename_i hword
    exact absurd (List.cons.inj hword).1 (by decide)

/-- The decoder reads an integer unless it is longer than Python converts. -/
theorem word?_intText {n : ℤ} (hlength : (Nat.toDigits 10 n.natAbs).length ≤ 4300) :
    word? (intText n) = some (.int n) := by
  have hfirst : ∃ d rest, Nat.toDigits 10 n.natAbs = d :: rest ∧ d.isDigit := by
    cases hdigits : Nat.toDigits 10 n.natAbs with
    | nil => exact absurd hdigits Nat.toDigits_ne_nil
    | cons d rest =>
        have hmem : d ∈ Nat.toDigits 10 n.natAbs := hdigits ▸ List.mem_cons_self
        exact ⟨d, rest, rfl, Nat.isDigit_of_mem_toDigits (by omega) (by omega) hmem⟩
  obtain ⟨d, rest, hdigits, hd⟩ := hfirst
  unfold intText
  split_ifs with hnegative
  · rw [hdigits, word?_minus hd, ← hdigits, number?_toDigits true hlength]
    simp only [if_true]
    congr 2
    omega
  · rw [hdigits, word?_digits hd, ← hdigits, number?_toDigits false hlength]
    simp only [Bool.false_eq_true, if_false]
    congr 2
    omega

theorem endsWord_intText (n : ℤ) : ∀ c ∈ intText n, Lexer.endsWord c = false := by
  have hdigit : ∀ c : Char, c.isDigit → Lexer.endsWord c = false := by
    intro c hc
    have hne : ∀ e : Char, e.isDigit = false → c ≠ e := by
      rintro e he rfl
      rw [hc] at he
      cases he
    have hpunctuation : Lexer.punctuation c = none := by
      unfold Lexer.punctuation
      split <;> first | rfl | exact absurd hc (by decide)
    simp [Lexer.endsWord, Lexer.isBlank, hpunctuation, hne ' ' (by decide), hne '\t' (by decide),
      hne '\n' (by decide), hne '\r' (by decide), hne '"' (by decide)]
  have hdigits : ∀ c ∈ Nat.toDigits 10 n.natAbs, Lexer.endsWord c = false :=
    fun c hc => hdigit c (Nat.isDigit_of_mem_toDigits (by omega) (by omega) hc)
  unfold intText
  split_ifs
  · exact List.forall_mem_cons.mpr ⟨by decide, hdigits⟩
  · exact hdigits

end Numbers

section Trees

variable {F : Type} (layout : Layout) (numbers : NumberText F)

namespace Value

/-- A string between its quotes. -/
def stringText (text : String) : List Char := '"' :: (text.toList.flatMap layout.escape ++ ['"'])

mutual

/-- The text that is written for a value. -/
def text : Value F → List Char
  | .null => ['n', 'u', 'l', 'l']
  | .bool true => ['t', 'r', 'u', 'e']
  | .bool false => ['f', 'a', 'l', 's', 'e']
  | .int n => intText n
  | .float x => numbers.repr x
  | .str s => stringText layout s
  | .list [] => ['[', ']']
  | .list (item :: rest) => '[' :: (text item ++ (laterItems rest ++ [']']))
  | .dict [] => ['\x7b', '\x7d']
  | .dict ((key, value) :: rest) =>
      '\x7b' :: (stringText layout key ++ ':' :: (layout.gap ++
        (text value ++ (laterEntries rest ++ ['\x7d']))))

/-- The items after the first one. -/
def laterItems : List (Value F) → List Char
  | [] => []
  | item :: rest => ',' :: (layout.gap ++ (text item ++ laterItems rest))

/-- The entries after the first one. -/
def laterEntries : List (String × Value F) → List Char
  | [] => []
  | (key, value) :: rest =>
      ',' :: (layout.gap ++ (stringText layout key ++ ':' :: (layout.gap ++
        (text value ++ laterEntries rest))))

end

mutual

/-- What the value decodes to. -/
def toJson : Value F → Json
  | .null => .null
  | .bool b => .bool b
  | .int n => .int n
  | .float x => .float (numbers.literal x)
  | .str s => .str s
  | .list items => .list (itemsJson items)
  | .dict entries => .dict (entriesJson entries)

def itemsJson : List (Value F) → List Json
  | [] => []
  | item :: rest => toJson item :: itemsJson rest

def entriesJson : List (String × Value F) → List (String × Json)
  | [] => []
  | (key, value) :: rest => (key, toJson value) :: entriesJson rest

end

mutual

/-- Every number in the value has a text that decodes to it: an integer is not
longer than Python converts, and the text of a float is a word. -/
def Prints : Value F → Prop
  | .null => True
  | .bool _ => True
  | .int n => (Nat.toDigits 10 n.natAbs).length ≤ 4300
  | .float x => word? (numbers.repr x) = some (.float (numbers.literal x)) ∧
      ∀ c ∈ numbers.repr x, Lexer.endsWord c = false
  | .str _ => True
  | .list items => ItemsPrint items
  | .dict entries => EntriesPrint entries

def ItemsPrint : List (Value F) → Prop
  | [] => True
  | item :: rest => Prints item ∧ ItemsPrint rest

def EntriesPrint : List (String × Value F) → Prop
  | [] => True
  | (_, value) :: rest => Prints value ∧ EntriesPrint rest

end

mutual

/-- The tokens of the text. -/
def tokens : Value F → List Token
  | .null => [.leaf .null]
  | .bool b => [.leaf (.bool b)]
  | .int n => [.leaf (.int n)]
  | .float x => [.leaf (.float (numbers.literal x))]
  | .str s => [.leaf (.str s)]
  | .list [] => [.bracketLeft, .bracketRight]
  | .list (item :: rest) =>
      .bracketLeft :: (tokens item ++ (laterItemTokens rest ++ [.bracketRight]))
  | .dict [] => [.braceLeft, .braceRight]
  | .dict ((key, value) :: rest) =>
      .braceLeft :: .leaf (.str key) :: .colon ::
        (tokens value ++ (laterEntryTokens rest ++ [.braceRight]))

def laterItemTokens : List (Value F) → List Token
  | [] => []
  | item :: rest => .comma :: (tokens item ++ laterItemTokens rest)

def laterEntryTokens : List (String × Value F) → List Token
  | [] => []
  | (key, value) :: rest =>
      .comma :: .leaf (.str key) :: .colon :: (tokens value ++ laterEntryTokens rest)

end

section Lexing

variable {layout numbers}

/-- Nothing follows, or a character that ends a word. -/
def Stops (rest : List Char) : Prop := ∀ next ∈ rest.head?, Lexer.endsWord next = true

theorem stops_cons {c : Char} (h : Lexer.endsWord c = true) (rest : List Char) :
    Stops (c :: rest) := by
  intro next hnext
  obtain rfl : c = next := by simpa using hnext
  exact h

theorem run_lastWord (chars word : List Char) (hends : ∀ c ∈ word, Lexer.endsWord c = false) :
    Lexer.run (.word chars) word =
      (word? (chars.reverse ++ word)).map (fun value => [.leaf value]) := by
  induction word generalizing chars with
  | nil =>
      rw [List.append_nil]
      rfl
  | cons c word ih =>
      obtain ⟨hc, hword⟩ := List.forall_mem_cons.mp hends
      have hstep : Lexer.step (.word chars) c = some ([], .word (c :: chars)) := by
        rw [Lexer.endsWord] at hc
        rw [Lexer.step, hc]
        rfl
      rw [Lexer.run_step hstep, ih (c :: chars) hword, List.reverse_cons, List.append_assoc,
        List.singleton_append]

/-- A word is one token where it stops. -/
theorem run_wordText {word : List Char} {value : Json}
    (hends : ∀ c ∈ word, Lexer.endsWord c = false) (hvalue : word? word = some value)
    {rest : List Char} (hrest : Stops rest) :
    Lexer.run .between (word ++ rest) = (Lexer.run .between rest).map ([.leaf value] ++ ·) := by
  cases rest with
  | cons next tail => exact Lexer.run_between_word hends hvalue (hrest next rfl) tail
  | nil =>
      cases word with
      | nil =>
          have hempty : word? [] = none := by decide
          rw [hempty] at hvalue
          cases hvalue
      | cons c word =>
          obtain ⟨hc, hword⟩ := List.forall_mem_cons.mp hends
          have hgoes : (Lexer.isBlank c = false ∧ c ≠ '"') ∧ Lexer.punctuation c = none := by
            simpa [Lexer.endsWord] using hc
          have hstep : Lexer.step .between c = some ([], .word [c]) := by
            simp [Lexer.step, Lexer.start, hgoes]
          rw [List.append_nil, Lexer.run_step hstep, run_lastWord [c] word hword]
          change (word? (c :: word)).map _ = _
          rw [hvalue]
          rfl

theorem run_gap (rest : List Char) :
    Lexer.run .between (layout.gap ++ rest) = Lexer.run .between rest := by
  have hgap : ∀ gap : List Char, (∀ c ∈ gap, c = ' ') →
      Lexer.run .between (gap ++ rest) = Lexer.run .between rest := by
    intro gap hblank
    induction gap with
    | nil => rfl
    | cons c gap ih =>
        obtain ⟨rfl, hgap⟩ := List.forall_mem_cons.mp hblank
        rw [List.cons_append, Lexer.run_blank, ih hgap]
  exact hgap layout.gap layout.blank

theorem run_stringText (text : String) (rest : List Char) :
    Lexer.run .between (stringText layout text ++ rest) =
      (Lexer.run .between rest).map (.leaf (.str text) :: ·) := by
  have hchars : ∀ (chars : List Char) (draft : Draft), draft.high = none → ∀ rest,
      Lexer.run (.string draft) (chars.flatMap layout.escape ++ rest) =
        Lexer.run (.string ⟨chars.reverse ++ draft.chars, none, draft.broken⟩) rest := by
    intro chars
    induction chars with
    | nil =>
        rintro ⟨chars, high, broken⟩ hhigh rest
        obtain rfl : high = none := hhigh
        rfl
    | cons c chars ih =>
        intro draft hhigh rest
        have hpush : (draft.push c).high = none := rfl
        rw [List.flatMap_cons, List.append_assoc, layout.reads draft hhigh, ih _ hpush]
        simp [Draft.push, hhigh]
  have hopen : Lexer.step .between '"' = some ([], .string .empty) := rfl
  have hfinish : Draft.finish ⟨text.toList.reverse ++ Draft.empty.chars, none, Draft.empty.broken⟩ =
      .str text := by
    simp [Draft.finish, Draft.empty]
  rw [stringText, List.cons_append, List.append_assoc, Lexer.run_step hopen,
    hchars text.toList .empty rfl, List.singleton_append, Lexer.run_cons]
  simp only [Lexer.step, if_true, hfinish]
  rfl

variable (layout numbers) in
theorem stops_laterItems (items : List (Value F)) {rest : List Char} (h : Stops rest) :
    Stops (laterItems layout numbers items ++ rest) := by
  cases items with
  | nil => exact h
  | cons item items => exact stops_cons (by decide) _

variable (layout numbers) in
theorem stops_laterEntries (entries : List (String × Value F)) {rest : List Char}
    (h : Stops rest) : Stops (laterEntries layout numbers entries ++ rest) := by
  cases entries with
  | nil => exact h
  | cons entry entries => exact stops_cons (by decide) _

mutual

/-- The lexer cuts the text of a value into its tokens. -/
theorem run_text : ∀ (value : Value F), Prints numbers value → ∀ {rest : List Char}, Stops rest →
    Lexer.run .between (text layout numbers value ++ rest) =
      (Lexer.run .between rest).map (tokens numbers value ++ ·)
  | .null, _, rest, hrest => by
      have hword : ['n', 'u', 'l', 'l'].all (fun c => !Lexer.endsWord c) = true := by decide
      exact run_wordText (Lexer.endsWord_of_all hword) rfl hrest
  | .bool true, _, rest, hrest => by
      have hword : ['t', 'r', 'u', 'e'].all (fun c => !Lexer.endsWord c) = true := by decide
      exact run_wordText (Lexer.endsWord_of_all hword) rfl hrest
  | .bool false, _, rest, hrest => by
      have hword : ['f', 'a', 'l', 's', 'e'].all (fun c => !Lexer.endsWord c) = true := by decide
      exact run_wordText (Lexer.endsWord_of_all hword) rfl hrest
  | .int n, h, rest, hrest => run_wordText (endsWord_intText n) (word?_intText h) hrest
  | .float x, h, rest, hrest => run_wordText h.2 h.1 hrest
  | .str s, _, rest, _ => run_stringText s rest
  | .list [], _, rest, _ => by
      have hopen : Lexer.punctuation '[' = some .bracketLeft := rfl
      have hclose : Lexer.punctuation ']' = some .bracketRight := rfl
      simp only [text, tokens, List.cons_append, List.nil_append, Lexer.run_punctuation hopen,
        Lexer.run_punctuation hclose, Option.map_map, Function.comp_def]
  | .list (item :: items), h, rest, _ => by
      obtain ⟨hprints, hprint⟩ : Prints numbers item ∧ ItemsPrint numbers items := h
      have hopen : Lexer.punctuation '[' = some .bracketLeft := rfl
      have hclose : Lexer.punctuation ']' = some .bracketRight := rfl
      have hend : Stops (']' :: rest) := stops_cons (by decide) rest
      have hitem := run_text item hprints (stops_laterItems layout numbers items hend)
      have hitems := run_laterItems items hprint hend
      simp only [text, tokens, List.cons_append, List.nil_append, List.append_assoc,
        Lexer.run_punctuation hopen, hitem, hitems, Lexer.run_punctuation hclose, Option.map_map,
        Function.comp_def]
  | .dict [], _, rest, _ => by
      have hopen : Lexer.punctuation '\x7b' = some .braceLeft := rfl
      have hclose : Lexer.punctuation '\x7d' = some .braceRight := rfl
      simp only [text, tokens, List.cons_append, List.nil_append, Lexer.run_punctuation hopen,
        Lexer.run_punctuation hclose, Option.map_map, Function.comp_def]
  | .dict ((key, value) :: entries), h, rest, _ => by
      obtain ⟨hprints, hprint⟩ : Prints numbers value ∧ EntriesPrint numbers entries := h
      have hopen : Lexer.punctuation '\x7b' = some .braceLeft := rfl
      have hclose : Lexer.punctuation '\x7d' = some .braceRight := rfl
      have hcolon : Lexer.punctuation ':' = some .colon := rfl
      have hend : Stops ('\x7d' :: rest) := stops_cons (by decide) rest
      have hvalue := run_text value hprints (stops_laterEntries layout numbers entries hend)
      have hentries := run_laterEntries entries hprint hend
      simp only [text, tokens, List.cons_append, List.nil_append, List.append_assoc,
        Lexer.run_punctuation hopen, run_stringText, Lexer.run_punctuation hcolon, run_gap, hvalue,
        hentries, Lexer.run_punctuation hclose, Option.map_map, Function.comp_def]

theorem run_laterItems : ∀ (items : List (Value F)), ItemsPrint numbers items →
    ∀ {rest : List Char}, Stops rest →
    Lexer.run .between (laterItems layout numbers items ++ rest) =
      (Lexer.run .between rest).map (laterItemTokens numbers items ++ ·)
  | [], _, rest, _ => by simp [laterItems, laterItemTokens]
  | item :: items, h, rest, hrest => by
      obtain ⟨hprints, hprint⟩ : Prints numbers item ∧ ItemsPrint numbers items := h
      have hcomma : Lexer.punctuation ',' = some .comma := rfl
      have hitem := run_text item hprints (stops_laterItems layout numbers items hrest)
      have hitems := run_laterItems items hprint hrest
      simp only [laterItems, laterItemTokens, List.cons_append, List.append_assoc,
        Lexer.run_punctuation hcomma, run_gap, hitem, hitems, Option.map_map, Function.comp_def]

theorem run_laterEntries : ∀ (entries : List (String × Value F)), EntriesPrint numbers entries →
    ∀ {rest : List Char}, Stops rest →
    Lexer.run .between (laterEntries layout numbers entries ++ rest) =
      (Lexer.run .between rest).map (laterEntryTokens numbers entries ++ ·)
  | [], _, rest, _ => by simp [laterEntries, laterEntryTokens]
  | (key, value) :: entries, h, rest, hrest => by
      obtain ⟨hprints, hprint⟩ : Prints numbers value ∧ EntriesPrint numbers entries := h
      have hcomma : Lexer.punctuation ',' = some .comma := rfl
      have hcolon : Lexer.punctuation ':' = some .colon := rfl
      have hvalue := run_text value hprints (stops_laterEntries layout numbers entries hrest)
      have hentries := run_laterEntries entries hprint hrest
      simp only [laterEntries, laterEntryTokens, List.cons_append, List.append_assoc,
        Lexer.run_punctuation hcomma, run_stringText, Lexer.run_punctuation hcolon, run_gap, hvalue,
        hentries, Option.map_map, Function.comp_def]

end

end Lexing

section Parsing

variable {numbers}

theorem parser_run_step {p q : Parser} {token : Token} (h : p.step token = some q)
    (later : List Token) : Parser.run p (token :: later) = Parser.run q later := by
  rw [parser_run_cons, h, Option.bind_some]

/-- The first token of a value closes nothing. -/
theorem parser_run_firstItem (value : Value F) (stack : List Frame) (later : List Token) :
    Parser.run ⟨stack, .valueOrClose⟩ (tokens numbers value ++ later) =
      Parser.run ⟨stack, .value⟩ (tokens numbers value ++ later) := by
  have hfirst : ∃ token rest, tokens numbers value = token :: rest ∧
      Parser.step ⟨stack, .valueOrClose⟩ token = Parser.step ⟨stack, .value⟩ token := by
    cases value with
    | list items => cases items <;> exact ⟨_, _, rfl, rfl⟩
    | dict entries => cases entries <;> exact ⟨_, _, rfl, rfl⟩
    | _ => exact ⟨_, _, rfl, rfl⟩
  obtain ⟨token, rest, htokens, hstep⟩ := hfirst
  rw [htokens, List.cons_append, parser_run_cons, parser_run_cons, hstep]

mutual

/-- The parser builds the value from its tokens. -/
theorem parser_run_tokens : ∀ (value : Value F) (stack : List Frame) (later : List Token),
    Parser.run ⟨stack, .value⟩ (tokens numbers value ++ later) =
      Parser.run (Parser.complete (toJson numbers value) stack) later
  | .null, _, later => parser_run_step rfl later
  | .bool _, _, later => parser_run_step rfl later
  | .int _, _, later => parser_run_step rfl later
  | .float _, _, later => parser_run_step rfl later
  | .str _, _, later => parser_run_step rfl later
  | .list [], _, later => (parser_run_step rfl _).trans (parser_run_step rfl later)
  | .list (item :: items), stack, later => by
      have hopen : Parser.step ⟨stack, .value⟩ .bracketLeft =
          some ⟨.list [] :: stack, .valueOrClose⟩ := rfl
      rw [tokens, List.cons_append, List.append_assoc, List.append_assoc, List.singleton_append,
        parser_run_step hopen, parser_run_firstItem, parser_run_tokens item]
      exact parser_run_laterItems items [toJson numbers item] stack later
  | .dict [], _, later => (parser_run_step rfl _).trans (parser_run_step rfl later)
  | .dict ((key, value) :: entries), stack, later => by
      have hopen : Parser.step ⟨stack, .value⟩ .braceLeft =
          some ⟨.dict [] none :: stack, .keyOrClose⟩ := rfl
      have hkey : Parser.step ⟨.dict [] none :: stack, .keyOrClose⟩ (.leaf (.str key)) =
          some ⟨.dict [] (some key) :: stack, .colon⟩ := rfl
      have hcolon : Parser.step ⟨.dict [] (some key) :: stack, .colon⟩ .colon =
          some ⟨.dict [] (some key) :: stack, .value⟩ := rfl
      rw [tokens, List.cons_append, List.cons_append, List.cons_append, List.append_assoc,
        List.append_assoc, List.singleton_append, parser_run_step hopen, parser_run_step hkey,
        parser_run_step hcolon, parser_run_tokens value]
      exact parser_run_laterEntries entries [(key, toJson numbers value)] stack later

theorem parser_run_laterItems : ∀ (items : List (Value F)) (before : List Json)
    (stack : List Frame) (later : List Token),
    Parser.run ⟨.list before :: stack, .commaOrClose⟩
        (laterItemTokens numbers items ++ .bracketRight :: later) =
      Parser.run (Parser.complete (.list (before.reverse ++ itemsJson numbers items)) stack) later
  | [], before, stack, later => by
      rw [itemsJson, List.append_nil]
      exact parser_run_step rfl later
  | item :: items, before, stack, later => by
      have hcomma : Parser.step ⟨.list before :: stack, .commaOrClose⟩ .comma =
          some ⟨.list before :: stack, .value⟩ := rfl
      have hitems := parser_run_laterItems items (toJson numbers item :: before) stack later
      rw [List.reverse_cons, List.append_assoc, List.singleton_append] at hitems
      rw [laterItemTokens, List.cons_append, List.append_assoc, parser_run_step hcomma,
        parser_run_tokens item]
      exact hitems

theorem parser_run_laterEntries : ∀ (entries : List (String × Value F))
    (before : List (String × Json)) (stack : List Frame) (later : List Token),
    Parser.run ⟨.dict before none :: stack, .commaOrClose⟩
        (laterEntryTokens numbers entries ++ .braceRight :: later) =
      Parser.run (Parser.complete (.dict (before.reverse ++ entriesJson numbers entries)) stack)
        later
  | [], before, stack, later => by
      rw [entriesJson, List.append_nil]
      exact parser_run_step rfl later
  | (key, value) :: entries, before, stack, later => by
      have hcomma : Parser.step ⟨.dict before none :: stack, .commaOrClose⟩ .comma =
          some ⟨.dict before none :: stack, .key⟩ := rfl
      have hkey : Parser.step ⟨.dict before none :: stack, .key⟩ (.leaf (.str key)) =
          some ⟨.dict before (some key) :: stack, .colon⟩ := rfl
      have hcolon : Parser.step ⟨.dict before (some key) :: stack, .colon⟩ .colon =
          some ⟨.dict before (some key) :: stack, .value⟩ := rfl
      have hentries := parser_run_laterEntries entries ((key, toJson numbers value) :: before)
        stack later
      rw [List.reverse_cons, List.append_assoc, List.singleton_append] at hentries
      rw [laterEntryTokens, List.cons_append, List.cons_append, List.cons_append,
        List.append_assoc, parser_run_step hcomma, parser_run_step hkey, parser_run_step hcolon,
        parser_run_tokens value]
      exact hentries

end

end Parsing

variable {layout numbers}

/-- The decoder reads back what the encoder writes. -/
theorem parse_text {value : Value F} (hprints : Prints numbers value) :
    parse (.ofList (text layout numbers value)) = some (toJson numbers value) := by
  have hends : Stops [] := by simp [Stops]
  have hlexer := @run_text F layout numbers value hprints [] hends
  have hparser := @parser_run_tokens F numbers value [] []
  rw [List.append_nil] at hlexer hparser
  unfold parse
  rw [String.toList_ofList, hlexer]
  exact (congrArg _ (List.append_nil _)).trans hparser

section OneLine

theorem newline_notMem_gap : '\n' ∉ layout.gap := by
  intro h
  exact absurd (layout.blank '\n' h) (by decide)

theorem newline_notMem_stringText (text : String) : '\n' ∉ stringText layout text := by
  simp [stringText, layout.oneLine]

theorem newline_notMem_word {word : List Char} (hends : ∀ c ∈ word, Lexer.endsWord c = false) :
    '\n' ∉ word := by
  intro h
  exact absurd (hends '\n' h) (by decide)

mutual

/-- A value is written on one line. -/
theorem newline_notMem_text : ∀ (value : Value F), Prints numbers value →
    '\n' ∉ text layout numbers value
  | .null, _ => by simp [text]
  | .bool true, _ => by simp [text]
  | .bool false, _ => by simp [text]
  | .int n, _ => newline_notMem_word (endsWord_intText n)
  | .float _, h => newline_notMem_word h.2
  | .str s, _ => newline_notMem_stringText s
  | .list [], _ => by simp [text]
  | .list (item :: items), h => by
      obtain ⟨hprints, hprint⟩ : Prints numbers item ∧ ItemsPrint numbers items := h
      simp [text, newline_notMem_text item hprints, newline_notMem_laterItems items hprint]
  | .dict [], _ => by simp [text]
  | .dict ((key, value) :: entries), h => by
      obtain ⟨hprints, hprint⟩ : Prints numbers value ∧ EntriesPrint numbers entries := h
      simp [text, newline_notMem_gap, newline_notMem_stringText,
        newline_notMem_text value hprints, newline_notMem_laterEntries entries hprint]

theorem newline_notMem_laterItems : ∀ (items : List (Value F)), ItemsPrint numbers items →
    '\n' ∉ laterItems layout numbers items
  | [], _ => by simp [laterItems]
  | item :: items, h => by
      obtain ⟨hprints, hprint⟩ : Prints numbers item ∧ ItemsPrint numbers items := h
      simp [laterItems, newline_notMem_gap, newline_notMem_text item hprints,
        newline_notMem_laterItems items hprint]

theorem newline_notMem_laterEntries : ∀ (entries : List (String × Value F)),
    EntriesPrint numbers entries → '\n' ∉ laterEntries layout numbers entries
  | [], _ => by simp [laterEntries]
  | (key, value) :: entries, h => by
      obtain ⟨hprints, hprint⟩ : Prints numbers value ∧ EntriesPrint numbers entries := h
      simp [laterEntries, newline_notMem_gap, newline_notMem_stringText,
        newline_notMem_text value hprints, newline_notMem_laterEntries entries hprint]

end

end OneLine

end Value

end Trees

end Json
