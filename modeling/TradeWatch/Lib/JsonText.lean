import TradeWatch.Lib.Json

/-!
The encoder of Python's `json` module for a flat object, and that the decoder
reads back what it writes. Text outside ASCII is written as `\u` escapes, beyond
the first plane as a surrogate pair; a number is written by its `repr`, which is
left open here: a number prints if its text is a word that decodes to it.
-/

namespace Json

section Strings

/-- A lower-case hexadecimal digit. -/
def hexChar (digit : ℕ) : Char := if digit < 10 then .ofNat (48 + digit) else .ofNat (87 + digit)

/-- A `\u` escape. -/
def unitText (unit : ℕ) : List Char :=
  ['\\', 'u', hexChar (unit / 4096 % 16), hexChar (unit / 256 % 16), hexChar (unit / 16 % 16),
    hexChar (unit % 16)]

/-- The letter of a short escape. -/
def shortEscape (c : Char) : Option Char :=
  if c = '"' then some '"'
  else if c = '\\' then some '\\'
  else if c = '\n' then some 'n'
  else if c = '\r' then some 'r'
  else if c = '\t' then some 't'
  else if c = .ofNat 8 then some 'b'
  else if c = .ofNat 12 then some 'f'
  else none

/-- A character of a string as `ensure_ascii` writes it. -/
def escapeChar (c : Char) : List Char :=
  match shortEscape c with
  | some letter => ['\\', letter]
  | none =>
      if 0x20 ≤ c.toNat ∧ c.toNat ≤ 0x7E then [c]
      else if c.toNat < 0x10000 then unitText c.toNat
      else
        unitText (0xD800 + (c.toNat - 0x10000) / 0x400) ++
          unitText (0xDC00 + (c.toNat - 0x10000) % 0x400)

def encodeString (text : String) : List Char := '"' :: (text.toList.flatMap escapeChar ++ ['"'])

end Strings

namespace Lexer

theorem run_cons (state : Lexer) (c : Char) (rest : List Char) :
    run state (c :: rest) =
      (state.step c).bind (fun result => (run result.2 rest).map (result.1 ++ ·)) := by
  have hmap : ∀ result : List Token × Lexer, (run result.2 rest).map (result.1 ++ ·) =
      (run result.2 rest).bind (fun later => some (result.1 ++ later)) := by
    intro result
    cases run result.2 rest <;> rfl
  simp only [hmap]
  cases state <;> rfl

/-- A character that completes no token. -/
theorem run_step {state next : Lexer} {c : Char} (h : state.step c = some ([], next))
    (rest : List Char) : run state (c :: rest) = run next rest := by
  rw [run_cons, h]
  simp

/-- A character between tokens that is a token. -/
theorem run_punctuation {c : Char} {token : Token} (h : punctuation c = some token)
    (rest : List Char) : run .between (c :: rest) = (run .between rest).map (token :: ·) := by
  rw [run_cons, step, start, h]
  rfl

theorem run_blank (rest : List Char) : run .between (' ' :: rest) = run .between rest :=
  run_step rfl rest

theorem hexDigit_hexChar {digit : ℕ} (h : digit < 16) : hexDigit (hexChar digit) = some digit := by
  interval_cases digit <;> decide

theorem run_unitText (draft : Draft) {unit : ℕ} (h : unit < 0x10000) (rest : List Char) :
    run (.string draft) (unitText unit ++ rest) = run (.string (draft.pushUnit unit)) rest := by
  have hdigit : ∀ missing value digit, digit < 16 →
      step (.unicode draft missing value) (hexChar digit) =
        some (if missing ≤ 1 then ([], .string (draft.pushUnit (16 * value + digit)))
          else ([], .unicode draft (missing - 1) (16 * value + digit))) := by
    intro missing value digit hlt
    simp [step, hexDigit_hexChar hlt]
  have hvalue : 16 * (16 * (16 * (16 * 0 + unit / 4096 % 16) + unit / 256 % 16) + unit / 16 % 16) +
      unit % 16 = unit := by omega
  have hslash : step (.string draft) '\\' = some ([], .escape draft) := rfl
  have hletter : step (.escape draft) 'u' = some ([], .unicode draft 4 0) := rfl
  simp only [unitText, List.cons_append, List.nil_append]
  rw [run_step hslash, run_step hletter,
    run_step (hdigit 4 _ _ (Nat.mod_lt _ (by norm_num))),
    run_step (hdigit 3 _ _ (Nat.mod_lt _ (by norm_num))),
    run_step (hdigit 2 _ _ (Nat.mod_lt _ (by norm_num))),
    run_step (hdigit 1 _ _ (Nat.mod_lt _ (by norm_num)))]
  rw [hvalue]

theorem simpleEscape_shortEscape {c letter : Char} (h : shortEscape c = some letter) :
    simpleEscape letter = some c ∧ letter ≠ 'u' := by
  unfold shortEscape at h
  split_ifs at h with hquote hslash hn hr ht hb hf <;>
    (obtain rfl := Option.some.inj h; subst c; decide)

theorem shortEscape_eq_none {c : Char} (h : shortEscape c = none) : c ≠ '"' ∧ c ≠ '\\' := by
  unfold shortEscape at h
  split_ifs at h with hquote hslash
  exact ⟨hquote, hslash⟩

theorem pushUnit_plane (draft : Draft) {c : Char} (h : c.toNat < 0x10000) :
    draft.pushUnit c.toNat = draft.push c := by
  have hvalid : c.toNat < 0xD800 ∨ 0xDFFF < c.toNat ∧ c.toNat < 0x110000 := c.valid
  unfold Draft.pushUnit
  rw [if_neg (by omega), if_neg (by omega), Char.ofNat_toNat]

/-- The two halves of a surrogate pair make the character. -/
theorem pushUnit_pair {draft : Draft} (hhigh : draft.high = none) {c : Char}
    (h : ¬ c.toNat < 0x10000) :
    (draft.pushUnit (0xD800 + (c.toNat - 0x10000) / 0x400)).pushUnit
        (0xDC00 + (c.toNat - 0x10000) % 0x400) = draft.push c := by
  have hvalid : c.toNat < 0xD800 ∨ 0xDFFF < c.toNat ∧ c.toNat < 0x110000 := c.valid
  have hcode : 0x10000 + 0x400 * (0xD800 + (c.toNat - 0x10000) / 0x400 - 0xD800) +
      (0xDC00 + (c.toNat - 0x10000) % 0x400 - 0xDC00) = c.toNat := by omega
  have hfirst : draft.pushUnit (0xD800 + (c.toNat - 0x10000) / 0x400) =
      { draft with high := some (0xD800 + (c.toNat - 0x10000) / 0x400) } := by
    unfold Draft.pushUnit
    rw [if_pos (by omega), hhigh]
    simp
  rw [hfirst]
  unfold Draft.pushUnit
  rw [if_neg (by omega), if_pos (by omega)]
  dsimp only
  rw [hcode, Char.ofNat_toNat, Draft.push, hhigh]
  simp

/-- An escaped character is read as itself. -/
theorem run_escapeChar {draft : Draft} (hhigh : draft.high = none) (c : Char)
    (rest : List Char) :
    run (.string draft) (escapeChar c ++ rest) = run (.string (draft.push c)) rest := by
  unfold escapeChar
  cases hshort : shortEscape c with
  | some letter =>
      obtain ⟨hsimple, hu⟩ := simpleEscape_shortEscape hshort
      have hslash : step (.string draft) '\\' = some ([], .escape draft) := rfl
      have hletter : step (.escape draft) letter = some ([], .string (draft.push c)) := by
        simp [step, hu, hsimple]
      exact (run_step hslash _).trans (run_step hletter rest)
  | none =>
      obtain ⟨hquote, hslash⟩ := shortEscape_eq_none hshort
      dsimp only
      split_ifs with hprintable hplane
      · have hplain : step (.string draft) c = some ([], .string (draft.push c)) := by
          have hnot : ¬ c.toNat < 0x20 := by omega
          simp [step, hquote, hslash, hnot]
        exact run_step hplain rest
      · rw [run_unitText draft hplane, pushUnit_plane draft hplane]
      · have hvalid : c.toNat < 0xD800 ∨ 0xDFFF < c.toNat ∧ c.toNat < 0x110000 := c.valid
        rw [List.append_assoc, run_unitText draft (by omega), run_unitText _ (by omega),
          pushUnit_pair hhigh hplane]

theorem run_flatMap_escapeChar (chars : List Char) {draft : Draft} (hhigh : draft.high = none)
    (rest : List Char) :
    run (.string draft) (chars.flatMap escapeChar ++ rest) =
      run (.string ⟨chars.reverse ++ draft.chars, none, draft.broken⟩) rest := by
  induction chars generalizing draft with
  | nil =>
      obtain ⟨chars, high, broken⟩ := draft
      simp only at hhigh
      subst hhigh
      rfl
  | cons c chars ih =>
      rw [List.flatMap_cons, List.append_assoc, run_escapeChar hhigh]
      have hpush : (draft.push c).high = none := rfl
      rw [ih hpush]
      simp [Draft.push, hhigh]

/-- A string is read back as one token. -/
theorem run_encodeString (text : String) (rest : List Char) :
    run .between (encodeString text ++ rest) =
      (run .between rest).map (.leaf (.str text) :: ·) := by
  have hopen : step .between '"' = some ([], .string .empty) := rfl
  rw [encodeString, List.cons_append, List.append_assoc, run_step hopen,
    run_flatMap_escapeChar text.toList rfl, List.singleton_append, run_cons]
  have hfinish : Draft.finish ⟨text.toList.reverse ++ Draft.empty.chars, none, Draft.empty.broken⟩ =
      .str text := by
    simp [Draft.finish, Draft.empty]
  simp only [step, if_true, hfinish]
  rfl

section Words

/-- Blank, or the beginning of another token. -/
def endsWord (c : Char) : Bool := isBlank c || c = '"' || (punctuation c).isSome

theorem endsWord_of_all {word : List Char} (h : word.all (fun c => !endsWord c) = true) :
    ∀ c ∈ word, endsWord c = false := by
  simpa using h

theorem run_word {chars word : List Char} (hword : ∀ c ∈ word, endsWord c = false) {value : Json}
    (hvalue : word? (chars.reverse ++ word) = some value) {next : Char}
    (hnext : endsWord next = true) (rest : List Char) :
    run (.word chars) (word ++ next :: rest) =
      (run .between (next :: rest)).map (.leaf value :: ·) := by
  induction word generalizing chars with
  | nil =>
      rw [List.append_nil] at hvalue
      have hstep : step (.word chars) next =
          some (.leaf value :: (start next).1, (start next).2) := by
        rw [endsWord] at hnext
        rw [step, if_pos hnext, hvalue]
        rfl
      rw [List.nil_append, run_cons, hstep, run_cons, step]
      simp [Function.comp_def]
  | cons c word ih =>
      obtain ⟨hc, hrest⟩ := List.forall_mem_cons.mp hword
      have hstep : step (.word chars) c = some ([], .word (c :: chars)) := by
        rw [endsWord] at hc
        rw [step, hc]
        rfl
      rw [List.cons_append, run_step hstep]
      apply ih hrest
      simpa using hvalue

/-- A word that is followed by another token or a blank is read as its value. -/
theorem run_between_word {word : List Char} (hword : ∀ c ∈ word, endsWord c = false)
    {value : Json} (hvalue : word? word = some value) {next : Char} (hnext : endsWord next = true)
    (rest : List Char) :
    run .between (word ++ next :: rest) = (run .between (next :: rest)).map (.leaf value :: ·) := by
  cases word with
  | nil =>
      have hempty : word? [] = none := by decide
      rw [hempty] at hvalue
      cases hvalue
  | cons c word =>
      obtain ⟨hc, hrest⟩ := List.forall_mem_cons.mp hword
      have hgoes : (isBlank c = false ∧ c ≠ '"') ∧ punctuation c = none := by
        simpa [endsWord] using hc
      have hstep : step .between c = some ([], .word [c]) := by
        simp [step, start, hgoes]
      have hchars : word? ([c].reverse ++ word) = some value := hvalue
      rw [List.cons_append, run_step hstep]
      exact run_word hrest hchars hnext rest

end Words

end Lexer

section Objects

/-- `repr` of a float, and the number that this text is. -/
structure NumberText (F : Type) where
  repr : F → List Char
  literal : F → FloatLiteral

variable {F : Type}

/-- A value that needs no brackets. -/
inductive Scalar (F : Type)
  | null
  | str (text : String)
  | float (x : F)

namespace Scalar

variable (numbers : NumberText F)

def toJson : Scalar F → Json
  | .null => .null
  | .str text => .str text
  | .float x => .float (numbers.literal x)

@[simp] theorem toJson_str (text : String) :
    (Scalar.str text : Scalar F).toJson numbers = .str text := rfl

@[simp] theorem toJson_float (x : F) :
    (Scalar.float x).toJson numbers = .float (numbers.literal x) := rfl

def text : Scalar F → List Char
  | .null => ['n', 'u', 'l', 'l']
  | .str text => encodeString text
  | .float x => numbers.repr x

/-- A number's text is a word and decodes to the number. -/
def Prints : Scalar F → Prop
  | .float x => word? (numbers.repr x) = some (.float (numbers.literal x)) ∧
      ∀ c ∈ numbers.repr x, Lexer.endsWord c = false
  | _ => True

@[simp] theorem prints_null : (Scalar.null : Scalar F).Prints numbers := trivial

@[simp] theorem prints_str (text : String) : (Scalar.str text : Scalar F).Prints numbers := trivial

end Scalar

variable (numbers : NumberText F)

/-- The decoded form of an object. -/
def toDict (entries : List (String × Scalar F)) : Json :=
  .dict (entries.map (fun entry => (entry.1, entry.2.toJson numbers)))

def entryText (entry : String × Scalar F) : List Char :=
  encodeString entry.1 ++ ':' :: ' ' :: entry.2.text numbers

/-- The entries after the first one. -/
def laterText (entries : List (String × Scalar F)) : List Char :=
  entries.flatMap (fun entry => ',' :: ' ' :: entryText numbers entry)

/-- `json.dumps(v)` of a flat object. -/
def dumps : List (String × Scalar F) → List Char
  | [] => ['\x7b', '\x7d']
  | entry :: rest => '\x7b' :: (entryText numbers entry ++ laterText numbers rest ++ ['\x7d'])

def entryTokens (entry : String × Scalar F) : List Token :=
  [.leaf (.str entry.1), .colon, .leaf (entry.2.toJson numbers)]

def laterTokens (entries : List (String × Scalar F)) : List Token :=
  entries.flatMap (fun entry => .comma :: entryTokens numbers entry)

variable {numbers}

/-- What follows a value: it begins with a character that ends a word. -/
def Delimited (rest : List Char) : Prop :=
  ∃ next tail, rest = next :: tail ∧ Lexer.endsWord next = true

theorem run_scalar {value : Scalar F} (hprints : value.Prints numbers) {rest : List Char}
    (hrest : Delimited rest) :
    Lexer.run .between (value.text numbers ++ rest) =
      (Lexer.run .between rest).map (.leaf (value.toJson numbers) :: ·) := by
  obtain ⟨next, tail, rfl, hnext⟩ := hrest
  cases value with
  | null =>
      have hword : ['n', 'u', 'l', 'l'].all (fun c => !Lexer.endsWord c) = true := by decide
      exact Lexer.run_between_word (Lexer.endsWord_of_all hword) rfl hnext tail
  | str text => exact Lexer.run_encodeString text _
  | float x => exact Lexer.run_between_word hprints.2 hprints.1 hnext tail

theorem run_entry {entry : String × Scalar F} (hprints : entry.2.Prints numbers)
    {rest : List Char} (hrest : Delimited rest) :
    Lexer.run .between (entryText numbers entry ++ rest) =
      (Lexer.run .between rest).map (entryTokens numbers entry ++ ·) := by
  have hcolon : Lexer.punctuation ':' = some .colon := rfl
  rw [entryText, List.append_assoc, Lexer.run_encodeString, List.cons_append, List.cons_append,
    Lexer.run_punctuation hcolon, Lexer.run_blank, run_scalar hprints hrest, Option.map_map,
    Option.map_map]
  rfl

theorem delimited_later (entries : List (String × Scalar F)) {rest : List Char}
    (hrest : Delimited rest) : Delimited (laterText numbers entries ++ rest) := by
  cases entries with
  | nil => exact hrest
  | cons entry entries => exact ⟨',', _, rfl, by decide⟩

theorem run_later {entries : List (String × Scalar F)}
    (hprints : ∀ entry ∈ entries, entry.2.Prints numbers) {rest : List Char}
    (hrest : Delimited rest) :
    Lexer.run .between (laterText numbers entries ++ rest) =
      (Lexer.run .between rest).map (laterTokens numbers entries ++ ·) := by
  induction entries with
  | nil => simp [laterText, laterTokens]
  | cons entry entries ih =>
      obtain ⟨hentry, hentries⟩ := List.forall_mem_cons.mp hprints
      have hcomma : Lexer.punctuation ',' = some .comma := rfl
      have htext : laterText numbers (entry :: entries) ++ rest =
          ',' :: ' ' :: (entryText numbers entry ++ (laterText numbers entries ++ rest)) := by
        simp [laterText]
      rw [htext, Lexer.run_punctuation hcomma, Lexer.run_blank,
        run_entry hentry (delimited_later entries hrest), ih hentries, Option.map_map,
        Option.map_map]
      simp [laterTokens, Function.comp_def]

theorem parser_run_cons (p : Parser) (token : Token) (tokens : List Token) :
    Parser.run p (token :: tokens) = (p.step token).bind (Parser.run · tokens) := by
  rw [Parser.run]
  rfl

theorem run_laterTokens (acc : List (String × Json)) (entries : List (String × Scalar F)) :
    Parser.run ⟨[.dict acc none], .commaOrClose⟩ (laterTokens numbers entries ++ [.braceRight]) =
      some (.dict (acc.reverse ++
        entries.map (fun entry => (entry.1, entry.2.toJson numbers)))) := by
  induction entries generalizing acc with
  | nil =>
      simp [laterTokens, parser_run_cons, Parser.step, Parser.close, Parser.complete, Parser.run]
  | cons entry entries ih =>
      have hnext := ih ((entry.1, entry.2.toJson numbers) :: acc)
      rw [List.reverse_cons, List.append_assoc] at hnext
      exact hnext

variable (numbers) in
/-- The tokens of an object. -/
def dictTokens : List (String × Scalar F) → List Token
  | [] => [.braceLeft, .braceRight]
  | entry :: rest =>
      .braceLeft :: (entryTokens numbers entry ++ laterTokens numbers rest ++ [.braceRight])

theorem run_dumps {entries : List (String × Scalar F)}
    (hprints : ∀ entry ∈ entries, entry.2.Prints numbers) :
    Lexer.run .between (dumps numbers entries) = some (dictTokens numbers entries) := by
  have hopen : Lexer.punctuation '\x7b' = some .braceLeft := rfl
  have hclose : Lexer.run .between ['\x7d'] = some [.braceRight] := rfl
  have hdelimited : Delimited ['\x7d'] := ⟨'\x7d', [], rfl, by decide⟩
  cases entries with
  | nil => rfl
  | cons entry entries =>
      obtain ⟨hentry, hentries⟩ := List.forall_mem_cons.mp hprints
      rw [dumps, List.append_assoc, Lexer.run_punctuation hopen,
        run_entry hentry (delimited_later entries hdelimited), run_later hentries hdelimited,
        hclose]
      simp [dictTokens]

/-- The decoder reads back what the encoder writes. -/
theorem parse_dumps {entries : List (String × Scalar F)}
    (hprints : ∀ entry ∈ entries, entry.2.Prints numbers) :
    parse (.ofList (dumps numbers entries)) = some (toDict numbers entries) := by
  unfold parse
  rw [String.toList_ofList, run_dumps hprints, Option.bind_eq_bind, Option.bind_some]
  cases entries with
  | nil => rfl
  | cons entry entries =>
      rw [dictTokens, List.append_assoc]
      exact run_laterTokens [(entry.1, entry.2.toJson numbers)] entries

end Objects

end Json
