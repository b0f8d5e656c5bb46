import TradeWatch.Lib.JsonPrefix

/-!
Lines of a log of objects that were not written to their end. Whatever is written
behind a torn object on the same line, whole objects or further torn ones, the line
stays inside the object that was left open: it decodes to nothing, and to nothing
else.
-/

namespace Json

namespace Parser

/-- How a token changes the number of open containers. -/
def balance : Token → ℤ
  | .braceLeft | .bracketLeft => 1
  | .braceRight | .bracketRight => -1
  | .colon | .comma | .leaf _ => 0

theorem length_complete (value : Json) (stack : List Frame) :
    (complete value stack).stack.length = stack.length := by
  unfold complete
  split <;> simp

theorem length_takeValue {stack : List Frame} {token : Token} {next : Parser}
    (h : takeValue stack token = some next) :
    (next.stack.length : ℤ) = stack.length + balance token := by
  unfold takeValue at h
  split at h
  · cases h
    simp [length_complete, balance]
  · cases h
    simp [balance]
  · cases h
    simp [balance]
  · cases h

theorem length_takeKey {stack : List Frame} {token : Token} {next : Parser}
    (h : takeKey stack token = some next) :
    (next.stack.length : ℤ) = stack.length + balance token := by
  unfold takeKey at h
  split at h
  · cases h
    simp [balance]
  · cases h
    simp [balance]
  · cases h

theorem length_close {stack : List Frame} {token : Token} {next : Parser}
    (h : close stack token = some next) :
    (next.stack.length : ℤ) = stack.length + balance token := by
  unfold close at h
  split at h
  · cases h
    simp [length_complete, balance]
  · cases h
    simp [length_complete, balance]
  · cases h

theorem length_afterComma {stack : List Frame} {next : Parser}
    (h : afterComma stack = some next) : next.stack.length = stack.length := by
  unfold afterComma at h
  split at h
  · cases h
    rfl
  · cases h
    rfl
  · cases h

theorem length_step {p next : Parser} {token : Token} (h : p.step token = some next) :
    (next.stack.length : ℤ) = p.stack.length + balance token := by
  unfold step at h
  split at h
  · exact length_takeValue h
  · split at h
    · exact length_close h
    · exact length_takeValue h
  · split at h
    · exact length_close h
    · exact length_takeKey h
  · exact length_takeKey h
  · split at h
    · cases h
      simp [balance]
    · cases h
  · split at h
    · simp [length_afterComma h, balance]
    · exact length_close h
  · cases h

theorem length_advance {p next : Parser} {tokens : List Token} (h : advance p tokens = some next) :
    (next.stack.length : ℤ) = p.stack.length + (tokens.map balance).sum := by
  induction tokens generalizing p with
  | nil =>
      cases h
      simp
  | cons token tokens ih =>
      obtain ⟨middle, hstep, hrest⟩ := Option.bind_eq_some_iff.mp h
      rw [ih hrest, length_step hstep, List.map_cons, List.sum_cons]
      omega

/-- Behind a literal or a string no container begins. -/
theorem step_braceLeft_after_leaf {p next : Parser} {value : Json}
    (h : p.step (.leaf value) = some next) : next.step .braceLeft = none := by
  have hcomplete : ∀ stack, (complete value stack).step .braceLeft = none := by
    rintro (_ | ⟨_ | ⟨entries, _ | key⟩, rest⟩) <;> rfl
  have hkey : ∀ {stack next}, takeKey stack (.leaf value) = some next →
      next.step .braceLeft = none := by
    intro stack next hkey
    unfold takeKey at hkey
    split at hkey <;> cases hkey <;> rfl
  obtain ⟨stack, expect⟩ := p
  cases expect with
  | value =>
      cases h
      exact hcomplete stack
  | valueOrClose =>
      cases h
      exact hcomplete stack
  | keyOrClose => exact hkey h
  | key => exact hkey h
  | colon => cases h
  | commaOrClose => rcases stack with _ | ⟨_ | _, rest⟩ <;> cases h
  | nothing whole => cases h

end Parser

/-- The lexer and the parser after some characters. -/
def feed (state : Lexer) (p : Parser) (chars : List Char) : Option (Lexer × Parser) :=
  (Lexer.advance state chars).bind fun a => (Parser.advance p a.1).map (a.2, ·)

theorem Lexer.advance_step {state next : Lexer} {tokens : List Token} {c : Char}
    (h : state.step c = some (tokens, next)) (rest : List Char) :
    Lexer.advance state (c :: rest) =
      (Lexer.advance next rest).map (fun a => (tokens ++ a.1, a.2)) := by
  rw [Lexer.advance, h]
  rcases hrest : Lexer.advance next rest with _ | a <;> simp [hrest]

theorem Lexer.advance_append (state : Lexer) (chars rest : List Char) :
    Lexer.advance state (chars ++ rest) =
      (Lexer.advance state chars).bind
        (fun a => (Lexer.advance a.2 rest).map (fun b => (a.1 ++ b.1, b.2))) := by
  induction chars generalizing state with
  | nil => simp [Lexer.advance]
  | cons c chars ih =>
      rw [List.cons_append, Lexer.advance, Lexer.advance]
      rcases state.step c with _ | ⟨tokens, next⟩
      · rfl
      · simp only [Option.bind_eq_bind, Option.bind_some, ih]
        rcases Lexer.advance next chars with _ | ⟨later, last⟩
        · rfl
        · simp only [Option.bind_some]
          rcases Lexer.advance last rest with _ | ⟨more, final⟩
          · rfl
          · simp [List.append_assoc]

theorem Parser.advance_append (p : Parser) (tokens later : List Token) :
    Parser.advance p (tokens ++ later) =
      (Parser.advance p tokens).bind (Parser.advance · later) := by
  induction tokens generalizing p with
  | nil => rfl
  | cons token tokens ih =>
      rw [List.cons_append, Parser.advance, Parser.advance, Option.bind_assoc]
      congr 1
      funext next
      exact ih next

theorem feed_append (state : Lexer) (p : Parser) (chars rest : List Char) :
    feed state p (chars ++ rest) = (feed state p chars).bind (fun a => feed a.1 a.2 rest) := by
  unfold feed
  rw [Lexer.advance_append]
  rcases Lexer.advance state chars with _ | ⟨tokens, next⟩
  · rfl
  · simp only [Option.bind_some]
    rcases hrest : Lexer.advance next rest with _ | ⟨later, last⟩
    · rcases Parser.advance p tokens with _ | q
      · rfl
      · simp [hrest]
    · simp only [Option.map_some, Option.bind_some, Parser.advance_append]
      rcases Parser.advance p tokens with _ | q
      · rfl
      · simp [hrest]

theorem parse_eq_feed (chars : List Char) :
    parse (.ofList chars) =
      (feed .between ⟨[], .value⟩ chars).bind
        (fun a => (Lexer.run a.1 []).bind (Parser.run a.2 ·)) := by
  unfold parse feed
  rw [String.toList_ofList, ← List.append_nil chars, Lexer.run_append, List.append_nil]
  rcases Lexer.advance .between chars with _ | ⟨tokens, state⟩
  · rfl
  · simp only [Option.bind_eq_bind, Option.bind_some]
    rcases hrun : Lexer.run state [] with _ | last
    · rcases Parser.advance ⟨[], .value⟩ tokens with _ | q
      · rfl
      · simp [hrun]
    · simp only [Option.map_some, Option.bind_some, Parser.run_append]
      rcases Parser.advance ⟨[], .value⟩ tokens with _ | q
      · rfl
      · simp [hrun]

/-- A line that has failed, or that is within a container. -/
def Lost (line : List Char) : Prop :=
  ∀ state p, feed .between ⟨[], .value⟩ line = some (state, p) → p.stack ≠ []

theorem Lost.parse {line : List Char} (h : Lost line) : parse (.ofList line) = none := by
  rw [parse_eq_feed]
  rcases hfeed : feed .between ⟨[], .value⟩ line with _ | ⟨state, p⟩
  · rfl
  · have hstack := h state p hfeed
    rw [Option.bind_some]
    rw [Option.eq_none_iff_forall_ne_some]
    intro value hvalue
    obtain ⟨last, hlast, hrun⟩ := Option.bind_eq_some_iff.mp hvalue
    have hdone : ∀ q : Parser, q.stack ≠ [] → Parser.run q [] ≠ some value := by
      intro q hq hnil
      rw [Parser.run_nil_eq_some hnil] at hq
      exact hq rfl
    cases state with
    | between =>
        obtain rfl : [] = last := Option.some.inj hlast
        exact hdone p hstack hrun
    | word word =>
        obtain ⟨leaf, _, rfl⟩ := Option.map_eq_some_iff.mp hlast
        dsimp only at hrun
        rw [parser_run_cons] at hrun
        obtain ⟨next, hstep, hnext⟩ := Option.bind_eq_some_iff.mp hrun
        refine hdone next ?_ hnext
        have hlength := Parser.length_step hstep
        rw [Parser.balance, add_zero] at hlength
        intro hnil
        rw [hnil, List.length_nil, Nat.cast_zero, eq_comm, Int.natCast_eq_zero,
          List.length_eq_zero_iff] at hlength
        exact hstack hlength
    | string draft => cases hlast
    | escape draft => cases hlast
    | unicode draft missing unit => cases hlast

section Records

variable {F : Type} {layout : Layout} {numbers : NumberText F}

/-- A key that is no word of JSON by itself. -/
structure Keyed (layout : Layout) (key : String) : Prop where
  ne_nil : key.toList.flatMap layout.escape ≠ []
  goes : ∀ c ∈ key.toList.flatMap layout.escape, Lexer.endsWord c = false
  noWord : word? (key.toList.flatMap layout.escape) = none

/-- No token comes of a word that is none. -/
theorem advance_noWord {chars key rest piece : List Char}
    (hgoes : ∀ c ∈ key, Lexer.endsWord c = false) (hword : word? (chars.reverse ++ key) = none)
    (hpiece : piece <+: key ++ '"' :: rest) {a : List Token × Lexer}
    (h : Lexer.advance (.word chars) piece = some a) : a.1 = [] := by
  induction key generalizing chars piece with
  | nil =>
      cases piece with
      | nil =>
          cases h
          rfl
      | cons c piece =>
          obtain ⟨rfl, _⟩ := List.cons_prefix_cons.mp hpiece
          rw [List.append_nil] at hword
          have hstep : Lexer.step (.word chars) '"' = none := by
            simp [Lexer.step, hword]
          rw [Lexer.advance, hstep] at h
          cases h
  | cons k key ih =>
      obtain ⟨hk, hkey⟩ := List.forall_mem_cons.mp hgoes
      cases piece with
      | nil =>
          cases h
          rfl
      | cons c piece =>
          rw [List.cons_append] at hpiece
          obtain ⟨rfl, hrest⟩ := List.cons_prefix_cons.mp hpiece
          have hstep : Lexer.step (.word chars) c = some ([], .word (c :: chars)) := by
            rw [Lexer.endsWord] at hk
            rw [Lexer.step, hk]
            rfl
          rw [Lexer.advance_step hstep] at h
          obtain ⟨later, hlater, rfl⟩ := Option.map_eq_some_iff.mp h
          refine ih hkey ?_ hrest hlater
          rwa [List.reverse_cons, List.append_assoc]

theorem advance_nil {state : Lexer} {a : List Token × Lexer}
    (h : Lexer.advance state [] = some a) : a = ([], state) := (Option.some.inj h).symm

/-- The beginning of a record, met within a string, ends the string at most. -/
theorem advance_string {key rest piece : List Char} (hne : key ≠ [])
    (hgoes : ∀ c ∈ key, Lexer.endsWord c = false) (hword : word? key = none) (draft : Draft)
    (hpiece : piece <+: '\x7b' :: '"' :: (key ++ '"' :: rest)) {a : List Token × Lexer}
    (h : Lexer.advance (.string draft) piece = some a) : (a.1.map Parser.balance).sum = 0 := by
  rcases piece with _ | ⟨c, piece⟩
  · rw [advance_nil h]
    rfl
  obtain ⟨rfl, hquoted⟩ := List.cons_prefix_cons.mp hpiece
  have hbrace : Lexer.step (.string draft) '\x7b' = some ([], .string (draft.push '\x7b')) := by
    simp [Lexer.step]
  rw [Lexer.advance_step hbrace] at h
  obtain ⟨b, hb, rfl⟩ := Option.map_eq_some_iff.mp h
  rcases piece with _ | ⟨c, piece⟩
  · rw [advance_nil hb]
    rfl
  obtain ⟨rfl, hkey⟩ := List.cons_prefix_cons.mp hquoted
  have hquote : Lexer.step (.string (draft.push '\x7b')) '"' =
      some ([.leaf (draft.push '\x7b').finish], .between) := by
    simp [Lexer.step]
  rw [Lexer.advance_step hquote] at hb
  obtain ⟨d, hd, rfl⟩ := Option.map_eq_some_iff.mp hb
  rcases piece with _ | ⟨c, piece⟩
  · rw [advance_nil hd]
    rfl
  -- the key is now outside the string, where it is no token
  obtain ⟨k, key, rfl⟩ := List.exists_cons_of_ne_nil hne
  obtain ⟨hk, hlater⟩ := List.forall_mem_cons.mp hgoes
  rw [List.cons_append] at hkey
  obtain ⟨rfl, hrest⟩ := List.cons_prefix_cons.mp hkey
  have hstart : (Lexer.isBlank c = false ∧ c ≠ '"') ∧ Lexer.punctuation c = none := by
    simpa [Lexer.endsWord] using hk
  have hstep : Lexer.step .between c = some ([], .word [c]) := by
    simp [Lexer.step, Lexer.start, hstart]
  rw [Lexer.advance_step hstep] at hd
  obtain ⟨e, he, rfl⟩ := Option.map_eq_some_iff.mp hd
  have hone : word? ([c].reverse ++ key) = none := hword
  have hnone : e.1 = [] := advance_noWord hlater hone hrest he
  simp [hnone, Parser.balance]

/-- What stands at the beginning of every record. -/
theorem text_record (key : String) (value : Value F) (entries : List (String × Value F)) :
    ∃ rest, Value.text layout numbers (.dict ((key, value) :: entries)) =
      '\x7b' :: '"' :: (key.toList.flatMap layout.escape ++ '"' :: rest) := by
  refine ⟨':' :: (layout.gap ++ (Value.text layout numbers value ++
    (Value.laterEntries layout numbers entries ++ ['\x7d']))), ?_⟩
  simp [Value.text, Value.stringText]

/-- Every piece of an object opens at least as many containers as it closes. -/
theorem balance_piece {entries : List (String × Value F)}
    (hprints : Value.Prints numbers (.dict entries)) {piece : List Char}
    (hpiece : piece <+: Value.text layout numbers (.dict entries)) {a : List Token × Lexer}
    (h : Lexer.advance .between piece = some a) : 0 ≤ (a.1.map Parser.balance).sum := by
  obtain ⟨missing, hmissing⟩ := hpiece
  have hwhole := @Value.parse_text F layout numbers _ hprints
  rw [← hmissing, parse_eq_feed, feed_append] at hwhole
  obtain ⟨last, hlast, _⟩ := Option.bind_eq_some_iff.mp hwhole
  obtain ⟨⟨state, p⟩, hfeed, _⟩ := Option.bind_eq_some_iff.mp hlast
  rw [feed, h, Option.bind_some] at hfeed
  obtain ⟨q, hq, _⟩ := Option.map_eq_some_iff.mp hfeed
  have hlength := Parser.length_advance hq
  rw [List.length_nil, Nat.cast_zero, zero_add] at hlength
  omega

variable {key : String} {value : Value F} {entries : List (String × Value F)}

/-- Another record, or a piece of one, written behind a line that is lost. -/
theorem Lost.append (hkey : Keyed layout key)
    (hprints : Value.Prints numbers (.dict ((key, value) :: entries))) {line piece : List Char}
    (hline : Lost line)
    (hpiece : piece <+: Value.text layout numbers (.dict ((key, value) :: entries))) :
    Lost (line ++ piece) := by
  intro state p hfeed
  rw [feed_append] at hfeed
  obtain ⟨⟨before, q⟩, hbefore, hafter⟩ := Option.bind_eq_some_iff.mp hfeed
  have hstack : q.stack ≠ [] := hline before q hbefore
  change feed before q piece = some (state, p) at hafter
  obtain ⟨a, ha, hparse⟩ := Option.bind_eq_some_iff.mp hafter
  obtain ⟨p', hp, hpair⟩ := Option.map_eq_some_iff.mp hparse
  obtain ⟨-, rfl⟩ := Prod.mk.inj hpair
  -- it is enough that the piece closes nothing that was open
  have hkept : 0 ≤ (a.1.map Parser.balance).sum → p'.stack ≠ [] := by
    intro hbalance hnil
    have hlength := Parser.length_advance hp
    have hpos : 0 < q.stack.length := List.length_pos_iff.mpr hstack
    rw [hnil, List.length_nil] at hlength
    omega
  obtain ⟨rest, htext⟩ := @text_record F layout numbers key value entries
  cases before with
  | between => exact hkept (balance_piece hprints hpiece ha)
  | string draft =>
      rw [htext] at hpiece
      exact hkept (advance_string hkey.ne_nil hkey.goes hkey.noWord draft hpiece ha).ge
  | word chars =>
      rcases piece with _ | ⟨c, piece⟩
      · rw [advance_nil ha] at hkept
        exact hkept le_rfl
      · rw [htext] at hpiece
        obtain ⟨rfl, _⟩ := List.cons_prefix_cons.mp hpiece
        exfalso
        rcases hvalue : word? chars.reverse with _ | leaf
        · have hstep : Lexer.step (.word chars) '\x7b' = none := by
            simp [Lexer.step, hvalue, Lexer.punctuation]
          rw [Lexer.advance, hstep] at ha
          cases ha
        · have hstep : Lexer.step (.word chars) '\x7b' =
              some ([.leaf leaf, .braceLeft], .between) := by
            simp [Lexer.step, hvalue, Lexer.punctuation, Lexer.start]
          rw [Lexer.advance_step hstep] at ha
          obtain ⟨b, _, rfl⟩ := Option.map_eq_some_iff.mp ha
          obtain ⟨next, hnext, hlater⟩ := Option.bind_eq_some_iff.mp hp
          have hnone := Parser.step_braceLeft_after_leaf hnext
          obtain ⟨last, hlast, _⟩ := Option.bind_eq_some_iff.mp hlater
          rw [hnone] at hlast
          cases hlast
  | escape draft =>
      rcases piece with _ | ⟨c, piece⟩
      · rw [advance_nil ha] at hkept
        exact hkept le_rfl
      · rw [htext] at hpiece
        obtain ⟨rfl, _⟩ := List.cons_prefix_cons.mp hpiece
        have hstep : Lexer.step (.escape draft) '\x7b' = none := rfl
        rw [Lexer.advance, hstep] at ha
        cases ha
  | unicode draft missing unit =>
      rcases piece with _ | ⟨c, piece⟩
      · rw [advance_nil ha] at hkept
        exact hkept le_rfl
      · rw [htext] at hpiece
        obtain ⟨rfl, _⟩ := List.cons_prefix_cons.mp hpiece
        have hstep : Lexer.step (.unicode draft missing unit) '\x7b' = none := rfl
        rw [Lexer.advance, hstep] at ha
        cases ha

/-- The parser is inside a container after the brace that opens it. -/
theorem entered_of_feed {chars : List Char} {state : Lexer} {p : Parser}
    (h : feed .between ⟨[], .value⟩ ('\x7b' :: chars) = some (state, p)) : Parser.Entered p := by
  have hstep : Lexer.step .between '\x7b' = some ([.braceLeft], .between) := by
    simp [Lexer.step, Lexer.start, Lexer.punctuation]
  rw [feed, Lexer.advance_step hstep, Option.bind_map] at h
  obtain ⟨a, _, hparse⟩ := Option.bind_eq_some_iff.mp h
  obtain ⟨q, hq, hpair⟩ := Option.map_eq_some_iff.mp hparse
  obtain ⟨-, rfl⟩ := Prod.mk.inj hpair
  have hinside : Parser.Entered ⟨[.dict [] none], .keyOrClose⟩ := Or.inl (by simp)
  exact hinside.advance hq

/-- Past the whole value no token is taken. -/
theorem advance_nothing {value : Json} {tokens : List Token} {p : Parser}
    (h : Parser.advance ⟨[], .nothing value⟩ tokens = some p) :
    tokens = [] ∧ p = ⟨[], .nothing value⟩ := by
  cases tokens with
  | nil => exact ⟨rfl, (Option.some.inj h).symm⟩
  | cons token tokens => cases h

/-- A record that was begun and not ended. -/
theorem lost_of_torn (hprints : Value.Prints numbers (.dict entries)) {piece : List Char}
    (hpiece : piece <+: Value.text layout numbers (.dict entries)) (hne : piece ≠ [])
    (htorn : piece ≠ Value.text layout numbers (.dict entries)) : Lost piece := by
  intro state p hfeed hnil
  obtain ⟨inner, htext⟩ := Value.text_dict_eq layout numbers entries
  obtain ⟨missing, hmissing⟩ := hpiece
  have hwhole := @Value.parse_text F layout numbers _ hprints
  rw [← hmissing] at hwhole htorn htext
  have hleft : missing ≠ [] := by
    rintro rfl
    exact htorn (List.append_nil piece).symm
  obtain ⟨c, chars, rfl⟩ := List.exists_cons_of_ne_nil hne
  rw [List.cons_append, List.cons.injEq] at htext
  obtain ⟨rfl, hinner⟩ := htext
  -- a parser that is through has no container open
  obtain ⟨whole, rfl⟩ : ∃ whole, p = ⟨[], .nothing whole⟩ := by
    rcases entered_of_feed hfeed with hstack | hdone
    · exact absurd hnil hstack
    · exact hdone
  rw [parse_eq_feed, feed_append, hfeed, Option.bind_some] at hwhole
  obtain ⟨⟨last, q⟩, hlast, hend⟩ := Option.bind_eq_some_iff.mp hwhole
  obtain ⟨a, ha, hparse⟩ := Option.bind_eq_some_iff.mp hlast
  obtain ⟨q', hq, hpair⟩ := Option.map_eq_some_iff.mp hparse
  obtain ⟨rfl, rfl⟩ := Prod.mk.inj hpair
  obtain ⟨htokens, rfl⟩ := advance_nothing hq
  obtain ⟨tokens, hrun, hvalue⟩ := Option.bind_eq_some_iff.mp hend
  have hnone : tokens = [] := by
    cases tokens with
    | nil => rfl
    | cons token tokens =>
        dsimp only at hvalue
        rw [parser_run_cons] at hvalue
        cases hvalue
  have hblank : Lexer.run state missing = some [] := by
    change Lexer.advance state missing = some a at ha
    rw [← List.append_nil missing, Lexer.run_append, ha]
    dsimp only [Option.bind_some] at hrun ⊢
    rw [hrun, hnone, htokens]
    rfl
  have hbrace : '\x7d' ∈ missing := by
    apply List.mem_of_getLast?
    rw [← List.getLast?_append_of_ne_nil chars hleft, hinner, List.getLast?_append]
    rfl
  have hnot := (Lexer.blank_of_run_eq_nil hblank).2 _ hbrace
  exact absurd hnot (by decide)

/-- A record that is there to its last brace, and nothing behind it. -/
theorem feed_text (hprints : Value.Prints numbers (.dict entries)) :
    ∃ whole, feed .between ⟨[], .value⟩ (Value.text layout numbers (.dict entries)) =
      some (.between, ⟨[], .nothing whole⟩) := by
  have hwhole := @Value.parse_text F layout numbers _ hprints
  obtain ⟨inner, htext⟩ := Value.text_dict_eq layout numbers entries
  rw [parse_eq_feed] at hwhole
  obtain ⟨⟨state, p⟩, hfeed, hend⟩ := Option.bind_eq_some_iff.mp hwhole
  obtain ⟨tokens, hrun, hvalue⟩ := Option.bind_eq_some_iff.mp hend
  -- the last character is the brace, behind which no token is under way
  have hstate : state = .between := by
    have hlast := hfeed
    rw [htext, ← List.cons_append, feed_append] at hlast
    obtain ⟨⟨before, q⟩, _, hbrace⟩ := Option.bind_eq_some_iff.mp hlast
    obtain ⟨a, ha, hparse⟩ := Option.bind_eq_some_iff.mp hbrace
    obtain ⟨_, _, hpair⟩ := Option.map_eq_some_iff.mp hparse
    obtain ⟨rfl, -⟩ := Prod.mk.inj hpair
    dsimp only at ha
    cases before with
    | between =>
        cases ha
        rfl
    | word chars =>
        rcases hleaf : word? chars.reverse with _ | leaf
        · have hstep : Lexer.step (.word chars) '\x7d' = none := by
            simp [Lexer.step, hleaf, Lexer.punctuation]
          rw [Lexer.advance, hstep] at ha
          cases ha
        · have hstep : Lexer.step (.word chars) '\x7d' =
              some ([.leaf leaf, .braceRight], .between) := by
            simp [Lexer.step, hleaf, Lexer.punctuation, Lexer.start]
          rw [Lexer.advance_step hstep] at ha
          cases ha
          rfl
    | string draft =>
        have hstep : Lexer.step (.string draft) '\x7d' =
            some ([], .string (draft.push '\x7d')) := by
          simp [Lexer.step]
        rw [Lexer.advance_step hstep] at ha
        cases ha
        cases hrun
    | escape draft => cases ha
    | unicode draft missing unit => cases ha
  subst hstate
  obtain rfl : [] = tokens := Option.some.inj hrun
  have hdone : p = ⟨[], .nothing _⟩ := Parser.run_nil_eq_some hvalue
  exact ⟨_, by rw [hfeed, hdone]⟩

/-- A record behind one that is whole. -/
theorem lost_of_whole (hprints : Value.Prints numbers (.dict entries))
    {entries' : List (String × Value F)} {piece : List Char}
    (hpiece : piece <+: Value.text layout numbers (.dict entries')) (hne : piece ≠ []) :
    Lost (Value.text layout numbers (.dict entries) ++ piece) := by
  intro state p hfeed
  obtain ⟨whole, htext⟩ := @feed_text F layout numbers entries hprints
  obtain ⟨inner, hrecord⟩ := Value.text_dict_eq layout numbers entries'
  obtain ⟨c, chars, rfl⟩ := List.exists_cons_of_ne_nil hne
  rw [hrecord] at hpiece
  obtain ⟨rfl, _⟩ := List.cons_prefix_cons.mp hpiece
  rw [feed_append, htext, Option.bind_some] at hfeed
  obtain ⟨a, ha, hparse⟩ := Option.bind_eq_some_iff.mp hfeed
  obtain ⟨q, hq, _⟩ := Option.map_eq_some_iff.mp hparse
  have hstep : Lexer.step .between '\x7b' = some ([.braceLeft], .between) := by
    simp [Lexer.step, Lexer.start, Lexer.punctuation]
  dsimp only at ha hq
  rw [Lexer.advance_step hstep] at ha
  obtain ⟨b, _, rfl⟩ := Option.map_eq_some_iff.mp ha
  have hempty := (advance_nothing hq).1
  cases hempty

end Records

end Json
