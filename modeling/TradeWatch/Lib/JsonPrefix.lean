import TradeWatch.Lib.JsonTree

/-!
A text that opens a container is not JSON before the container is closed: no
shorter piece of an object decodes to anything. A reader that comes in the middle
of a write therefore sees an error and never another value.
-/

namespace Json

namespace Lexer

/-- The tokens that are complete after some characters, and the state. -/
def advance : Lexer → List Char → Option (List Token × Lexer)
  | state, [] => some ([], state)
  | state, c :: rest => do
      let (tokens, state) ← state.step c
      let (later, state) ← advance state rest
      some (tokens ++ later, state)

/-- The lexer goes through a text piece by piece. -/
theorem run_append (state : Lexer) (chars rest : List Char) :
    run state (chars ++ rest) =
      (advance state chars).bind (fun a => (run a.2 rest).map (a.1 ++ ·)) := by
  induction chars generalizing state with
  | nil => simp [advance]
  | cons c chars ih =>
      rw [List.cons_append, run_cons, advance]
      rcases hstep : state.step c with _ | ⟨tokens, next⟩
      · rfl
      · simp only [Option.bind_some, Option.bind_eq_bind, ih, Option.map_bind, Function.comp_def,
          Option.map_map, Option.bind_assoc, List.append_assoc]

/-- A step that completes no token and ends between tokens is over a blank. -/
theorem step_eq_between {state : Lexer} {c : Char} (h : state.step c = some ([], .between)) :
    state = .between ∧ isBlank c = true := by
  cases state with
  | between =>
      refine ⟨rfl, ?_⟩
      rw [step, Option.some.injEq, start] at h
      cases hpunctuation : punctuation c with
      | some token => simp [hpunctuation] at h
      | none =>
          rw [hpunctuation] at h
          dsimp only at h
          split_ifs at h with hquote hblank
          · exact absurd (congrArg Prod.snd h) (by simp)
          · exact hblank
          · exact absurd (congrArg Prod.snd h) (by simp)
  | word chars =>
      rw [step] at h
      split_ifs at h
      · rcases hword : word? chars.reverse with _ | value <;> simp [hword] at h
      · simp at h
  | string draft =>
      rw [step] at h
      split_ifs at h <;> simp at h
  | escape draft =>
      rw [step] at h
      split_ifs at h
      · simp at h
      · rcases hescape : simpleEscape c with _ | letter <;> simp [hescape] at h
  | unicode draft missing unit =>
      rw [step] at h
      rcases hdigit : hexDigit c with _ | digit
      · simp [hdigit] at h
      · rw [hdigit] at h
        simp only [Option.bind_eq_bind, Option.bind_some, Option.some.injEq] at h
        split_ifs at h <;> exact absurd (congrArg Prod.snd h) (by simp)

/-- Text without a token is blank, and no token is under way before it. -/
theorem blank_of_run_eq_nil {chars : List Char} {state : Lexer} (h : run state chars = some []) :
    state = .between ∧ ∀ c ∈ chars, isBlank c = true := by
  induction chars generalizing state with
  | nil =>
      cases state with
      | between => simp
      | word chars =>
          rw [run] at h
          rcases hword : word? chars.reverse with _ | value <;> simp [hword] at h
      | string draft => cases h
      | escape draft => cases h
      | unicode draft missing unit => cases h
  | cons c rest ih =>
      rw [run_cons] at h
      obtain ⟨⟨tokens, next⟩, hstep, hrest⟩ := Option.bind_eq_some_iff.mp h
      obtain ⟨later, hlater, happend⟩ := Option.map_eq_some_iff.mp hrest
      obtain ⟨rfl, rfl⟩ := List.append_eq_nil_iff.mp happend
      obtain ⟨rfl, hblank⟩ := ih hlater
      obtain ⟨hstate, hc⟩ := step_eq_between hstep
      exact ⟨hstate, List.forall_mem_cons.mpr ⟨hc, hblank⟩⟩

end Lexer

namespace Parser

/-- The parser after some tokens. -/
def advance : Parser → List Token → Option Parser
  | p, [] => some p
  | p, token :: rest => (p.step token).bind (advance · rest)

theorem run_append (p : Parser) (tokens later : List Token) :
    run p (tokens ++ later) = (advance p tokens).bind (run · later) := by
  induction tokens generalizing p with
  | nil => rfl
  | cons token tokens ih =>
      rw [List.cons_append, parser_run_cons, advance, Option.bind_assoc]
      congr 1
      funext next
      exact ih next

/-- The parser accepts where the value is complete. -/
theorem run_nil_eq_some {p : Parser} {value : Json} (h : run p [] = some value) :
    p = ⟨[], .nothing value⟩ := by
  unfold run at h
  split at h
  · cases h
    rfl
  · cases h
  · contradiction

/-- Within a container, or past the whole value. -/
def Entered (p : Parser) : Prop := p.stack ≠ [] ∨ ∃ value, p = ⟨[], .nothing value⟩

theorem entered_complete (value : Json) (stack : List Frame) :
    Entered (complete value stack) := by
  unfold complete
  split
  · exact Or.inr ⟨value, rfl⟩
  all_goals exact Or.inl (by simp)

/-- The value within a container is not the whole. -/
theorem complete_stack_ne_nil (value : Json) {stack : List Frame} (h : stack ≠ []) :
    (complete value stack).stack ≠ [] := by
  unfold complete
  split
  · exact absurd rfl h
  all_goals simp

theorem Entered.takeValue {stack : List Frame} {token : Token} {next : Parser}
    (h : takeValue stack token = some next) : Entered next := by
  unfold Parser.takeValue at h
  split at h
  · cases h
    exact entered_complete _ _
  · cases h
    exact Or.inl (by simp)
  · cases h
    exact Or.inl (by simp)
  · cases h

theorem Entered.takeKey {stack : List Frame} {token : Token} {next : Parser}
    (h : takeKey stack token = some next) : Entered next := by
  unfold Parser.takeKey at h
  split at h
  · cases h
    exact Or.inl (by simp)
  · cases h
    exact Or.inl (by simp)
  · cases h

theorem Entered.close {stack : List Frame} {token : Token} {next : Parser}
    (h : close stack token = some next) : Entered next := by
  unfold Parser.close at h
  split at h
  · cases h
    exact entered_complete _ _
  · cases h
    exact entered_complete _ _
  · cases h

theorem Entered.afterComma {stack : List Frame} {next : Parser}
    (h : afterComma stack = some next) : Entered next := by
  unfold Parser.afterComma at h
  split at h
  · cases h
    exact Or.inl (by simp)
  · cases h
    exact Or.inl (by simp)
  · cases h

/-- Once a container is open, one stays open until the whole value is complete. -/
theorem Entered.step {p next : Parser} {token : Token} (h : Entered p)
    (hstep : p.step token = some next) : Entered next := by
  rcases h with hstack | ⟨value, rfl⟩
  · unfold Parser.step at hstep
    split at hstep
    · exact Entered.takeValue hstep
    · split at hstep
      · exact Entered.close hstep
      · exact Entered.takeValue hstep
    · split at hstep
      · exact Entered.close hstep
      · exact Entered.takeKey hstep
    · exact Entered.takeKey hstep
    · split at hstep
      · cases hstep
        exact Or.inl hstack
      · cases hstep
    · split at hstep
      · exact Entered.afterComma hstep
      · exact Entered.close hstep
    · cases hstep
  · cases hstep

theorem Entered.advance {p next : Parser} {tokens : List Token} (h : Entered p)
    (hadvance : advance p tokens = some next) : Entered next := by
  induction tokens generalizing p with
  | nil =>
      cases hadvance
      exact h
  | cons token tokens ih =>
      obtain ⟨mid, hstep, hrest⟩ := Option.bind_eq_some_iff.mp hadvance
      exact ih (h.step hstep) hrest

/-- A literal or a string completes no container. -/
theorem Entered.leaf {p : Parser} (h : Entered p) (value whole : Json) :
    p.step (.leaf value) ≠ some ⟨[], .nothing whole⟩ := by
  intro hstep
  rcases h with hstack | ⟨value, rfl⟩
  · obtain ⟨stack, expect⟩ := p
    have hvalue : Parser.takeValue stack (.leaf value) ≠ some ⟨[], .nothing whole⟩ := by
      intro hvalue
      have hcomplete := complete_stack_ne_nil value hstack
      rw [Option.some.inj hvalue] at hcomplete
      exact hcomplete rfl
    have hkey : Parser.takeKey stack (.leaf value) ≠ some ⟨[], .nothing whole⟩ := by
      intro hkey
      unfold Parser.takeKey at hkey
      split at hkey <;> cases hkey
    have hclose : Parser.close stack (.leaf value) = none := by
      rcases stack with _ | ⟨_ | _, rest⟩ <;> rfl
    cases expect with
    | value => exact hvalue hstep
    | valueOrClose => exact hvalue hstep
    | keyOrClose => exact hkey hstep
    | key => exact hkey hstep
    | colon => cases hstep
    | commaOrClose => exact absurd (hclose.symm.trans hstep) (by simp)
    | nothing whole => cases hstep
  · cases hstep

end Parser

/-- No piece of a text that opens a container is JSON, if something is missing. -/
theorem parse_piece_eq_none {opening : Char} {token : Token}
    (hopening : Lexer.punctuation opening = some token)
    (hstart : ∃ frame expect, Parser.step ⟨[], .value⟩ token = some ⟨[frame], expect⟩)
    {chars missing : List Char}
    (hwhole : (parse (.ofList (opening :: (chars ++ missing)))).isSome)
    (hmissing : ∃ c ∈ missing, Lexer.isBlank c = false) :
    parse (.ofList (opening :: chars)) = none := by
  obtain ⟨frame, expect, hfirst⟩ := hstart
  obtain ⟨whole, hwhole⟩ := Option.isSome_iff_exists.mp hwhole
  have hread : ∀ rest : List Char, parse (.ofList (opening :: rest)) =
      (Lexer.run .between rest).bind (Parser.run ⟨[frame], expect⟩ ·) := by
    intro rest
    unfold parse
    rw [String.toList_ofList, Lexer.run_punctuation hopening]
    rcases Lexer.run .between rest with _ | tokens
    · rfl
    · exact (parser_run_cons _ _ _).trans (by rw [hfirst]; rfl)
  rw [hread] at hwhole
  obtain ⟨all, hall, hparse⟩ := Option.bind_eq_some_iff.mp hwhole
  rw [Lexer.run_append] at hall
  obtain ⟨⟨tokens, state⟩, hadvance, htokens⟩ := Option.bind_eq_some_iff.mp hall
  obtain ⟨later, hlater, rfl⟩ := Option.map_eq_some_iff.mp htokens
  rw [Parser.run_append] at hparse
  obtain ⟨p, hp, hrest⟩ := Option.bind_eq_some_iff.mp hparse
  have hentered : Parser.Entered p := Parser.Entered.advance (Or.inl (by simp)) hp
  -- what the piece alone decodes to would be complete after these tokens
  rw [Option.eq_none_iff_forall_ne_some]
  intro value hvalue
  rw [hread, ← List.append_nil chars, Lexer.run_append, hadvance] at hvalue
  obtain ⟨few, hfew, hshort⟩ := Option.bind_eq_some_iff.mp hvalue
  obtain ⟨last, hlast, rfl⟩ := Option.map_eq_some_iff.mp hfew
  rw [Parser.run_append, hp] at hshort
  change Parser.run p last = some value at hshort
  change Lexer.run state [] = some last at hlast
  cases state with
  | between =>
      obtain rfl : [] = last := Option.some.inj hlast
      rw [Parser.run_nil_eq_some hshort] at hrest
      cases later with
      | nil =>
          obtain ⟨c, hc, hblank⟩ := hmissing
          rw [(Lexer.blank_of_run_eq_nil hlater).2 c hc] at hblank
          cases hblank
      | cons token later =>
          rw [parser_run_cons] at hrest
          cases hrest
  | word word =>
      obtain ⟨leaf, _, rfl⟩ := Option.map_eq_some_iff.mp hlast
      rw [parser_run_cons] at hshort
      obtain ⟨next, hstep, hnext⟩ := Option.bind_eq_some_iff.mp hshort
      rw [Parser.run_nil_eq_some hnext] at hstep
      exact hentered.leaf leaf value hstep
  | string draft => cases hlast
  | escape draft => cases hlast
  | unicode draft missing unit => cases hlast

/-- The text of an object ends with its brace. -/
theorem Value.text_dict_eq {F : Type} (layout : Layout) (numbers : NumberText F)
    (entries : List (String × Value F)) :
    ∃ inner, text layout numbers (.dict entries) = '\x7b' :: (inner ++ ['\x7d']) := by
  cases entries with
  | nil => exact ⟨[], rfl⟩
  | cons entry entries =>
      refine ⟨stringText layout entry.1 ++ ':' :: (layout.gap ++
        (text layout numbers entry.2 ++ laterEntries layout numbers entries)), ?_⟩
      simp [text]

/-- A torn object decodes to nothing. -/
theorem Value.parse_torn {F : Type} {layout : Layout} {numbers : NumberText F}
    {entries : List (String × Value F)} (hprints : Prints numbers (.dict entries))
    {piece : List Char} (hpiece : piece <+: text layout numbers (.dict entries))
    (htorn : piece ≠ text layout numbers (.dict entries)) : parse (.ofList piece) = none := by
  have hwhole := @parse_text F layout numbers _ hprints
  obtain ⟨inner, htext⟩ := text_dict_eq layout numbers entries
  obtain ⟨missing, hmissing⟩ := hpiece
  rw [← hmissing] at htorn hwhole htext
  have hne : missing ≠ [] := by
    rintro rfl
    exact htorn (List.append_nil piece).symm
  cases piece with
  | nil => rfl
  | cons c chars =>
      rw [List.cons_append, List.cons.injEq] at htext
      obtain ⟨rfl, hinner⟩ := htext
      have hbrace : '\x7d' ∈ missing := by
        apply List.mem_of_getLast?
        rw [← List.getLast?_append_of_ne_nil chars hne, hinner, List.getLast?_append]
        rfl
      have hopening : Lexer.punctuation '\x7b' = some .braceLeft := rfl
      refine parse_piece_eq_none hopening ⟨.dict [] none, .keyOrClose, rfl⟩ ?_
        ⟨'\x7d', hbrace, rfl⟩
      rw [List.cons_append] at hwhole
      rw [hwhole]
      rfl

end Json
