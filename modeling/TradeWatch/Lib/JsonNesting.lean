import TradeWatch.Lib.JsonTree
import TradeWatch.Lib.PyFloat
import TradeWatch.Lib.Returns

/-!
The decoder as it runs: the lexer and the parser go over the text together and
Python opens no more than so many containers inside each other, so what raises
first decides. Text that opens few enough is decoded as if there were no bound.
-/

namespace Json

open StateExcept

section Decoder

variable (limit : ℕ+)

/-- The parser on the tokens that are ready. -/
def feedTokens : Parser → List Token → Except PyError Parser
  | p, [] => .ok p
  | p, token :: rest =>
      match p.step token with
      | none => .error .valueError
      | some q => if limit < q.stack.length then .error .recursionError else feedTokens q rest

/-- The end of the text. -/
def finish : Parser → Except PyError Json
  | ⟨[], .nothing value⟩ => .ok value
  | _ => .error .valueError

def scan : Lexer → Parser → List Char → Except PyError Json
  | lexer, p, [] =>
      match lexer.run [] with
      | none => .error .valueError
      | some tokens => feedTokens limit p tokens >>= finish
  | lexer, p, c :: rest =>
      match lexer.step c with
      | none => .error .valueError
      | some (tokens, next) => feedTokens limit p tokens >>= fun q => scan next q rest

/-- `json.loads(text)` of an interpreter that opens `limit` containers inside each
other. -/
def loads (text : String) : Except PyError Json := scan limit .between ⟨[], .value⟩ text.toList

theorem feedTokens_append (p : Parser) (first second : List Token) :
    feedTokens limit p (first ++ second) = feedTokens limit p first >>= fun q => feedTokens limit q second := by
  induction first generalizing p with
  | nil => rfl
  | cons token rest ih =>
      rw [List.cons_append, feedTokens, feedTokens]
      cases p.step token with
      | none => rfl
      | some q =>
          dsimp only
          split
          · rfl
          · exact ih q

/-- Where the text can be cut into tokens the parser may as well wait for all of
them. -/
theorem scan_eq_feedTokens {lexer : Lexer} {chars : List Char} {tokens : List Token}
    (h : lexer.run chars = some tokens) (p : Parser) :
    scan limit lexer p chars = feedTokens limit p tokens >>= finish := by
  induction chars generalizing lexer p tokens with
  | nil => rw [scan, h]
  | cons c rest ih =>
      rw [Lexer.run_cons] at h
      obtain ⟨⟨ready, next⟩, hstep, hlater⟩ := Option.bind_eq_some_iff.mp h
      obtain ⟨later, hrun, rfl⟩ := Option.map_eq_some_iff.mp hlater
      rw [scan, hstep, feedTokens_append, bind_assoc]
      exact bind_congr fun q => ih hrun q

/-- Tokens that are fed without an error are tokens that the parser takes. -/
theorem run_of_feedTokens {p q : Parser} {tokens : List Token} (h : feedTokens limit p tokens = .ok q)
    (later : List Token) : Parser.run p (tokens ++ later) = Parser.run q later := by
  induction tokens generalizing p with
  | nil =>
      cases h
      rfl
  | cons token rest ih =>
      rw [feedTokens] at h
      cases hstep : p.step token with
      | none =>
          rw [hstep] at h
          cases h
      | some next =>
          rw [hstep] at h
          dsimp only at h
          split at h
          · cases h
          · rw [List.cons_append, parser_run_cons, hstep, Option.bind_some, ih h]

theorem run_of_finish {p : Parser} {value : Json} (h : finish p = .ok value) :
    Parser.run p [] = some value := by
  obtain ⟨stack, expect⟩ := p
  cases stack <;> cases expect <;> cases h
  rfl

theorem run_of_scan {lexer : Lexer} {p : Parser} {chars : List Char} {value : Json}
    (h : scan limit lexer p chars = .ok value) :
    ∃ tokens, lexer.run chars = some tokens ∧ Parser.run p tokens = some value := by
  induction chars generalizing lexer p with
  | nil =>
      rw [scan] at h
      cases htokens : lexer.run [] with
      | none =>
          rw [htokens] at h
          cases h
      | some tokens =>
          rw [htokens] at h
          obtain ⟨q, hfeed, hfinish⟩ := exists_of_bind_eq_ok h
          have hrun := run_of_feedTokens limit hfeed []
          rw [List.append_nil, run_of_finish hfinish] at hrun
          exact ⟨tokens, rfl, hrun⟩
  | cons c rest ih =>
      rw [scan] at h
      cases hstep : lexer.step c with
      | none =>
          rw [hstep] at h
          cases h
      | some result =>
          obtain ⟨tokens, next⟩ := result
          rw [hstep] at h
          obtain ⟨q, hfeed, hscan⟩ := exists_of_bind_eq_ok h
          obtain ⟨later, hlater, hrun⟩ := ih hscan
          refine ⟨tokens ++ later, ?_, ?_⟩
          · rw [Lexer.run_cons, hstep, Option.bind_some, hlater]
            rfl
          · rw [run_of_feedTokens limit hfeed, hrun]

/-- What is decoded is the value of the text. -/
theorem parse_of_loads {text : String} {value : Json} (h : loads limit text = .ok value) :
    parse text = some value := by
  obtain ⟨tokens, htokens, hrun⟩ := run_of_scan limit h
  rw [parse, htokens]
  exact hrun

end Decoder

section Shallow

/-- The token opens a container. -/
def isOpening : Token → Bool
  | .braceLeft => true
  | .bracketLeft => true
  | _ => false

/-- How many containers the tokens open. -/
def opens (tokens : List Token) : ℕ := tokens.countP isOpening

theorem length_complete (value : Json) (stack : List Frame) :
    (Parser.complete value stack).stack.length = stack.length := by
  rcases stack with _ | ⟨_ | ⟨_, _ | _⟩, _⟩ <;> rfl

theorem length_takeValue {stack : List Frame} {q : Parser} {token : Token}
    (h : Parser.takeValue stack token = some q) :
    q.stack.length ≤ stack.length + opens [token] := by
  cases token with
  | leaf value =>
      cases h
      exact (length_complete value stack).le
  | braceLeft =>
      cases h
      exact le_rfl
  | bracketLeft =>
      cases h
      exact le_rfl
  | _ => cases h

theorem length_takeKey {stack : List Frame} {q : Parser} {token : Token}
    (h : Parser.takeKey stack token = some q) : q.stack.length ≤ stack.length := by
  unfold Parser.takeKey at h
  split at h
  · cases h
    exact le_rfl
  · cases h
    exact le_rfl
  · cases h

theorem length_close {stack : List Frame} {q : Parser} {token : Token}
    (h : Parser.close stack token = some q) : q.stack.length ≤ stack.length := by
  unfold Parser.close at h
  split at h
  · cases h
    exact (length_complete _ _).le.trans (Nat.le_succ _)
  · cases h
    exact (length_complete _ _).le.trans (Nat.le_succ _)
  · cases h

theorem length_afterComma {stack : List Frame} {q : Parser}
    (h : Parser.afterComma stack = some q) : q.stack.length ≤ stack.length := by
  unfold Parser.afterComma at h
  split at h <;> cases h <;> exact le_rfl

/-- One token more opens one container at most. -/
theorem length_step {p q : Parser} {token : Token} (h : p.step token = some q) :
    q.stack.length ≤ p.stack.length + opens [token] := by
  obtain ⟨stack, expect⟩ := p
  cases expect with
  | value => exact length_takeValue h
  | valueOrClose =>
      cases token with
      | bracketRight => exact (length_close h).trans (Nat.le_add_right _ _)
      | _ => exact length_takeValue h
  | keyOrClose =>
      cases token with
      | braceRight => exact (length_close h).trans (Nat.le_add_right _ _)
      | _ => exact (length_takeKey h).trans (Nat.le_add_right _ _)
  | key => exact (length_takeKey h).trans (Nat.le_add_right _ _)
  | colon =>
      cases token with
      | colon =>
          cases h
          exact Nat.le_add_right _ _
      | _ => cases h
  | commaOrClose =>
      cases token with
      | comma => exact (length_afterComma h).trans (Nat.le_add_right _ _)
      | _ => exact (length_close h).trans (Nat.le_add_right _ _)
  | nothing value => cases h

/-- A text that opens few enough containers is decoded to its value. -/
theorem feedTokens_of_opens {limit : ℕ+} {p : Parser} {tokens : List Token}
    (hfew : p.stack.length + opens tokens ≤ limit) {value : Json}
    (h : Parser.run p tokens = some value) : feedTokens limit p tokens >>= finish = .ok value := by
  induction tokens generalizing p with
  | nil =>
      obtain ⟨stack, expect⟩ := p
      cases stack <;> cases expect <;> cases h
      rfl
  | cons token rest ih =>
      rw [parser_run_cons] at h
      obtain ⟨q, hstep, hrun⟩ := Option.bind_eq_some_iff.mp h
      have hgrown := length_step hstep
      have hsplit : opens (token :: rest) = opens [token] + opens rest := by
        rw [← List.singleton_append, opens, List.countP_append]
        rfl
      rw [feedTokens, hstep]
      dsimp only
      rw [if_neg (by omega)]
      exact ih (by omega) hrun

theorem loads_of_run {limit : ℕ+} {text : String} {tokens : List Token}
    (htokens : Lexer.run .between text.toList = some tokens) (hfew : opens tokens ≤ limit)
    {value : Json} (h : parse text = some value) : loads limit text = .ok value := by
  rw [parse, htokens] at h
  rw [loads, scan_eq_feedTokens limit htokens]
  refine feedTokens_of_opens ?_ h
  rwa [List.length_nil, Nat.zero_add]

theorem Value.loads_text {F : Type} {layout : Layout} {numbers : NumberText F} {limit : ℕ+}
    {value : Value F} (hprints : Prints numbers value) (hfew : opens (tokens numbers value) ≤ limit) :
    loads limit (.ofList (text layout numbers value)) = .ok (toJson numbers value) := by
  have hends : Stops [] := by simp [Stops]
  have htokens := @run_text F layout numbers value hprints [] hends
  rw [List.append_nil, Lexer.run, Option.map_some, List.append_nil,
    ← String.toList_ofList (l := text layout numbers value)] at htokens
  exact loads_of_run htokens hfew (parse_text hprints)

/-- The text of a flat object opens one. -/
theorem loads_dumps {F : Type} {numbers : NumberText F} {entries : List (String × Scalar F)}
    (limit : ℕ+) (hprints : ∀ entry ∈ entries, entry.2.Prints numbers) :
    loads limit (.ofList (dumps numbers entries)) = .ok (toDict numbers entries) := by
  have htokens := run_dumps hprints
  rw [← String.toList_ofList (l := dumps numbers entries)] at htokens
  refine loads_of_run htokens ?_ (parse_dumps hprints)
  have hlater : ∀ later : List (String × Scalar F), opens (laterTokens numbers later) = 0 := by
    intro later
    refine List.countP_eq_zero.mpr fun token htoken => ?_
    obtain ⟨entry, _, hmem⟩ := List.mem_flatMap.mp htoken
    simp only [entryTokens, List.mem_cons, List.not_mem_nil, or_false] at hmem
    rcases hmem with rfl | rfl | rfl | rfl <;> simp [isOpening]
  have hone : opens (dictTokens numbers entries) = 1 := by
    cases entries with
    | nil => rfl
    | cons entry rest =>
        have hrest := hlater rest
        rw [opens] at hrest
        simp [dictTokens, entryTokens, opens, isOpening, List.countP_cons, hrest]
  rw [hone]
  exact limit.pos

end Shallow

end Json
