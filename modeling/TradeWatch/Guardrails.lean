import Mathlib.Data.Finset.Card
import TradeWatch.Models

/-!
Input guardrails: the bounds that a trade has to meet before it may enter the
engine, and the cap on how many distinct symbols are let through. The pattern is
`^[A-Z0-9][A-Z0-9._\-]{0,31}$`, whose `$` also matches before a final line feed.
-/

namespace TradeWatch

open PyFloat

section Pattern

/-- `[A-Z0-9]`. -/
def isSymbolHead (c : Char) : Bool :=
  ('A' ≤ c && c ≤ 'Z') || ('0' ≤ c && c ≤ '9')

/-- `[A-Z0-9._\-]`. -/
def isSymbolChar (c : Char) : Bool := isSymbolHead c || c = '.' || c = '_' || c = '-'

/-- `$`: at the end, or before a line feed that ends the text. -/
def atEnd (rest : List Char) : Bool := rest = [] || rest = ['\n']

/-- `_SYMBOL_RE.match`: some number of repetitions up to 31 leads to the end. -/
def symbolRe (symbol : String) : Bool :=
  match symbol.toList with
  | [] => false
  | first :: rest =>
      isSymbolHead first && (List.range 32).any fun n =>
        n ≤ rest.length && (rest.take n).all isSymbolChar && atEnd (rest.drop n)

/-- The whole text, end to end, is a head and up to 31 further characters. -/
def SymbolFullMatch (symbol : String) : Prop :=
  ∃ first rest, symbol.toList = first :: rest ∧ isSymbolHead first ∧ rest.length ≤ 31 ∧
    ∀ c ∈ rest, isSymbolChar c

/-- Without a final line feed, a match is a match of the whole text. -/
theorem fullMatch_of_symbolRe {symbol : String} (hmatch : symbolRe symbol)
    (hlast : symbol.toList.getLast? ≠ some '\n') : SymbolFullMatch symbol := by
  unfold symbolRe at hmatch
  rcases htext : symbol.toList with _ | ⟨first, rest⟩
  · simp [htext] at hmatch
  · simp only [htext, Bool.and_eq_true, List.any_eq_true, List.mem_range, decide_eq_true_eq,
      List.all_eq_true] at hmatch
    obtain ⟨hfirst, n, hn, ⟨hlength, hchars⟩, hend⟩ := hmatch
    simp only [atEnd, Bool.or_eq_true, decide_eq_true_eq] at hend
    rcases hend with hnil | hnewline
    · have hall : rest.take n = rest := by
        rw [List.take_of_length_le]
        exact List.drop_eq_nil_iff.mp hnil
      rw [hall] at hchars
      have hshort : rest.length ≤ n := List.drop_eq_nil_iff.mp hnil
      exact ⟨first, rest, htext, hfirst, by omega, hchars⟩
    · have hsplit : symbol.toList = (first :: rest.take n) ++ ['\n'] := by
        rw [htext, List.cons_append, ← hnewline, List.take_append_drop]
      rw [hsplit, List.getLast?_concat] at hlast
      exact absurd rfl hlast

end Pattern

section Config

variable (F : Type) [PyFloat F]

structure GuardrailConfig where
  maxPrice : F := ofRat (10 ^ 9)
  maxQuantity : F := ofRat (10 ^ 12)
  maxNotional : F := ofRat (10 ^ 13)
  maxSymbolCardinality : ℤ := 10000
  requireSymbolPattern : Bool := true

end Config

inductive GuardrailResult
  | ok
  | rejected (reason code : String)
  deriving DecidableEq, Repr

variable {F : Type} [PyFloat F]

/-- The checks that depend on the trade alone. -/
def GuardrailConfig.WithinBounds (cfg : GuardrailConfig F) (trade : Trade F) : Prop :=
  (isFinite trade.price ∧ isFinite trade.quantity) ∧
    (cfg.requireSymbolPattern → symbolRe trade.symbol) ∧
    ¬ lt cfg.maxPrice trade.price ∧ ¬ lt cfg.maxQuantity trade.quantity ∧
    ¬ lt cfg.maxNotional trade.notional

instance (cfg : GuardrailConfig F) (trade : Trade F) : Decidable (cfg.WithinBounds trade) := by
  unfold GuardrailConfig.WithinBounds
  infer_instance

/-- The guardrails with the symbols they have let through, never more than the
configured number. -/
structure Guardrails (F : Type) [PyFloat F] where
  cfg : GuardrailConfig F
  symbols : Finset String
  capped : (symbols.card : ℤ) ≤ max 0 cfg.maxSymbolCardinality

namespace Guardrails

def init (cfg : GuardrailConfig F) : Guardrails F where
  cfg := cfg
  symbols := ∅
  capped := by simp

/-- `_symbols.add`, below the cap. -/
def register (g : Guardrails F) (symbol : String)
    (hroom : (g.symbols.card : ℤ) < g.cfg.maxSymbolCardinality) : Guardrails F where
  cfg := g.cfg
  symbols := insert symbol g.symbols
  capped := by
    have hcard := Finset.card_insert_le symbol g.symbols
    omega

def check (g : Guardrails F) (trade : Trade F) : GuardrailResult × Guardrails F :=
  if !(isFinite trade.price && isFinite trade.quantity) then
    (.rejected "non-finite price or quantity" "non_finite", g)
  else if g.cfg.requireSymbolPattern && !symbolRe trade.symbol then
    (.rejected ("symbol '" ++ trade.symbol ++ "' fails format policy") "bad_symbol", g)
  else if lt g.cfg.maxPrice trade.price then
    (.rejected ("price " ++ format trade.price .plain ++ " exceeds max " ++
      format g.cfg.maxPrice .plain) "price_bound", g)
  else if lt g.cfg.maxQuantity trade.quantity then
    (.rejected ("quantity " ++ format trade.quantity .plain ++ " exceeds max " ++
      format g.cfg.maxQuantity .plain) "qty_bound", g)
  else if lt g.cfg.maxNotional trade.notional then
    (.rejected ("notional " ++ format trade.notional (.fixed 0) ++ " exceeds max")
      "notional_bound", g)
  else if trade.symbol ∈ g.symbols then (.ok, g)
  else if hfull : g.cfg.maxSymbolCardinality ≤ g.symbols.card then
    (.rejected "symbol cardinality limit reached" "cardinality", g)
  else (.ok, g.register trade.symbol (not_le.mp hfull))

/-- Everything a check can do: let a trade through, whose symbol is then
registered, or reject it and leave the guardrails as they were. -/
inductive Verdict (g : Guardrails F) (trade : Trade F) :
    GuardrailResult → Guardrails F → Prop
  | known (hbounds : g.cfg.WithinBounds trade) (hknown : trade.symbol ∈ g.symbols) :
      Verdict g trade .ok g
  | registered (hbounds : g.cfg.WithinBounds trade) (hnew : trade.symbol ∉ g.symbols)
      (hroom : (g.symbols.card : ℤ) < g.cfg.maxSymbolCardinality) :
      Verdict g trade .ok (g.register trade.symbol hroom)
  | rejected (reason code : String) : Verdict g trade (.rejected reason code) g

theorem check_verdict (g : Guardrails F) (trade : Trade F) :
    Verdict g trade (g.check trade).1 (g.check trade).2 := by
  unfold check
  split_ifs with hfinite hpattern hprice hquantity hnotional hknown hfull
  · exact .rejected _ _
  · exact .rejected _ _
  · exact .rejected _ _
  · exact .rejected _ _
  · exact .rejected _ _
  · refine .known ⟨?_, ?_, hprice, hquantity, hnotional⟩ hknown
    · simpa using hfinite
    · simpa using hpattern
  · exact .rejected _ _
  · refine .registered ⟨?_, ?_, hprice, hquantity, hnotional⟩ hknown (not_le.mp hfull)
    · simpa using hfinite
    · simpa using hpattern

section Check

variable {g g' : Guardrails F} {trade : Trade F} {result : GuardrailResult}

theorem Verdict.cfg_eq (h : Verdict g trade result g') : g'.cfg = g.cfg := by
  cases h <;> rfl

theorem Verdict.eq_of_rejected {reason code : String}
    (h : Verdict g trade (.rejected reason code) g') : g' = g := by
  cases h
  rfl

theorem Verdict.withinBounds (h : Verdict g trade .ok g') : g.cfg.WithinBounds trade := by
  cases h <;> assumption

theorem Verdict.symbols_eq (h : Verdict g trade .ok g') :
    g'.symbols = insert trade.symbol g.symbols := by
  cases h with
  | known hbounds hknown => exact (Finset.insert_eq_of_mem hknown).symm
  | registered hbounds hnew hroom => rfl

end Check

end Guardrails

end TradeWatch
