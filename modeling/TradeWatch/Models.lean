import TradeWatch.Lib.PyFloat

/-!
The domain models: trades as they enter the engine and alerts as they leave
it. A `Trade` carries the positivity that validation checks, and an alert's
score carries the range that `Alert.build` clamps it to, so neither has to be
checked again downstream. A trade's timestamp is the instant of its datetime in
seconds; what `timestamp()` reads of it is up to `EventTime`.

An alert's `alert_id` and creation time are drawn fresh and nothing in the
program reads them back, so they are left out.
-/

namespace TradeWatch

open PyFloat

inductive Side
  | buy
  | sell
  deriving DecidableEq, Repr

def Side.value : Side → String
  | .buy => "buy"
  | .sell => "sell"

inductive Severity
  | low
  | medium
  | high
  | critical
  deriving DecidableEq, Repr

def Severity.value : Severity → String
  | .low => "low"
  | .medium => "medium"
  | .high => "high"
  | .critical => "critical"

def Severity.rank : Severity → ℕ
  | .low => 0
  | .medium => 1
  | .high => 2
  | .critical => 3

/-- A validated trade. -/
structure Trade (F : Type) [PyFloat F] where
  tradeId : String
  timestamp : ℚ
  symbol : String
  price : F
  quantity : F
  side : Side
  accountId : Option String
  counterpartyId : Option String
  venue : Option String
  currency : String
  price_pos : lt (ofRat 0) price
  quantity_pos : lt (ofRat 0) quantity
  deriving DecidableEq

def Trade.notional {F : Type} [PyFloat F] (trade : Trade F) : F :=
  mul trade.price trade.quantity

theorem Trade.price_pos_real (trade : Trade ℝ) : 0 < trade.price := by
  simpa using trade.price_pos

theorem Trade.quantity_pos_real (trade : Trade ℝ) : 0 < trade.quantity := by
  simpa using trade.quantity_pos

/-- A trade with a real price, for concrete inputs. -/
noncomputable def realTradeAt (timestamp : ℚ) : Trade ℝ where
  tradeId := "t"
  timestamp := timestamp
  symbol := "ACME"
  price := (100 : ℚ)
  quantity := 1
  side := .buy
  accountId := none
  counterpartyId := none
  venue := none
  currency := "USD"
  price_pos := by simp
  quantity_pos := by simp

/-- The truth value of an optional string: neither missing nor empty. -/
def truthy : Option String → Bool
  | none => false
  | some text => text != ""

section Validation

/-- The characters that `str.strip()` removes. -/
def isSpace (c : Char) : Bool :=
  let n := c.toNat
  (9 ≤ n && n ≤ 13) || (28 ≤ n && n ≤ 32) || n == 0x85 || n == 0xA0 || n == 0x1680 ||
    (0x2000 ≤ n && n ≤ 0x200A) || n == 0x2028 || n == 0x2029 || n == 0x202F ||
    n == 0x205F || n == 0x3000

def strip (chars : List Char) : List Char :=
  ((chars.dropWhile isSpace).reverse.dropWhile isSpace).reverse

/-- Unicode's full uppercase mapping, one character to one or several. Apart
from ASCII, all that is relied on is that a line feed only comes from a line
feed. -/
structure CaseMap where
  upper : Char → List Char
  nonempty : ∀ c, upper c ≠ []
  ascii : ∀ c, c.toNat < 128 → upper c = [c.toUpper]
  newline : ∀ c, '\n' ∈ upper c → c = '\n'

/-- The mapping on ASCII text; nothing else is changed. -/
def CaseMap.asciiOnly : CaseMap where
  upper c := [c.toUpper]
  nonempty := by simp
  ascii := by simp
  newline := by
    intro c h
    rw [List.mem_singleton] at h
    delta Char.toUpper at h
    split at h
    · rename_i hlower
      have hval : (10 : UInt32) = c.val + ('A'.val - 'a'.val) := congrArg Char.val h
      have hc : c.val = 10 - ('A'.val - 'a'.val) := by rw [hval, UInt32.add_sub_cancel]
      rw [hc] at hlower
      exact absurd hlower.1 (by decide)
    · exact h.symm

/-- `v.strip().upper()`. -/
def upperSymbol (cases : CaseMap) (raw : String) : String :=
  String.ofList ((strip raw.toList).flatMap cases.upper)

/-- The fields of a submitted trade before validation. -/
structure TradePayload (F : Type) where
  tradeId : Option String := none
  timestamp : Option ℚ := none
  symbol : String
  price : F
  quantity : F
  side : Side := .buy
  accountId : Option String := none
  counterpartyId : Option String := none
  venue : Option String := none
  currency : String := "USD"

/-- `Trade.model_validate`: the length bounds are checked on the raw symbol,
before it is normalised. A missing id or time takes the given default. -/
def Trade.modelValidate {F : Type} [PyFloat F] (cases : CaseMap) (newId : String)
    (utcnow : ℚ) (payload : TradePayload F) : Option (Trade F) :=
  if hprice : lt (ofRat 0) payload.price then
    if hquantity : lt (ofRat 0) payload.quantity then
      if 1 ≤ payload.symbol.length ∧ payload.symbol.length ≤ 32 then
        some
          { tradeId := payload.tradeId.getD newId
            timestamp := payload.timestamp.getD utcnow
            symbol := upperSymbol cases payload.symbol
            price := payload.price
            quantity := payload.quantity
            side := payload.side
            accountId := payload.accountId
            counterpartyId := payload.counterpartyId
            venue := payload.venue
            currency := payload.currency
            price_pos := hprice
            quantity_pos := hquantity }
      else none
    else none
  else none

theorem Trade.modelValidate_symbol {F : Type} [PyFloat F] {cases : CaseMap}
    {newId : String} {utcnow : ℚ} {payload : TradePayload F} {trade : Trade F}
    (h : Trade.modelValidate cases newId utcnow payload = some trade) :
    trade.symbol = upperSymbol cases payload.symbol := by
  unfold Trade.modelValidate at h
  split_ifs at h
  rw [← Option.some.inj h]

/-- What is left after `strip` does not end in white space. -/
theorem getLast?_strip {chars : List Char} {c : Char}
    (h : (strip chars).getLast? = some c) : isSpace c = false := by
  rw [strip, List.getLast?_reverse] at h
  simpa [h] using List.head?_dropWhile_not isSpace (chars.dropWhile isSpace).reverse

/-- A normalised symbol never ends in a line feed: stripping removes one, and
no other character is capitalised into one. -/
theorem upperSymbol_no_trailing_newline (cases : CaseMap) (raw : String) :
    (upperSymbol cases raw).toList.getLast? ≠ some '\n' := by
  intro h
  rw [upperSymbol, String.toList_ofList] at h
  cases hlast : (strip raw.toList).getLast? with
  | none =>
      rw [List.getLast?_eq_none_iff] at hlast
      simp [hlast] at h
  | some c =>
      have hspace : isSpace c = false := getLast?_strip hlast
      obtain ⟨front, hfront⟩ := List.getLast?_eq_some_iff.mp hlast
      rw [hfront, List.flatMap_append, List.flatMap_singleton] at h
      have hupper : '\n' ∈ cases.upper c := by
        apply List.mem_of_getLast?
        rwa [List.getLast?_append_of_ne_nil _ (cases.nonempty c)] at h
      rw [cases.newline c hupper] at hspace
      exact absurd hspace (by decide)

end Validation

/-- A trade of an account with itself, for runs on concrete inputs. -/
def selfTradeAt (tradeId : String) (timestamp : ℚ) : Trade ℚ where
  tradeId := tradeId
  timestamp := timestamp
  symbol := "ACME"
  price := 100
  quantity := 1
  side := .buy
  accountId := some "acct-1"
  counterpartyId := some "acct-1"
  venue := none
  currency := "USD"
  price_pos := by decide +kernel
  quantity_pos := by decide +kernel

/-- A number in `[0, 1]`. -/
structure Score (F : Type) [PyFloat F] where
  value : F
  nonneg : le (ofRat 0) value
  le_one : le value (ofRat 1)
  deriving DecidableEq

/-- `max(0.0, min(1.0, score))`. -/
def Score.clamp {F : Type} [PyFloat F] (score : F) : Score F where
  value := pyMax (ofRat 0) (pyMin (ofRat 1) score)
  nonneg := (clamp_bounds (ofRat_refl 0) (ofRat_refl 1) (ofRat_le (by norm_num)) score).1
  le_one := (clamp_bounds (ofRat_refl 0) (ofRat_refl 1) (ofRat_le (by norm_num)) score).2

/-- A value in an alert's details. -/
inductive Detail (F : Type)
  | float (x : F)
  | seconds (x : ℚ)
  | int (n : ℤ)
  | text (s : String)
  | floats (xs : List F)
  deriving DecidableEq

/-- An anomaly raised against a trade by a detector. -/
structure Alert (F : Type) [PyFloat F] where
  tradeId : String
  symbol : String
  detector : String
  severity : Severity
  score : Score F
  reason : String
  details : List (String × Detail F)
  deriving DecidableEq

def Alert.build {F : Type} [PyFloat F] (trade : Trade F) (detector : String)
    (severity : Severity) (score : F) (reason : String)
    (details : List (String × Detail F)) : Alert F where
  tradeId := trade.tradeId
  symbol := trade.symbol
  detector := detector
  severity := severity
  score := Score.clamp score
  reason := reason
  details := details

/-- The alert that such a trade may raise. -/
def selfTradeAlert : Alert ℚ :=
  .build (selfTradeAt "a" 0) "wash_trade" .critical 1 "self-trade" []

end TradeWatch
