import TradeWatch.Lib.JsonNesting
import TradeWatch.Lib.PyText
import TradeWatch.Models

/-!
The streaming mapper: from a line of JSON to a tab-separated record keyed by
the symbol. What the `try` statement does not catch ends the task: an integer
price beyond every float, containers that are nested too deep, and a symbol that
cannot be encoded when it is written.
-/

namespace TradeWatch.Mapper

open PyFloat

variable {F : Type} [PyFloat F] (py : PyText F)

/-- The record of a trade: its symbol as text, if that can be encoded, its price
and its quantity. -/
abbrev Record (F : Type) := Option String × F × F

/-- The body of the `try` statement after the line is decoded. -/
def readTrade (trade : Json) : Except PyError (Record F) := do
  let symbol ← PyText.getItem "symbol" trade
  let price ← PyText.getItem "price" trade >>= py.float
  let quantity ← PyText.getItem "quantity" trade >>= py.float
  pure (py.str symbol, price, quantity)

/-- The whole body of the `try` statement. -/
def readLine (line : List Char) : Except PyError (Record F) :=
  match Json.loads py.nesting (String.ofList line) with
  | .error err => .error err
  | .ok trade => readTrade py trade

/-- `except (ValueError, KeyError, TypeError)`. -/
def caught : PyError → Bool
  | .valueError => true
  | .keyError => true
  | .typeError => true
  | .unicodeError => true
  | .zeroDivisionError => false
  | .overflowError => false
  | .indexError => false
  | .recursionError => false
  | .runtimeError _ => false

/-- `f"{symbol}\t{price}\t{quantity}\n"`. -/
def recordText (symbol : String) (price quantity : F) : List Char :=
  symbol.toList ++ '\t' :: (format price .plain).toList ++
    '\t' :: (format quantity .plain).toList ++ ['\n']

/-- `main`: what is written for the given lines. -/
def main : List (List Char) → List Char
  | [] => []
  | line :: rest =>
      let line := strip line
      if line.isEmpty then main rest
      else
        match readLine py line with
        | .error err => if caught err then main rest else []
        | .ok (some symbol, price, quantity) => recordText symbol price quantity ++ main rest
        | .ok (none, _, _) => []

/-- The trades that are accepted, up to the end of the lines or of the task. -/
def accepted : List (List Char) → List (Record F)
  | [] => []
  | line :: rest =>
      let line := strip line
      if line.isEmpty then accepted rest
      else
        match readLine py line with
        | .error err => if caught err then accepted rest else []
        | .ok (some symbol, price, quantity) => (some symbol, price, quantity) :: accepted rest
        | .ok (none, price, quantity) => [(none, price, quantity)]

/-- The record that is written for one trade, if one is. -/
def emitted (trade : Json) : Option (String × F × F) :=
  match readTrade py trade with
  | .ok (some symbol, price, quantity) => some (symbol, price, quantity)
  | .ok (none, _, _) => none
  | .error _ => none

end TradeWatch.Mapper
