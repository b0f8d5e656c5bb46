import TradeWatch.Lib.Json
import TradeWatch.Models

/-!
Trades as JSON. `Trade.model_validate` on a decoded object first reads every
field at its type and then checks the fields' own constraints. The formats that
pydantic takes for a number or a time are pydantic's own, so these two readers
are parameters; every other reader is spelled out.
-/

namespace TradeWatch

open PyFloat

variable {F : Type}

/-- How pydantic reads the fields of type `float` and `datetime`. -/
structure Pydantic (F : Type) where
  float : Json → Option F
  datetime : Json → Option ℚ

namespace Pydantic

/-- A field of type `str`, which takes nothing but a string. -/
def str : Json → Option String
  | .str text => some text
  | _ => none

/-- A field of type `str | None`. -/
def optionalStr : Json → Option (Option String)
  | .null => some none
  | value => (str value).map some

/-- A field of type `Side`, which is read by value. -/
def side (value : Json) : Option Side := do
  let text ← str value
  [Side.buy, Side.sell].find? (fun side => side.value = text)

/-- A field with a default. -/
def fieldOr {α : Type} (entries : List (String × Json)) (key : String) (default : α)
    (read : Json → Option α) : Option α :=
  match Json.lookup key entries with
  | none => some default
  | some value => read value

/-- A field without one. -/
def field {α : Type} (entries : List (String × Json)) (key : String)
    (read : Json → Option α) : Option α :=
  (Json.lookup key entries).bind read

end Pydantic

open Pydantic in
/-- The fields of a trade, each read at its type. Other entries are ignored. -/
def TradePayload.ofJson (pydantic : Pydantic F) : Json → Option (TradePayload F)
  | .dict entries => do
      let tradeId ← fieldOr entries "trade_id" none (fun value => (str value).map some)
      let timestamp ← fieldOr entries "timestamp" none
        (fun value => (pydantic.datetime value).map some)
      let symbol ← field entries "symbol" str
      let price ← field entries "price" pydantic.float
      let quantity ← field entries "quantity" pydantic.float
      let side ← fieldOr entries "side" .buy Pydantic.side
      let accountId ← fieldOr entries "account_id" none optionalStr
      let counterpartyId ← fieldOr entries "counterparty_id" none optionalStr
      let venue ← fieldOr entries "venue" none optionalStr
      let currency ← fieldOr entries "currency" "USD" str
      some
        { tradeId := tradeId
          timestamp := timestamp
          symbol := symbol
          price := price
          quantity := quantity
          side := side
          accountId := accountId
          counterpartyId := counterpartyId
          venue := venue
          currency := currency }
  | _ => none

/-- `Trade.model_validate` on a decoded JSON value. -/
def Trade.modelValidateJson [PyFloat F] (pydantic : Pydantic F) (cases : CaseMap)
    (newId : String) (utcnow : ℚ) (value : Json) : Option (Trade F) :=
  (TradePayload.ofJson pydantic value).bind (Trade.modelValidate cases newId utcnow)

/-- Numbers as they stand and no times, for runs on concrete inputs. -/
def Pydantic.numbers : Pydantic ℚ where
  float
    | .int n => some n
    | .float (.finite q) => some q
    | _ => none
  datetime _ := none

end TradeWatch
