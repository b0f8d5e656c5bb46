import TradeWatch.Hadoop.Mapper
import TradeWatch.Wire

/-!
The two validators of a JSON trade: the mapper's `try` statement and
`Trade.model_validate`. The mapper asks for less and normalises nothing, so the
layers agree on an object exactly when what the mapper reads from it already is
a normalised valid trade.
-/

namespace TradeWatch

open PyFloat

variable {F : Type} [PyFloat F]

/-- The mapper reads a record from an object with these entries. -/
structure Mapper.Reads (py : PyText F) (entries : List (String × Json)) (symbol : String)
    (price quantity : F) : Prop where
  symbol_text : (Json.lookup "symbol" entries).bind py.str = some symbol
  price_float : (Json.lookup "price" entries).map py.float = some (.ok price)
  quantity_float : (Json.lookup "quantity" entries).map py.float = some (.ok quantity)

/-- The record that a validated trade stands for. -/
def Trade.record (trade : Trade F) : String × F × F := (trade.symbol, trade.price, trade.quantity)

/-- Every field apart from symbol, price and quantity is absent or of its type. -/
structure OtherFieldsFit (pydantic : Pydantic F) (entries : List (String × Json)) : Prop where
  tradeId : ∀ value, Json.lookup "trade_id" entries = some value → (Pydantic.str value).isSome
  timestamp : ∀ value, Json.lookup "timestamp" entries = some value →
    (pydantic.datetime value).isSome
  side : ∀ value, Json.lookup "side" entries = some value → (Pydantic.side value).isSome
  accountId : ∀ value, Json.lookup "account_id" entries = some value →
    (Pydantic.optionalStr value).isSome
  counterpartyId : ∀ value, Json.lookup "counterparty_id" entries = some value →
    (Pydantic.optionalStr value).isSome
  venue : ∀ value, Json.lookup "venue" entries = some value →
    (Pydantic.optionalStr value).isSome
  currency : ∀ value, Json.lookup "currency" entries = some value → (Pydantic.str value).isSome

/-- The object is a valid trade whose symbol is normalised already. -/
structure NormalTrade (pydantic : Pydantic F) (cases : CaseMap)
    (entries : List (String × Json)) (symbol : String) (price quantity : F) : Prop where
  symbol_str : Json.lookup "symbol" entries = some (.str symbol)
  symbol_length : 1 ≤ symbol.length ∧ symbol.length ≤ 32
  symbol_normal : upperSymbol cases symbol = symbol
  price_read : (Json.lookup "price" entries).bind pydantic.float = some price
  price_pos : lt (ofRat 0) price
  quantity_read : (Json.lookup "quantity" entries).bind pydantic.float = some quantity
  quantity_pos : lt (ofRat 0) quantity
  others : OtherFieldsFit pydantic entries

/-- What pydantic documents of numbers: a value that a field of type `float`
takes is one that `float` reads, and it reads as the same number. -/
def Pydantic.ReadsLikeFloat (pydantic : Pydantic F) (py : PyText F) : Prop :=
  ∀ value x, pydantic.float value = some x → py.float value = .ok x

theorem Mapper.readTrade_eq_ok_iff {py : PyText F} {entries : List (String × Json)}
    {text : Option String} {price quantity : F} :
    readTrade py (.dict entries) = .ok (text, price, quantity) ↔
      (∃ value, Json.lookup "symbol" entries = some value ∧ py.str value = text) ∧
        (Json.lookup "price" entries).map py.float = some (.ok price) ∧
        (Json.lookup "quantity" entries).map py.float = some (.ok quantity) := by
  unfold readTrade PyText.getItem
  rcases hsymbol : Json.lookup "symbol" entries with _ | s
  · simp [bind, Except.bind, hsymbol]
  rcases hprice : Json.lookup "price" entries with _ | p
  · simp [bind, Except.bind, hsymbol, hprice]
  rcases hquantity : Json.lookup "quantity" entries with _ | q
  · rcases hp : py.float p with err | x <;>
      simp [bind, Except.bind, hsymbol, hprice, hquantity, hp]
  rcases hp : py.float p with err | x
  · simp [bind, Except.bind, hsymbol, hprice, hp]
  rcases hq : py.float q with err | y
  · simp [bind, Except.bind, hsymbol, hprice, hquantity, hp, hq]
  · simp [bind, Except.bind, pure, Except.pure, hsymbol, hprice, hquantity, hp, hq]

theorem Mapper.emitted_eq_some_iff {py : PyText F} {entries : List (String × Json)}
    {symbol : String} {price quantity : F} :
    emitted py (.dict entries) = some (symbol, price, quantity) ↔
      Reads py entries symbol price quantity := by
  have hread : emitted py (.dict entries) = some (symbol, price, quantity) ↔
      readTrade py (.dict entries) = .ok (some symbol, price, quantity) := by
    unfold emitted
    rcases readTrade py (.dict entries) with err | ⟨_ | text, p, q⟩ <;> simp
  rw [hread, readTrade_eq_ok_iff]
  constructor
  · rintro ⟨⟨value, hvalue, htext⟩, hprice, hquantity⟩
    exact ⟨by rw [hvalue]; exact htext, hprice, hquantity⟩
  · rintro ⟨hsymbol, hprice, hquantity⟩
    exact ⟨Option.bind_eq_some_iff.mp hsymbol, hprice, hquantity⟩

theorem Pydantic.fieldOr_eq_some {α : Type} (entries : List (String × Json)) (key : String)
    (default : α) (read : Json → Option α) :
    (∃ x, fieldOr entries key default read = some x) ↔
      ∀ value, Json.lookup key entries = some value → (read value).isSome := by
  unfold fieldOr
  rcases Json.lookup key entries with _ | value
  · simp
  · simp [Option.isSome_iff_exists]

omit [PyFloat F] in
/-- Reading the fields succeeds when the three fields without a default are
there and every field is of its type. -/
theorem TradePayload.ofJson_iff {pydantic : Pydantic F} {entries : List (String × Json)}
    {symbol : String} {price quantity : F} :
    (∃ payload, TradePayload.ofJson pydantic (.dict entries) = some payload ∧
      payload.symbol = symbol ∧ payload.price = price ∧ payload.quantity = quantity) ↔
    (Json.lookup "symbol" entries).bind Pydantic.str = some symbol ∧
      (Json.lookup "price" entries).bind pydantic.float = some price ∧
      (Json.lookup "quantity" entries).bind pydantic.float = some quantity ∧
      OtherFieldsFit pydantic entries := by
  have hmap : ∀ (value : Json), ((Pydantic.str value).map some).isSome =
      (Pydantic.str value).isSome := fun value => Option.isSome_map
  have htime : ∀ (value : Json), ((pydantic.datetime value).map some).isSome =
      (pydantic.datetime value).isSome := fun value => Option.isSome_map
  constructor
  · rintro ⟨payload, h, rfl, rfl, rfl⟩
    simp only [TradePayload.ofJson, Option.bind_eq_bind, Option.bind_eq_some_iff] at h
    obtain ⟨tradeId, htradeId, timestamp, htimestamp, symbol, hsymbol, price, hprice, quantity,
      hquantity, side, hside, accountId, haccount, counterpartyId, hcounterparty, venue, hvenue,
      currency, hcurrency, hpayload⟩ := h
    obtain rfl := Option.some.inj hpayload
    refine ⟨hsymbol, hprice, hquantity, ?_⟩
    exact
      { tradeId := by simpa only [hmap] using (Pydantic.fieldOr_eq_some _ _ _ _).mp ⟨_, htradeId⟩
        timestamp := by
          simpa only [htime] using (Pydantic.fieldOr_eq_some _ _ _ _).mp ⟨_, htimestamp⟩
        side := (Pydantic.fieldOr_eq_some _ _ _ _).mp ⟨_, hside⟩
        accountId := (Pydantic.fieldOr_eq_some _ _ _ _).mp ⟨_, haccount⟩
        counterpartyId := (Pydantic.fieldOr_eq_some _ _ _ _).mp ⟨_, hcounterparty⟩
        venue := (Pydantic.fieldOr_eq_some _ _ _ _).mp ⟨_, hvenue⟩
        currency := (Pydantic.fieldOr_eq_some _ _ _ _).mp ⟨_, hcurrency⟩ }
  · rintro ⟨hsymbol, hprice, hquantity, hothers⟩
    obtain ⟨tradeId, htradeId⟩ := (Pydantic.fieldOr_eq_some entries "trade_id" none
      (fun value => (Pydantic.str value).map some)).mpr
        (by simpa only [hmap] using hothers.tradeId)
    obtain ⟨timestamp, htimestamp⟩ := (Pydantic.fieldOr_eq_some entries "timestamp" none
      (fun value => (pydantic.datetime value).map some)).mpr
        (by simpa only [htime] using hothers.timestamp)
    obtain ⟨side, hside⟩ :=
      (Pydantic.fieldOr_eq_some entries "side" .buy Pydantic.side).mpr hothers.side
    obtain ⟨accountId, haccount⟩ := (Pydantic.fieldOr_eq_some entries "account_id" none
      Pydantic.optionalStr).mpr hothers.accountId
    obtain ⟨counterpartyId, hcounterparty⟩ := (Pydantic.fieldOr_eq_some entries
      "counterparty_id" none Pydantic.optionalStr).mpr hothers.counterpartyId
    obtain ⟨venue, hvenue⟩ := (Pydantic.fieldOr_eq_some entries "venue" none
      Pydantic.optionalStr).mpr hothers.venue
    obtain ⟨currency, hcurrency⟩ :=
      (Pydantic.fieldOr_eq_some entries "currency" "USD" Pydantic.str).mpr hothers.currency
    refine ⟨⟨tradeId, timestamp, symbol, price, quantity, side, accountId, counterpartyId, venue,
      currency⟩, ?_, rfl, rfl, rfl⟩
    simp only [TradePayload.ofJson, Option.bind_eq_bind, Pydantic.field, htradeId, htimestamp,
      hsymbol, hprice, hquantity, hside, haccount, hcounterparty, hvenue, hcurrency,
      Option.bind_some]

theorem Trade.modelValidate_record {cases : CaseMap} {newId : String} {utcnow : ℚ}
    {payload : TradePayload F} {record : String × F × F} :
    (Trade.modelValidate cases newId utcnow payload).map Trade.record = some record ↔
      lt (ofRat 0) payload.price ∧ lt (ofRat 0) payload.quantity ∧
        (1 ≤ payload.symbol.length ∧ payload.symbol.length ≤ 32) ∧
        record = (upperSymbol cases payload.symbol, payload.price, payload.quantity) := by
  unfold Trade.modelValidate
  split_ifs with hprice hquantity hlength
  · simp only [Option.map_some, Option.some.injEq, hprice, hquantity, hlength, true_and]
    exact eq_comm
  · simp [hlength]
  · simp [hquantity]
  · simp [hprice]

/-- What an object has to hold to be a valid trade with this record. -/
theorem Trade.modelValidateJson_iff {pydantic : Pydantic F} {cases : CaseMap} {newId : String}
    {utcnow : ℚ} {entries : List (String × Json)} {record : String × F × F} :
    (Trade.modelValidateJson pydantic cases newId utcnow (.dict entries)).map Trade.record =
        some record ↔
      ∃ symbol price quantity,
        ((Json.lookup "symbol" entries).bind Pydantic.str = some symbol ∧
          (Json.lookup "price" entries).bind pydantic.float = some price ∧
          (Json.lookup "quantity" entries).bind pydantic.float = some quantity ∧
          OtherFieldsFit pydantic entries) ∧
        lt (ofRat 0) price ∧ lt (ofRat 0) quantity ∧
          (1 ≤ symbol.length ∧ symbol.length ≤ 32) ∧
          record = (upperSymbol cases symbol, price, quantity) := by
  unfold Trade.modelValidateJson
  constructor
  · intro h
    obtain ⟨trade, htrade, hrecord⟩ := Option.map_eq_some_iff.mp h
    obtain ⟨payload, hpayload, hvalid⟩ := Option.bind_eq_some_iff.mp htrade
    have hchecked : (Trade.modelValidate cases newId utcnow payload).map Trade.record =
        some record := by
      rw [hvalid, Option.map_some, hrecord]
    exact ⟨payload.symbol, payload.price, payload.quantity,
      TradePayload.ofJson_iff.mp ⟨payload, hpayload, rfl, rfl, rfl⟩,
      Trade.modelValidate_record.mp hchecked⟩
  · rintro ⟨symbol, price, quantity, hfields, hchecks⟩
    obtain ⟨payload, hpayload, rfl, rfl, rfl⟩ := TradePayload.ofJson_iff.mpr hfields
    rw [hpayload, Option.bind_some]
    exact Trade.modelValidate_record.mpr hchecks

theorem Pydantic.str_eq_some {value : Json} {text : String} :
    Pydantic.str value = some text ↔ value = .str text := by
  cases value <;> simp [Pydantic.str]

/-- What Trade accepts the mapper reads, under the symbol as it stands. -/
theorem Mapper.reads_of_valid {py : PyText F} {pydantic : Pydantic F}
    (hdoc : pydantic.ReadsLikeFloat py) {entries : List (String × Json)} {symbol : String}
    {price quantity : F} (hsymbol : (Json.lookup "symbol" entries).bind Pydantic.str = some symbol)
    (hprice : (Json.lookup "price" entries).bind pydantic.float = some price)
    (hquantity : (Json.lookup "quantity" entries).bind pydantic.float = some quantity) :
    Reads py entries symbol price quantity := by
  have hfloat : ∀ {key : String} {x : F},
      (Json.lookup key entries).bind pydantic.float = some x →
        (Json.lookup key entries).map py.float = some (.ok x) := by
    intro key x h
    obtain ⟨value, hvalue, hread⟩ := Option.bind_eq_some_iff.mp h
    rw [hvalue, Option.map_some, hdoc value x hread]
  refine ⟨?_, hfloat hprice, hfloat hquantity⟩
  obtain ⟨value, hvalue, htext⟩ := Option.bind_eq_some_iff.mp hsymbol
  rw [hvalue, Pydantic.str_eq_some.mp htext]
  rfl

/-- The mapper emits for an object exactly the record of its trade, and nothing
when it is no trade. -/
def LayersAgree (py : PyText F) (pydantic : Pydantic F) (cases : CaseMap) (newId : String)
    (utcnow : ℚ) (entries : List (String × Json)) : Prop :=
  Mapper.emitted py (.dict entries) =
    (Trade.modelValidateJson pydantic cases newId utcnow (.dict entries)).map Trade.record

/-- Where the layers agree on two trades, these share a group of the reducer
exactly when they share a window of the engine. -/
theorem LayersAgree.same_group {py : PyText F} {pydantic : Pydantic F} {cases : CaseMap}
    {newId newId' : String} {utcnow utcnow' : ℚ} {entries entries' : List (String × Json)}
    (h : LayersAgree py pydantic cases newId utcnow entries)
    (h' : LayersAgree py pydantic cases newId' utcnow' entries') {trade trade' : Trade F}
    (hvalid : Trade.modelValidateJson pydantic cases newId utcnow (.dict entries) = some trade)
    (hvalid' : Trade.modelValidateJson pydantic cases newId' utcnow' (.dict entries') =
      some trade') :
    (Mapper.emitted py (.dict entries)).map Prod.fst =
        (Mapper.emitted py (.dict entries')).map Prod.fst ↔
      trade.symbol = trade'.symbol := by
  unfold LayersAgree at h h'
  rw [h, h', hvalid, hvalid']
  simp [Trade.record]

/-- The layers agree on an object if and only if whatever the mapper reads from
it is a valid trade with a normalised symbol. -/
theorem layers_agree_iff (py : PyText F) (pydantic : Pydantic F) (cases : CaseMap)
    (newId : String) (utcnow : ℚ) (hdoc : pydantic.ReadsLikeFloat py)
    (entries : List (String × Json)) :
    LayersAgree py pydantic cases newId utcnow entries ↔
      ∀ symbol price quantity, Mapper.Reads py entries symbol price quantity →
        NormalTrade pydantic cases entries symbol price quantity := by
  unfold LayersAgree
  constructor
  · intro h symbol price quantity hreads
    rw [Mapper.emitted_eq_some_iff.mpr hreads] at h
    obtain ⟨s, p, q, ⟨hsymbol, hprice, hquantity, hothers⟩, hpos, hqpos, hlength, heq⟩ :=
      Trade.modelValidateJson_iff.mp h.symm
    have hsame := Mapper.reads_of_valid hdoc hsymbol hprice hquantity
    have hrecord := (Mapper.emitted_eq_some_iff.mpr hreads).symm.trans
      (Mapper.emitted_eq_some_iff.mpr hsame)
    obtain ⟨rfl, rfl, rfl⟩ : symbol = s ∧ price = p ∧ quantity = q := by simpa using hrecord
    obtain ⟨hnormal, _⟩ : symbol = upperSymbol cases symbol ∧ True := by simpa using heq
    obtain ⟨value, hvalue, htext⟩ := Option.bind_eq_some_iff.mp hsymbol
    exact
      { symbol_str := by rw [hvalue, Pydantic.str_eq_some.mp htext]
        symbol_length := hlength
        symbol_normal := hnormal.symm
        price_read := hprice
        price_pos := hpos
        quantity_read := hquantity
        quantity_pos := hqpos
        others := hothers }
  · intro h
    rcases hemitted : Mapper.emitted py (.dict entries) with _ | ⟨symbol, price, quantity⟩
    · -- What Trade accepts the mapper would have read.
      symm
      rw [Option.eq_none_iff_forall_ne_some]
      intro record hrecord
      obtain ⟨s, p, q, ⟨hsymbol, hprice, hquantity, _⟩, _⟩ :=
        Trade.modelValidateJson_iff.mp hrecord
      have hreads := Mapper.reads_of_valid hdoc hsymbol hprice hquantity
      rw [Mapper.emitted_eq_some_iff.mpr hreads] at hemitted
      cases hemitted
    · have hnormal := h symbol price quantity (Mapper.emitted_eq_some_iff.mp hemitted)
      symm
      rw [Trade.modelValidateJson_iff]
      exact ⟨symbol, price, quantity,
        ⟨by rw [hnormal.symbol_str]; rfl, hnormal.price_read, hnormal.quantity_read,
          hnormal.others⟩,
        hnormal.price_pos, hnormal.quantity_pos, hnormal.symbol_length,
        by rw [hnormal.symbol_normal]⟩

theorem numbers_readsLikeFloat : Pydantic.numbers.ReadsLikeFloat .decimal := by
  intro value x h
  cases value with
  | int n =>
      obtain rfl := Option.some.inj h
      rfl
  | float literal =>
      cases literal with
      | finite q =>
          obtain rfl := Option.some.inj h
          rfl
      | _ => cases h
  | _ => cases h

theorem layers_agree_iff_upper_case :
    let entries := [("symbol", .str "ACME"), ("price", .int 100), ("quantity", .int 1)]
    LayersAgree .decimal .numbers .asciiOnly "trd_1" 0 entries ↔
      ∀ symbol price quantity, Mapper.Reads .decimal entries symbol price quantity →
        NormalTrade .numbers .asciiOnly entries symbol price quantity :=
  layers_agree_iff .decimal .numbers .asciiOnly "trd_1" 0 numbers_readsLikeFloat
    [("symbol", .str "ACME"), ("price", .int 100), ("quantity", .int 1)]

/-- The mapper keys a lower-case symbol by itself. -/
theorem lower_case_split :
    ¬ ∀ entries : List (String × Json),
      LayersAgree .decimal .numbers .asciiOnly "trd_1" 0 entries := by
  intro h
  have hlower := h [("symbol", .str "acme"), ("price", .int 100), ("quantity", .int 1)]
  exact absurd hlower (by unfold LayersAgree; decide +kernel)

end TradeWatch
