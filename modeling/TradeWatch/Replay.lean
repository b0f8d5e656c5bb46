import Mathlib.Data.List.DropRight
import TradeWatch.Lib.JsonText
import TradeWatch.Sources.Kafka

/-!
A trade and its own JSON dump: what the Kafka producer writes of a trade, and what
the consumer makes of it. Validation checks the length of the symbol as it is
submitted and normalises it afterwards, so a symbol of white space only is
accepted, becomes the empty one and is not accepted again.
-/

namespace TradeWatch

open PyFloat Json

section Symbols

theorem strip_eq_rdropWhile (chars : List Char) :
    strip chars = (chars.dropWhile isSpace).rdropWhile isSpace := rfl

theorem mem_of_mem_strip {chars : List Char} {c : Char} (h : c ∈ strip chars) : c ∈ chars := by
  rw [strip_eq_rdropWhile] at h
  exact (List.dropWhile_sublist _).subset ((List.rdropWhile_prefix _ _).subset h)

theorem length_strip_le (chars : List Char) : (strip chars).length ≤ chars.length :=
  (List.rdropWhile_prefix _ _).length_le.trans (List.dropWhile_sublist _).length_le

theorem strip_eq_nil_iff (chars : List Char) : strip chars = [] ↔ ∀ c ∈ chars, isSpace c := by
  rw [strip_eq_rdropWhile, List.rdropWhile_eq_nil_iff]
  constructor
  · intro h
    cases hrest : chars.dropWhile isSpace with
    | nil => exact List.dropWhile_eq_nil_iff.mp hrest
    | cons c rest =>
        -- the first character that is left would be white space
        have hnot := List.head?_dropWhile_not isSpace chars
        rw [hrest] at hnot h
        simp [h c List.mem_cons_self] at hnot
  · intro h
    rw [List.dropWhile_eq_nil_iff.mpr h]
    simp

/-- What is left does not begin with white space. -/
theorem head?_strip {chars : List Char} {c : Char} (h : (strip chars).head? = some c) :
    isSpace c = false := by
  obtain ⟨rest, hstrip⟩ : ∃ rest, strip chars = c :: rest := by
    cases hstrip : strip chars with
    | nil => simp [hstrip] at h
    | cons first rest =>
        rw [hstrip, List.head?_cons] at h
        exact ⟨rest, by rw [Option.some.inj h]⟩
  have hprefix : c :: rest <+: chars.dropWhile isSpace := hstrip ▸ List.rdropWhile_prefix _ _
  obtain ⟨later, hlater⟩ := hprefix
  have hnot := List.head?_dropWhile_not isSpace chars
  rw [← hlater] at hnot
  simpa using hnot

theorem strip_eq_self {chars : List Char} (hhead : ∀ c, chars.head? = some c → isSpace c = false)
    (hlast : ∀ c, chars.getLast? = some c → isSpace c = false) : strip chars = chars := by
  have hfront : chars.dropWhile isSpace = chars := by
    cases chars with
    | nil => rfl
    | cons c rest => simp [hhead c rfl]
  rw [strip_eq_rdropWhile, hfront, List.rdropWhile_eq_self_iff]
  intro hne
  rw [hlast _ (List.getLast?_eq_some_getLast hne)]
  exact Bool.false_ne_true

/-- Upper case of ASCII text: white space stays what it is. -/
theorem ascii_toUpper {c : Char} (h : c.toNat < 128) :
    isSpace c.toUpper = isSpace c ∧ c.toUpper.toUpper = c.toUpper ∧ c.toUpper.toNat < 128 := by
  have hall : ∀ n < 128, isSpace (Char.ofNat n).toUpper = isSpace (Char.ofNat n) ∧
      (Char.ofNat n).toUpper.toUpper = (Char.ofNat n).toUpper ∧
        (Char.ofNat n).toUpper.toNat < 128 := by
    decide
  have hc := hall c.toNat h
  rwa [Char.ofNat_toNat] at hc

/-- On ASCII text the case mapping goes character by character. -/
theorem flatMap_upper (cases : CaseMap) {chars : List Char} (h : ∀ c ∈ chars, c.toNat < 128) :
    chars.flatMap cases.upper = chars.map Char.toUpper := by
  induction chars with
  | nil => rfl
  | cons c rest ih =>
      obtain ⟨hc, hrest⟩ := List.forall_mem_cons.mp h
      rw [List.flatMap_cons, ih hrest, cases.ascii c hc, List.map_cons]
      rfl

section Ascii

variable (cases : CaseMap) {raw : String} (hascii : ∀ c ∈ raw.toList, c.toNat < 128)
include hascii

theorem toList_upperSymbol :
    (upperSymbol cases raw).toList = (strip raw.toList).map Char.toUpper := by
  rw [upperSymbol, String.toList_ofList]
  exact flatMap_upper cases (fun c hc => hascii c (mem_of_mem_strip hc))

theorem ascii_upperSymbol : ∀ c ∈ (upperSymbol cases raw).toList, c.toNat < 128 := by
  intro c hc
  rw [toList_upperSymbol cases hascii] at hc
  obtain ⟨other, hother, rfl⟩ := List.mem_map.mp hc
  exact (ascii_toUpper (hascii other (mem_of_mem_strip hother))).2.2

/-- Normalising is idempotent. -/
theorem upperSymbol_upperSymbol :
    upperSymbol cases (upperSymbol cases raw) = upperSymbol cases raw := by
  have hchars := toList_upperSymbol cases hascii
  have hspace : ∀ c ∈ strip raw.toList, isSpace c.toUpper = isSpace c := fun c hc =>
    (ascii_toUpper (hascii c (mem_of_mem_strip hc))).1
  have hstrip : strip ((strip raw.toList).map Char.toUpper) =
      (strip raw.toList).map Char.toUpper := by
    apply strip_eq_self
    · intro c hc
      rw [List.head?_map, Option.map_eq_some_iff] at hc
      obtain ⟨first, hfirst, rfl⟩ := hc
      rw [hspace first (List.mem_of_mem_head? hfirst)]
      exact head?_strip hfirst
    · intro c hc
      rw [List.getLast?_map, Option.map_eq_some_iff] at hc
      obtain ⟨last, hlast, rfl⟩ := hc
      rw [hspace last (List.mem_of_getLast? hlast)]
      exact getLast?_strip hlast
  apply String.toList_inj.mp
  rw [toList_upperSymbol cases (ascii_upperSymbol cases hascii), hchars, hstrip, List.map_map]
  apply List.map_congr_left
  intro c hc
  exact (ascii_toUpper (hascii c (mem_of_mem_strip hc))).2.1

theorem length_upperSymbol_le : (upperSymbol cases raw).length ≤ raw.length := by
  rw [← String.length_toList, toList_upperSymbol cases hascii, List.length_map,
    ← String.length_toList]
  exact length_strip_le raw.toList

/-- There is something left of a symbol that is not all white space. -/
theorem one_le_length_upperSymbol_iff :
    1 ≤ (upperSymbol cases raw).length ↔ ∃ c ∈ raw.toList, isSpace c = false := by
  rw [← String.length_toList, toList_upperSymbol cases hascii, List.length_map,
    Nat.one_le_iff_ne_zero, ne_eq, List.length_eq_zero_iff, strip_eq_nil_iff]
  simp

end Ascii

end Symbols

section Dump

variable {F : Type}

/-- What pydantic and `json` write for a float and a datetime. -/
structure TradeText (F : Type) extends NumberText F where
  isoformat : ℚ → String

def optionalText : Option String → Scalar F
  | none => .null
  | some text => .str text

variable [PyFloat F]

/-- `trade.model_dump(mode="json")`. -/
def Trade.modelDump (write : TradeText F) (trade : Trade F) : List (String × Scalar F) :=
  [("trade_id", .str trade.tradeId), ("timestamp", .str (write.isoformat trade.timestamp)),
    ("symbol", .str trade.symbol), ("price", .float trade.price),
    ("quantity", .float trade.quantity), ("side", .str trade.side.value),
    ("account_id", optionalText trade.accountId),
    ("counterparty_id", optionalText trade.counterpartyId), ("venue", optionalText trade.venue),
    ("currency", .str trade.currency)]

/-- `json.dumps(v).encode("utf-8")`, as the producer serialises a trade. -/
def Trade.kafkaValue (write : TradeText F) (trade : Trade F) : List UInt8 :=
  (String.ofList (dumps write.toNumberText (trade.modelDump write))).toUTF8.data.toList

/-- pydantic takes the time and the numbers of a trade for the same in its own
text, and `json` reads the numbers that it wrote. -/
structure ReadsBack (pydantic : Pydantic F) (write : TradeText F) (trade : Trade F) : Prop where
  timestamp : pydantic.datetime (.str (write.isoformat trade.timestamp)) = some trade.timestamp
  price : pydantic.float (.float (write.literal trade.price)) = some trade.price
  quantity : pydantic.float (.float (write.literal trade.quantity)) = some trade.quantity
  price_prints : (Scalar.float trade.price).Prints write.toNumberText
  quantity_prints : (Scalar.float trade.quantity).Prints write.toNumberText

/-- The fields of a trade as they are submitted. -/
def Trade.payload (trade : Trade F) : TradePayload F where
  tradeId := some trade.tradeId
  timestamp := some trade.timestamp
  symbol := trade.symbol
  price := trade.price
  quantity := trade.quantity
  side := trade.side
  accountId := trade.accountId
  counterpartyId := trade.counterpartyId
  venue := trade.venue
  currency := trade.currency

omit [PyFloat F] in
theorem optionalStr_optionalText (numbers : NumberText F) (text : Option String) :
    Pydantic.optionalStr ((optionalText text).toJson numbers) = some text := by
  cases text <;> rfl

theorem side_value (side : Side) : Pydantic.side (.str side.value) = some side := by
  cases side <;> decide

variable {pydantic : Pydantic F} {write : TradeText F} {trade : Trade F}
  (hreads : ReadsBack pydantic write trade)
include hreads

/-- Every field is read back. -/
theorem ofJson_modelDump :
    TradePayload.ofJson pydantic (toDict write.toNumberText (trade.modelDump write)) =
      some trade.payload := by
  simp [TradePayload.ofJson, toDict, Trade.modelDump, Pydantic.fieldOr, Pydantic.field, lookup,
    Pydantic.str, hreads.timestamp, hreads.price, hreads.quantity,
    optionalStr_optionalText, side_value, Trade.payload]

omit hreads in
theorem prints_modelDump (hprice : (Scalar.float trade.price).Prints write.toNumberText)
    (hquantity : (Scalar.float trade.quantity).Prints write.toNumberText) :
    ∀ entry ∈ trade.modelDump write, entry.2.Prints write.toNumberText := by
  have hoptional : ∀ text : Option String, (optionalText text).Prints write.toNumberText := by
    intro text
    cases text <;> trivial
  simp [Trade.modelDump, hprice, hquantity, hoptional]

/-- The consumer decodes what the producer wrote. -/
theorem valueDeserializer_kafkaValue (limit : ℕ+) :
    KafkaTradeSource.valueDeserializer limit (trade.kafkaValue write) =
      .ok (toDict write.toNumberText (trade.modelDump write)) := by
  have hloads := loads_dumps limit
    (prints_modelDump hreads.price_prints hreads.quantity_prints)
  unfold KafkaTradeSource.valueDeserializer Trade.kafkaValue
  rw [Array.toArray_toList]
  have hutf8 : ∀ text : String, String.fromUTF8? text.toUTF8 = some text := by
    intro text
    exact dif_pos text.isValidUTF8
  have heta : ∀ bytes : ByteArray, (⟨bytes.data⟩ : ByteArray) = bytes := fun _ => rfl
  rw [heta, hutf8]
  exact hloads

/-- Validating the dump of a trade validates its fields again. -/
theorem modelValidateJson_modelDump (cases : CaseMap) (newId : String) (utcnow : ℚ) :
    Trade.modelValidateJson pydantic cases newId utcnow
        (toDict write.toNumberText (trade.modelDump write)) =
      Trade.modelValidate cases newId utcnow trade.payload := by
  rw [Trade.modelValidateJson, ofJson_modelDump hreads]
  rfl

omit hreads in
/-- A trade is valid again if its symbol is as long as it should be and
normalised. -/
theorem modelValidate_payload_iff (cases : CaseMap) (newId : String) (utcnow : ℚ) :
    Trade.modelValidate cases newId utcnow trade.payload = some trade ↔
      (1 ≤ trade.symbol.length ∧ trade.symbol.length ≤ 32) ∧
        upperSymbol cases trade.symbol = trade.symbol := by
  have hprice : lt (ofRat 0) trade.payload.price = true := trade.price_pos
  have hquantity : lt (ofRat 0) trade.payload.quantity = true := trade.quantity_pos
  rw [Trade.modelValidate, dif_pos hprice, dif_pos hquantity]
  have hsymbol : trade.payload.symbol = trade.symbol := rfl
  by_cases hlength : 1 ≤ trade.symbol.length ∧ trade.symbol.length ≤ 32
  · rw [hsymbol, if_pos hlength, Option.some.injEq, and_iff_right hlength]
    constructor
    · intro h
      exact congrArg Trade.symbol h
    · intro h
      obtain ⟨tradeId, timestamp, symbol, price, quantity, side, accountId, counterpartyId, venue,
        currency, pricePos, quantityPos⟩ := trade
      simpa [Trade.payload] using h
  · rw [hsymbol, if_neg hlength]
    simp [hlength]

omit hreads in
/-- The symbol of an accepted trade is the submitted one, normalised. -/
theorem length_of_modelValidate {cases : CaseMap} {newId : String} {utcnow : ℚ}
    {payload : TradePayload F}
    (h : Trade.modelValidate cases newId utcnow payload = some trade) :
    payload.symbol.length ≤ 32 := by
  unfold Trade.modelValidate at h
  split_ifs at h with hprice hquantity hlength
  exact hlength.2

/-- What replaying a trade asks for: a symbol within the declared bounds that is
normalised, a dump that validates to the trade, and a message that the consumer
turns into it. -/
def RoundTrips (pydantic : Pydantic F) (write : TradeText F) (cases : CaseMap)
    (trade : Trade F) : Prop :=
  (1 ≤ trade.symbol.length ∧ trade.symbol.length ≤ 32) ∧
    upperSymbol cases trade.symbol = trade.symbol ∧
    (∀ newId utcnow, Trade.modelValidateJson pydantic cases newId utcnow
      (toDict write.toNumberText (trade.modelDump write)) = some trade) ∧
    ∀ limit newId utcnow, KafkaTradeSource.stream limit pydantic cases
      [⟨trade.kafkaValue write, newId, utcnow⟩] = ([trade], none)

/-- A message of the producer is yielded if its dump validates. -/
theorem stream_kafkaValue (limit : ℕ+) (cases : CaseMap) {message : KafkaMessage}
    (hmessage : message.value = trade.kafkaValue write) :
    KafkaTradeSource.stream limit pydantic cases [message] =
      ((Trade.modelValidate cases message.newId message.utcnow trade.payload).toList, none) := by
  have hvalue := valueDeserializer_kafkaValue hreads limit
  rw [← hmessage] at hvalue
  have htrade : KafkaTradeSource.tradeOf? pydantic cases message =
      Trade.modelValidate cases message.newId message.utcnow trade.payload := by
    rw [KafkaTradeSource.tradeOf?_eq pydantic cases hvalue]
    exact modelValidateJson_modelDump hreads cases message.newId message.utcnow
  have hstream := KafkaTradeSource.stream_cons_of_ok pydantic cases hvalue []
  rw [htrade] at hstream
  rw [hstream]
  simp [KafkaTradeSource.stream]

/-- A trade that is accepted can be replayed if and only if its symbol, as it was
submitted, is not white space throughout. -/
theorem roundTrips_iff (cases : CaseMap) {newId : String} {utcnow : ℚ}
    {payload : TradePayload F} (hascii : ∀ c ∈ payload.symbol.toList, c.toNat < 128)
    (haccepted : Trade.modelValidate cases newId utcnow payload = some trade) :
    RoundTrips pydantic write cases trade ↔ ∃ c ∈ payload.symbol.toList, isSpace c = false := by
  have hsymbol := Trade.modelValidate_symbol haccepted
  have hone := one_le_length_upperSymbol_iff cases hascii
  have hmany := (length_upperSymbol_le cases hascii).trans (length_of_modelValidate haccepted)
  have hagain := upperSymbol_upperSymbol cases hascii
  rw [← hsymbol] at hone hmany hagain
  constructor
  · intro h
    exact hone.mp h.1.1
  · intro h
    have hvalid : ∀ newId utcnow,
        Trade.modelValidate cases newId utcnow trade.payload = some trade := fun newId utcnow =>
      (modelValidate_payload_iff cases newId utcnow).mpr ⟨⟨hone.mpr h, hmany⟩, hagain⟩
    refine ⟨⟨hone.mpr h, hmany⟩, hagain, ?_, ?_⟩
    · intro newId utcnow
      rw [modelValidateJson_modelDump hreads]
      exact hvalid newId utcnow
    · intro limit newId utcnow
      have hmessage : ∀ bytes, (KafkaMessage.mk bytes newId utcnow).value = bytes := fun _ => rfl
      rw [stream_kafkaValue hreads limit cases (hmessage _), hvalid newId utcnow]
      rfl

end Dump

section Samples

/-- The first instant of the simulator's clock. -/
def sampleTime : String := "2025-01-01T00:00:00Z"

def samplePydantic : Pydantic ℚ where
  float := Pydantic.numbers.float
  datetime
    | .str text => if text = sampleTime then some 1735689600 else none
    | _ => none

/-- The text of whole numbers and of that instant. -/
def sampleText : TradeText ℚ where
  repr x := (toString x.num ++ ".0").toList
  literal x := .finite x
  isoformat _ := sampleTime

def samplePayload (symbol : String) : TradePayload ℚ where
  timestamp := some 1735689600
  symbol := symbol
  price := 100
  quantity := 1

def sampleTrade (symbol : String) : Trade ℚ :=
  { selfTradeAt "trd_1" 1735689600 with
    symbol := symbol
    accountId := none
    counterpartyId := none }

/-- The number that a word is. -/
def wordNumber : Option Json → Option ℚ
  | some (.float (.finite q)) => some q
  | _ => none

theorem eq_of_wordNumber {value : Option Json} {q : ℚ} (h : wordNumber value = some q) :
    value = some (.float (.finite q)) := by
  unfold wordNumber at h
  split at h
  · rw [Option.some.inj h]
  · cases h

theorem sampleTrade_readsBack (symbol : String) :
    ReadsBack samplePydantic sampleText (sampleTrade symbol) := by
  have htime : samplePydantic.datetime (.str sampleTime) = some 1735689600 := by
    simp [samplePydantic]
  have hundred : (Scalar.float (100 : ℚ)).Prints sampleText.toNumberText :=
    ⟨eq_of_wordNumber (by decide +kernel), Lexer.endsWord_of_all (by decide +kernel)⟩
  have hone : (Scalar.float (1 : ℚ)).Prints sampleText.toNumberText :=
    ⟨eq_of_wordNumber (by decide +kernel), Lexer.endsWord_of_all (by decide +kernel)⟩
  exact ⟨htime, rfl, rfl, hundred, hone⟩

theorem roundTrips_iff_spaced :
    RoundTrips samplePydantic sampleText .asciiOnly (sampleTrade "ACME") ↔
      ∃ c ∈ (samplePayload " acme ").symbol.toList, isSpace c = false := by
  have haccepted : Trade.modelValidate .asciiOnly "trd_1" 0 (samplePayload " acme ") =
      some (sampleTrade "ACME") := by
    decide +kernel
  have hascii : ∀ c ∈ (samplePayload " acme ").symbol.toList, c.toNat < 128 := by
    simp [samplePayload]
  exact roundTrips_iff (sampleTrade_readsBack "ACME") .asciiOnly hascii haccepted

/-- A blank symbol is accepted, and the trade's own dump is not. -/
theorem not_roundTrips_blank :
    ¬ ∀ (payload : TradePayload ℚ) (trade : Trade ℚ),
      ReadsBack samplePydantic sampleText trade →
        Trade.modelValidate .asciiOnly "trd_1" 0 payload = some trade →
          RoundTrips samplePydantic sampleText .asciiOnly trade := by
  intro h
  have haccepted : Trade.modelValidate .asciiOnly "trd_1" 0 (samplePayload " ") =
      some (sampleTrade "") := by
    decide +kernel
  have hround := h _ _ (sampleTrade_readsBack "") haccepted
  exact absurd hround.1.1 (by decide)

end Samples

end TradeWatch
