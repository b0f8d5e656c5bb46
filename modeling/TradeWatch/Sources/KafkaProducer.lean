import TradeWatch.Partitions
import TradeWatch.Sources.Symbols

/-!
The simulator behind a Kafka topic. The producer sends a trade to a message, the
consumer reads the messages of everybody, and the engine is given what it takes for
trades. On the producer's symbols that is the same as to run the simulator in the
process.
-/

namespace TradeWatch.KafkaProducer

open PyFloat MarketSimulator Transducer

variable {F G M : Type} [PyFloat F]

/-- The symbols of the published tape. -/
def symbols : List String := ["AAPL", "MSFT", "BTC-USD", "ETH-USD", "TSLA"]

theorem symbols_normal : ∀ symbol ∈ symbols, symbol.toList.all (fun c => c.toNat < 128) = true ∧
    (strip symbol.toList).map Char.toUpper = symbol.toList := by
  decide

/-- A symbol is within the declared bounds. -/
theorem symbols_length : ∀ symbol ∈ symbols, 1 ≤ symbol.length ∧ symbol.length ≤ 32 := by
  decide

/-- The trades of the producer's simulator, as far as so many passes of its loop go and
so many messages are taken by the broker. One that is not ends the producer. -/
def published (env : Chance F G) (anomalyRate : F) (rng : G) (passes sends : ℕ) :
    List (Trade F) :=
  let sim := MarketSimulator.init env symbols anomalyRate rng
  (MarketSimulator.stream env none passes 0 sim).1.take sends

/-- `run`: the values that are sent to the topic. -/
def run (env : Chance F G) (write : TradeText F) (anomalyRate : F) (rng : G)
    (passes sends : ℕ) : List (List UInt8) :=
  (published env anomalyRate rng passes sends).map (Trade.kafkaValue write)

section Consumed

variable {env : Chance F G} {pydantic : Pydantic F} {write : TradeText F} {cases : CaseMap}

theorem symbol_mem (anomalyRate : F) (rng : G) (passes sends : ℕ) :
    ∀ trade ∈ published env anomalyRate rng passes sends, trade.symbol ∈ symbols := by
  intro trade htrade
  have hlists : Lists symbols (MarketSimulator.init env symbols anomalyRate rng) :=
    lists_init symbols anomalyRate rng
  exact mem_of_onlyOf symbols_normal (onlyOf_stream none passes 0 hlists) trade
    (List.mem_of_mem_take htrade)

/-- The consumer takes a message of the producer for the trade that it was made of. -/
theorem tradeOf?_kafkaValue {trade : Trade F} (hreads : ReadsBack pydantic write trade)
    (hsymbol : trade.symbol ∈ symbols) {message : KafkaMessage}
    (hmessage : message.value = trade.kafkaValue write) :
    KafkaTradeSource.tradeOf? pydantic cases message = some trade := by
  obtain ⟨hascii, hupper⟩ := symbols_normal _ hsymbol
  have hself : upperSymbol cases trade.symbol = trade.symbol := by
    apply String.toList_inj.mp
    rw [toList_upperSymbol cases (by simpa using hascii), hupper]
  have hvalid := (modelValidate_payload_iff cases message.newId message.utcnow).mpr
    ⟨symbols_length _ hsymbol, hself⟩
  have hvalue := valueDeserializer_kafkaValue hreads 1
  rw [← hmessage] at hvalue
  rw [KafkaTradeSource.tradeOf?_eq pydantic cases hvalue]
  exact (modelValidateJson_modelDump hreads cases _ _).trans hvalid

/-- The message is somebody else's: it is JSON that is not nested too deep, and if it is a
trade, it is one of another symbol. -/
def Foreign (limit : ℕ+) (pydantic : Pydantic F) (cases : CaseMap) (message : KafkaMessage) :
    Prop :=
  KafkaTradeSource.Decodes limit message ∧
    ∀ trade, KafkaTradeSource.tradeOf? pydantic cases message = some trade →
      trade.symbol ∉ symbols

/-- On its own symbols the producer's tape is what the consumer yields. -/
theorem stream_filter {tape : List (Trade F)}
    (hreads : ∀ trade ∈ tape, ReadsBack pydantic write trade)
    (hsymbols : ∀ trade ∈ tape, trade.symbol ∈ symbols) {topic : List KafkaMessage}
    {sent : KafkaMessage → Bool} {limit : ℕ+}
    (hsent : (topic.filter sent).map KafkaMessage.value = tape.map (Trade.kafkaValue write))
    (hforeign : ∀ message ∈ topic, sent message = false →
      Foreign limit pydantic cases message) :
    (KafkaTradeSource.stream limit pydantic cases topic).2 = none ∧
      (KafkaTradeSource.stream limit pydantic cases topic).1.filter
        (fun trade => trade.symbol ∈ symbols) = tape := by
  induction topic generalizing tape with
  | nil =>
      rw [List.filter_nil, List.map_nil] at hsent
      rw [List.map_eq_nil_iff.mp hsent.symm]
      exact ⟨rfl, rfl⟩
  | cons message rest ih =>
      obtain ⟨hfirst, hrest⟩ := List.forall_mem_cons.mp hforeign
      cases hmessage : sent message with
      | true =>
          rw [List.filter_cons_of_pos hmessage, List.map_cons] at hsent
          obtain ⟨trade, later, rfl, hvalue, hlater⟩ := List.map_eq_cons_iff.mp hsent.symm
          obtain ⟨hread, hreads⟩ := List.forall_mem_cons.mp hreads
          obtain ⟨hsymbol, hsymbols⟩ := List.forall_mem_cons.mp hsymbols
          obtain ⟨hended, hyields⟩ := ih hreads hsymbols hlater.symm hrest
          have hdecoded := valueDeserializer_kafkaValue hread limit
          rw [hvalue] at hdecoded
          rw [KafkaTradeSource.stream_cons_of_ok pydantic cases hdecoded,
            tradeOf?_kafkaValue hread hsymbol hvalue.symm]
          refine ⟨hended, ?_⟩
          simp [hsymbol, hyields]
      | false =>
          rw [List.filter_cons_of_neg (by simp [hmessage])] at hsent
          obtain ⟨hended, hyields⟩ := ih hreads hsymbols hsent hrest
          obtain ⟨⟨value, hdecoded⟩, hother⟩ := hfirst hmessage
          rw [KafkaTradeSource.stream_cons_of_ok pydantic cases hdecoded]
          refine ⟨hended, ?_⟩
          dsimp only
          rw [List.filter_append, hyields]
          cases htrade : KafkaTradeSource.tradeOf? pydantic cases message with
          | none => rfl
          | some trade => simp [hother trade htrade]

end Consumed

section Example

/-- The time of the first trade. -/
def firstTime : String := "2025-01-01T00:00:00.010000Z"

def firstPydantic : Pydantic ℚ where
  float := Pydantic.numbers.float
  datetime
    | .str text => if text = firstTime then some (simEpoch + 1 / 100) else none
    | _ => none

/-- The text of whole numbers and of that time. -/
def firstText : TradeText ℚ where
  repr x := (toString x.num ++ ".0").toList
  literal x := .finite x
  isoformat _ := firstTime

/-- One trade, and a message of somebody else before it. -/
def mixedTopic : List KafkaMessage :=
  ⟨"[1, 2]".toUTF8.data.toList, "trd_1", 0⟩ ::
    (run (steadyShocks (0 : ℚ)) firstText 0 () 1 1).map (fun value => ⟨value, "trd_2", 0⟩)

theorem published_first : (published (steadyShocks (0 : ℚ)) 0 () 1 1).map
    (fun trade => (trade.timestamp, trade.price, trade.quantity)) =
      [(simEpoch + 1 / 100, 195, 50)] := by
  decide +kernel

end Example

end TradeWatch.KafkaProducer
