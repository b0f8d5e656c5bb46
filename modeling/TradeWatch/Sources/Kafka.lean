import TradeWatch.Lib.JsonNesting
import TradeWatch.Wire

/-!
The Kafka source. The consumer decodes a message while it is being iterated, so
a message that cannot be decoded raises outside the `try` statement of the loop
and ends the stream; only a message that is decoded and does not validate is
skipped.
-/

namespace TradeWatch

open PyFloat

/-- A message as the broker delivers it, with the id and the time that the
validation of its trade may draw. -/
structure KafkaMessage where
  value : List UInt8
  newId : String
  utcnow : ℚ

namespace KafkaTradeSource

/-- `value_deserializer`, where `json.loads` opens `limit` containers inside each other. -/
def valueDeserializer (limit : ℕ+) (b : List UInt8) : Except PyError Json :=
  match String.fromUTF8? ⟨b.toArray⟩ with
  | none => .error .unicodeError
  | some text => Json.loads limit text

variable {F : Type} [PyFloat F]

/-- `stream`: the trades it yields, and the exception that ends it if one does. -/
def stream (limit : ℕ+) (pydantic : Pydantic F) (cases : CaseMap) :
    List KafkaMessage → List (Trade F) × Option PyError
  | [] => ([], none)
  | message :: rest =>
      match valueDeserializer limit message.value with
      | .error err => ([], some err)
      | .ok value =>
          let (trades, ended) := stream limit pydantic cases rest
          match Trade.modelValidateJson pydantic cases message.newId message.utcnow value with
          | some trade => (trade :: trades, ended)
          | none => (trades, ended)

/-- The trade of a message, if it is JSON text that validates. -/
def tradeOf? (pydantic : Pydantic F) (cases : CaseMap) (message : KafkaMessage) :
    Option (Trade F) := do
  let text ← String.fromUTF8? ⟨message.value.toArray⟩
  let value ← Json.parse text
  Trade.modelValidateJson pydantic cases message.newId message.utcnow value

/-- The message is JSON text in UTF-8, of whatever value that is not nested too deep. -/
def Decodes (limit : ℕ+) (message : KafkaMessage) : Prop :=
  ∃ value, valueDeserializer limit message.value = .ok value

variable {limit : ℕ+} (pydantic : Pydantic F) (cases : CaseMap)

theorem tradeOf?_eq {message : KafkaMessage} {value : Json}
    (h : valueDeserializer limit message.value = .ok value) :
    tradeOf? pydantic cases message =
      Trade.modelValidateJson pydantic cases message.newId message.utcnow value := by
  unfold valueDeserializer at h
  unfold tradeOf?
  cases htext : String.fromUTF8? ⟨message.value.toArray⟩ with
  | none =>
      rw [htext] at h
      cases h
  | some text =>
      rw [htext] at h
      rw [Option.bind_eq_bind, Option.bind_some, Json.parse_of_loads limit h]
      rfl

/-- A message that decodes is passed: its trade is yielded if it has one. -/
theorem stream_cons_of_ok {message : KafkaMessage} {value : Json}
    (h : valueDeserializer limit message.value = .ok value) (rest : List KafkaMessage) :
    stream limit pydantic cases (message :: rest) =
      ((tradeOf? pydantic cases message).toList ++ (stream limit pydantic cases rest).1,
        (stream limit pydantic cases rest).2) := by
  rw [tradeOf?_eq pydantic cases h]
  cases hvalid : Trade.modelValidateJson pydantic cases message.newId message.utcnow value with
  | none => simp [stream, h, hvalid]
  | some trade => simp [stream, h, hvalid]

theorem stream_cons_of_error {message : KafkaMessage} {err : PyError}
    (h : valueDeserializer limit message.value = .error err) (rest : List KafkaMessage) :
    stream limit pydantic cases (message :: rest) = ([], some err) := by
  rw [stream, h]

/-- The stream yields exactly the trades of the messages that have one and
passes all others if and only if every message decodes. -/
theorem stream_skips_iff (limit : ℕ+) (messages : List KafkaMessage) :
    stream limit pydantic cases messages = (messages.filterMap (tradeOf? pydantic cases), none) ↔
      ∀ message ∈ messages, Decodes limit message := by
  induction messages with
  | nil => simp [stream]
  | cons message rest ih =>
      rw [List.forall_mem_cons, ← ih]
      rcases hvalue : valueDeserializer limit message.value with err | value
      · have hnot : ¬ Decodes limit message := by
          rintro ⟨value, hok⟩
          rw [hvalue] at hok
          cases hok
        simp [stream_cons_of_error pydantic cases hvalue, hnot]
      · have hdecodes : Decodes limit message := ⟨value, hvalue⟩
        have hfilter : (message :: rest).filterMap (tradeOf? pydantic cases) =
            (tradeOf? pydantic cases message).toList ++
              rest.filterMap (tradeOf? pydantic cases) := by
          cases htrade : tradeOf? pydantic cases message <;> simp [htrade]
        rw [stream_cons_of_ok pydantic cases hvalue, hfilter, Prod.ext_iff, Prod.ext_iff]
        simp only [List.append_cancel_left_eq, hdecodes, true_and]

/-- One byte that is no UTF-8 costs the trade in the next message. -/
theorem stream_ends_early :
    ¬ ∀ messages : List KafkaMessage,
      stream 1000 Pydantic.numbers .asciiOnly messages =
        (messages.filterMap (tradeOf? Pydantic.numbers .asciiOnly), none) := by
  intro h
  have hbad := h
    [⟨[0xFF], "trd_1", 0⟩,
      ⟨"\x7b\"symbol\": \"ACME\", \"price\": 100, \"quantity\": 1\x7d".toUTF8.toList, "trd_2", 0⟩]
  exact absurd (congrArg Prod.snd hbad) (by decide +kernel)

end KafkaTradeSource

end TradeWatch
