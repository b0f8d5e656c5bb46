import TradeWatch.Lib.Double
import TradeWatch.Models

/-!
Event times as the engine reads them. A trade carries the instant of its datetime;
the code calls `timestamp()` on it, which may raise, and compares the floats that
come back. An `EventTime` says for which trades the call returns and how the
comparisons of the code turn out. A time that the code keeps or passes on is written
down as the instant that it was read from.

By default the reading is exact and never raises. Results about an arbitrary
`EventTime` also speak about datetimes that cannot be read and about rounding.
-/

namespace TradeWatch

open PyFloat

class EventTime (F : Type) [PyFloat F] where
  /-- `timestamp()` returns for this trade; otherwise it raises a ValueError. -/
  readable : Trade F → Bool
  /-- `ts < now - seconds`, with the trade's `ts`. -/
  older : (now seconds : ℚ) → Trade F → Bool
  /-- `ts >= now - seconds`. -/
  reaches : (now seconds : ℚ) → Trade F → Bool
  /-- `ts - last < cooldown`. -/
  cooling : (last cooldown : ℚ) → Trade F → Bool

namespace EventTime

/-- `trade.timestamp.timestamp()`. -/
def timestamp {F : Type} [PyFloat F] [EventTime F] (trade : Trade F) : Except PyError ℚ :=
  if readable trade then .ok trade.timestamp else .error .valueError

section Exact

variable {F : Type} [PyFloat F]

/-- The seconds that are read are the instant itself. -/
instance (priority := low) exact : EventTime F where
  readable _ := true
  older now seconds trade := trade.timestamp < now - seconds
  reaches now seconds trade := now - seconds ≤ trade.timestamp
  cooling last cooldown trade := trade.timestamp - last < cooldown

@[simp] theorem readable_exact (trade : Trade F) : readable trade = true := rfl

@[simp] theorem timestamp_exact (trade : Trade F) : timestamp trade = .ok trade.timestamp := rfl

@[simp] theorem older_exact (now seconds : ℚ) (trade : Trade F) :
    older now seconds trade = decide (trade.timestamp < now - seconds) := rfl

@[simp] theorem reaches_exact (now seconds : ℚ) (trade : Trade F) :
    reaches now seconds trade = decide (now - seconds ≤ trade.timestamp) := rfl

@[simp] theorem cooling_exact (last cooldown : ℚ) (trade : Trade F) :
    cooling last cooldown trade = decide (trade.timestamp - last < cooldown) := rfl

end Exact

section Double

/-- The first naive datetime whose `timestamp()` returns: `datetime(1, 1, 2)`. The call
looks a day back for another reading of the same local time. -/
def firstReadable : ℚ := -62135510400

/-- `timestamp()` of a naive datetime, where local time is UTC: the whole seconds and the
float of the microseconds, added as floats. -/
def seconds (instant : ℚ) : ℚ := nearest (⌊instant⌋ + nearest (instant - ⌊instant⌋))

instance : EventTime Double where
  readable trade := firstReadable ≤ trade.timestamp
  older now span trade := seconds trade.timestamp < nearest (seconds now - nearest span)
  reaches now span trade := nearest (seconds now - nearest span) ≤ seconds trade.timestamp
  cooling last cooldown trade :=
    nearest (seconds trade.timestamp - seconds last) < nearest cooldown

end Double

end EventTime

/-- A trade of an account with itself, for runs on doubles. -/
def doubleTradeAt (tradeId : String) (timestamp : ℚ) : Trade Double where
  tradeId := tradeId
  timestamp := timestamp
  symbol := "ACME"
  price := .of 100
  quantity := .of 1
  side := .buy
  accountId := some "acct-1"
  counterpartyId := some "acct-1"
  venue := none
  currency := "USD"
  price_pos := by decide +kernel
  quantity_pos := by decide +kernel

end TradeWatch
