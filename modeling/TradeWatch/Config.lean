import TradeWatch.Lib.PyFloat

/-!
The detection ruleset with the defaults of the code. Durations are exact
seconds, like the event times they are compared with; every other threshold is
a float. Counts are integers of either sign: nothing in the ruleset bounds
them.
-/

namespace TradeWatch

open PyFloat

/-- Sliding-window sizing shared by the statistical detectors. -/
structure WindowConfig where
  maxTrades : ℤ := 200
  minTrades : ℤ := 20
  horizonSeconds : ℚ := 300

variable (F : Type) [PyFloat F]

structure ZScoreConfig where
  enabled : Bool := true
  priceThreshold : F := ofRat 3
  criticalMultiplier : F := ofRat (16 / 10)

structure PriceSpikeConfig where
  enabled : Bool := true
  pctThreshold : F := ofRat (3 / 100)
  criticalPct : F := ofRat (8 / 100)

structure VolumeSpikeConfig where
  enabled : Bool := true
  medianMultiplier : F := ofRat 6
  criticalMultiplier : F := ofRat 15

structure VelocityConfig where
  enabled : Bool := true
  windowSeconds : ℚ := 5
  maxTrades : ℤ := 25
  criticalTrades : ℤ := 60

structure SpoofingConfig where
  enabled : Bool := true
  windowSeconds : ℚ := 3
  imbalanceRatio : F := ofRat 5
  minEvents : ℤ := 8

structure WashTradeConfig where
  enabled : Bool := true
  windowSeconds : ℚ := 5
  priceTolerance : F := ofRat (1 / 1000)
  quantityTolerance : F := ofRat (2 / 100)

structure IsolationForestConfig where
  enabled : Bool := true
  trainSize : ℤ := 300
  retrainEvery : ℤ := 150
  contamination : F := ofRat (2 / 100)
  scoreThreshold : F := ofRat (62 / 100)

/-- The full detection ruleset. A cooldown of zero or less disables the
suppression of repeat alerts. -/
structure DetectionConfig where
  alertCooldownSeconds : ℚ := 8
  window : WindowConfig := {}
  zscore : ZScoreConfig F := {}
  priceSpike : PriceSpikeConfig F := {}
  volumeSpike : VolumeSpikeConfig F := {}
  velocity : VelocityConfig := {}
  spoofing : SpoofingConfig F := {}
  washTrade : WashTradeConfig F := {}
  isolationForest : IsolationForestConfig F := {}

/-- The detectors a ruleset can enable. -/
inductive DetectorKind
  | zscore
  | priceSpike
  | volumeSpike
  | velocity
  | spoofing
  | washTrade
  | isolationForest
  deriving DecidableEq, Repr

variable {F}

def DetectionConfig.enabled (cfg : DetectionConfig F) : DetectorKind → Bool
  | .zscore => cfg.zscore.enabled
  | .priceSpike => cfg.priceSpike.enabled
  | .volumeSpike => cfg.volumeSpike.enabled
  | .velocity => cfg.velocity.enabled
  | .spoofing => cfg.spoofing.enabled
  | .washTrade => cfg.washTrade.enabled
  | .isolationForest => cfg.isolationForest.enabled

/-- The ruleset with one detector enabled and every other one disabled. -/
def DetectionConfig.only (cfg : DetectionConfig F) (kind : DetectorKind) :
    DetectionConfig F where
  alertCooldownSeconds := cfg.alertCooldownSeconds
  window := cfg.window
  zscore := { cfg.zscore with enabled := kind = .zscore }
  priceSpike := { cfg.priceSpike with enabled := kind = .priceSpike }
  volumeSpike := { cfg.volumeSpike with enabled := kind = .volumeSpike }
  velocity := { cfg.velocity with enabled := kind = .velocity }
  spoofing := { cfg.spoofing with enabled := kind = .spoofing }
  washTrade := { cfg.washTrade with enabled := kind = .washTrade }
  isolationForest := { cfg.isolationForest with enabled := kind = .isolationForest }

end TradeWatch
