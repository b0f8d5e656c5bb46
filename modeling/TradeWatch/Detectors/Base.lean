import TradeWatch.Detectors.IsolationForest
import TradeWatch.Detectors.Rules

/-!
The detector interface and the seven detectors that ship with the engine. A
detector is an object with a name and an `inspect` method that may change the
object. A lawful detector keeps its name and only answers with alerts built
for the trade it was asked about and under that name.
-/

namespace TradeWatch

open PyFloat

class Detector (D : Type) (F : outParam Type) [PyFloat F] where
  name : D → String
  inspect : D → Trade F → SymbolWindow F → Answer F × D

/-- Every alert in the answer was built for `trade` under `name`. -/
def Built {F : Type} [PyFloat F] (trade : Trade F) (name : String) (answer : Answer F) : Prop :=
  ∀ alert, answer = .ok (some alert) →
    ∃ severity score reason details,
      alert = Alert.build trade name severity score reason details

class LawfulDetector (D : Type) (F : outParam Type) [PyFloat F] [Detector D F] : Prop where
  name_inspect : ∀ (d : D) (trade : Trade F) (window : SymbolWindow F),
    Detector.name (Detector.inspect d trade window).2 = Detector.name d
  built_inspect : ∀ (d : D) (trade : Trade F) (window : SymbolWindow F),
    Built trade (Detector.name d) (Detector.inspect d trade window).1

section Built

variable {F : Type} [PyFloat F] {trade : Trade F} {name : String}

theorem Built.none : Built trade name (.ok none) := by
  intro alert h
  simp at h

theorem Built.error (err : PyError) : Built trade name (.error err) := by
  intro alert h
  simp at h

theorem Built.some (severity : Severity) (score : F) (reason : String)
    (details : List (String × Detail F)) :
    Built trade name (.ok (some (Alert.build trade name severity score reason details))) := by
  intro alert h
  obtain rfl : Alert.build trade name severity score reason details = alert := by
    simpa using h
  exact ⟨severity, score, reason, details, rfl⟩

theorem Built.bind {α : Type} {x : Except PyError α} {f : α → Answer F}
    (h : ∀ a, Built trade name (f a)) : Built trade name (x >>= f) := by
  cases x with
  | error err => exact Built.error err
  | ok a => exact h a

theorem Built.ite {p : Prop} [Decidable p] {x y : Answer F} (hx : Built trade name x)
    (hy : Built trade name y) : Built trade name (if p then x else y) := by
  split
  · exact hx
  · exact hy

end Built

section Rules

variable {F : Type} [PyFloat F] (trade : Trade F) (window : SymbolWindow F)

theorem ZScoreDetector.inspect_built (cfg : ZScoreConfig F) (minTrades : ℤ) :
    Built trade name (inspect cfg minTrades trade window) := by
  unfold inspect
  apply Built.ite Built.none
  apply Built.bind
  rintro ⟨priceMean, priceStd⟩
  apply Built.bind
  intro priceZ
  apply Built.ite Built.none
  apply Built.bind
  intro score
  exact Built.some _ _ _ _

theorem PriceSpikeDetector.inspect_built (cfg : PriceSpikeConfig F) :
    Built trade name (inspect cfg trade window) := by
  unfold inspect
  cases window.previousPrice with
  | none => exact Built.none
  | some prev =>
      apply Built.ite Built.none
      apply Built.bind
      intro pct
      apply Built.ite Built.none
      apply Built.bind
      intro ratio
      exact Built.some _ _ _ _

theorem VolumeSpikeDetector.inspect_built (cfg : VolumeSpikeConfig F) (minTrades : ℤ) :
    Built trade name (inspect cfg minTrades trade window) := by
  unfold inspect
  apply Built.ite Built.none
  apply Built.ite Built.none
  apply Built.bind
  intro ratio
  apply Built.ite Built.none
  apply Built.bind
  intro share
  exact Built.some _ _ _ _

variable [EventTime F]

theorem VelocityDetector.inspect_built (cfg : VelocityConfig) :
    Built trade name (inspect cfg trade window) := by
  unfold inspect
  apply Built.bind
  intro now
  apply Built.bind
  intro count
  apply Built.ite Built.none
  apply Built.bind
  intro share
  exact Built.some _ _ _ _

theorem SpoofingDetector.inspect_built (cfg : SpoofingConfig F) :
    Built trade name (inspect cfg trade window) := by
  unfold inspect
  apply Built.bind
  rintro ⟨buys, sells⟩
  apply Built.ite Built.none
  apply Built.bind
  intro ratio
  apply Built.ite Built.none
  apply Built.bind
  intro share
  exact Built.some _ _ _ _

theorem WashTradeDetector.inspect_built (cfg : WashTradeConfig F) :
    Built trade name (inspect cfg trade window) := by
  unfold inspect
  apply Built.ite (Built.some _ _ _ _)
  apply Built.ite Built.none
  apply Built.bind
  intro found
  cases found with
  | none => exact Built.none
  | some other => exact Built.some _ _ _ _

end Rules

section IsolationForest

variable {F M : Type} [PyFloat F] (d : IsolationForestDetector F M) (trade : Trade F)
  (window : SymbolWindow F)

theorem IsolationForestDetector.judge_built (model : M) (row : List F) :
    Built trade name (d.judge model row trade) := by
  unfold judge
  apply Built.bind
  intro raw
  apply Built.ite Built.none
  exact Built.some _ _ _ _

theorem IsolationForestDetector.inspect_built [EventTime F] :
    Built trade name (d.inspect trade window).1 := by
  unfold inspect
  split
  · exact Built.none
  · split
    · exact Built.error _
    · exact Built.none
    · split
      · exact Built.error _
      · split
        · exact Built.error _
        · exact Built.none
        · exact judge_built _ trade _ _

end IsolationForest

/-- One object of each detector class that ships with the engine. -/
inductive ShippedDetector (F M : Type) [PyFloat F]
  | zscore (cfg : ZScoreConfig F) (minTrades : ℤ)
  | priceSpike (cfg : PriceSpikeConfig F)
  | volumeSpike (cfg : VolumeSpikeConfig F) (minTrades : ℤ)
  | velocity (cfg : VelocityConfig)
  | spoofing (cfg : SpoofingConfig F)
  | washTrade (cfg : WashTradeConfig F)
  | isolationForest (d : IsolationForestDetector F M)

namespace ShippedDetector

variable {F M : Type} [PyFloat F]

def name : ShippedDetector F M → String
  | zscore _ _ => ZScoreDetector.name
  | priceSpike _ => PriceSpikeDetector.name
  | volumeSpike _ _ => VolumeSpikeDetector.name
  | velocity _ => VelocityDetector.name
  | spoofing _ => SpoofingDetector.name
  | washTrade _ => WashTradeDetector.name
  | isolationForest _ => IsolationForestDetector.name

variable [EventTime F]

def inspect (d : ShippedDetector F M) (trade : Trade F) (window : SymbolWindow F) :
    Answer F × ShippedDetector F M :=
  match d with
  | zscore cfg minTrades => (ZScoreDetector.inspect cfg minTrades trade window, d)
  | priceSpike cfg => (PriceSpikeDetector.inspect cfg trade window, d)
  | volumeSpike cfg minTrades => (VolumeSpikeDetector.inspect cfg minTrades trade window, d)
  | velocity cfg => (VelocityDetector.inspect cfg trade window, d)
  | spoofing cfg => (SpoofingDetector.inspect cfg trade window, d)
  | washTrade cfg => (WashTradeDetector.inspect cfg trade window, d)
  | isolationForest forest =>
      let (answer, next) := forest.inspect trade window
      (answer, isolationForest next)

instance : Detector (ShippedDetector F M) F := ⟨name, inspect⟩

instance : LawfulDetector (ShippedDetector F M) F where
  name_inspect d trade window := by
    cases d <;> rfl
  built_inspect d trade window := by
    cases d with
    | zscore cfg minTrades => exact ZScoreDetector.inspect_built trade window cfg minTrades
    | priceSpike cfg => exact PriceSpikeDetector.inspect_built trade window cfg
    | volumeSpike cfg minTrades =>
        exact VolumeSpikeDetector.inspect_built trade window cfg minTrades
    | velocity cfg => exact VelocityDetector.inspect_built trade window cfg
    | spoofing cfg => exact SpoofingDetector.inspect_built trade window cfg
    | washTrade cfg => exact WashTradeDetector.inspect_built trade window cfg
    | isolationForest d => exact IsolationForestDetector.inspect_built d trade window

end ShippedDetector

end TradeWatch
