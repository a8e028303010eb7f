import FleetHealth.Json.Fields
import FleetHealth.Settings
import FleetHealth.Wire.Series

/-!
# Reading settings

Settings are read from a tree of values. A `Format` says how a kind of tree shows records, reals,
words and lists of metrics; every field and every section may be left out and then has its default.
The strict format is JSON as it stands.
-/
namespace FleetHealth

/-- How a kind of tree shows the parts of settings. -/
structure Format (τ : Type) where
  fields? : List String → τ → Option (List (Field τ))
  real? : τ → Option Float
  word? : τ → Option UInt64
  metrics? : τ → Option (List Metric)

def AnomalySettings.fields : List String :=
  ["threshold", "window_size", "min_samples", "tracked_metrics"]

def DiagnosisSettings.fields : List String :=
  ["elevated_threshold", "exhaustion_threshold", "min_score"]

def CorrelationSettings.fields : List String :=
  ["threshold", "max_entities", "min_aligned_points", "lookback_hours", "bucket_width_secs",
    "tracked_metrics"]

def ForecastSettings.fields : List String :=
  ["threshold", "horizon_hours", "projected_points", "actual_points", "min_samples",
    "lookback_hours", "max_time_to_threshold_hours", "fleet_lookback_hours", "max_points",
    "cache_ttl_secs", "tracked_metrics"]

/-- The sections and their fields. -/
def Settings.sections : List (String × List String) :=
  [("anomaly", AnomalySettings.fields), ("composite", DiagnosisSettings.fields),
    ("correlation", CorrelationSettings.fields), ("forecast", ForecastSettings.fields)]

namespace Format

variable {τ : Type} (f : Format τ)

def anomaly? (t : τ) : Option AnomalySettings := do
  let s := AnomalySettings.standard
  match ← f.fields? AnomalySettings.fields t with
  | [threshold, window, minSamples, tracked] =>
    return ⟨← threshold.defaulting s.threshold f.real?, ← window.defaulting s.window f.word?,
      ← minSamples.defaulting s.minSamples f.word?, ← tracked.defaulting s.tracked f.metrics?⟩
  | _ => none

def diagnosis? (t : τ) : Option DiagnosisSettings := do
  let s := DiagnosisSettings.standard
  match ← f.fields? DiagnosisSettings.fields t with
  | [elevated, exhaustion, minScore] =>
    return ⟨← elevated.defaulting s.elevated f.real?, ← exhaustion.defaulting s.exhaustion f.real?,
      ← minScore.defaulting s.minScore f.real?⟩
  | _ => none

def correlation? (t : τ) : Option CorrelationSettings := do
  let s := CorrelationSettings.standard
  match ← f.fields? CorrelationSettings.fields t with
  | [threshold, maxEntities, minAligned, lookback, bucket, tracked] =>
    return ⟨← threshold.defaulting s.threshold f.real?,
      ← maxEntities.defaulting s.maxEntities f.word?,
      ← minAligned.defaulting s.minAligned f.word?, ← lookback.defaulting s.lookbackHours f.word?,
      ← bucket.defaulting s.bucketSeconds f.word?, ← tracked.defaulting s.tracked f.metrics?⟩
  | _ => none

def forecast? (t : τ) : Option ForecastSettings := do
  let s := ForecastSettings.standard
  match ← f.fields? ForecastSettings.fields t with
  | [threshold, horizon, projected, actual, minSamples, lookback, maxHours, fleetLookback,
      maxPoints, memo, tracked] =>
    return ⟨← threshold.defaulting s.threshold f.real?, ← horizon.defaulting s.horizonHours f.real?,
      ← projected.defaulting s.projectedPoints f.word?, ← actual.defaulting s.actualPoints f.word?,
      ← minSamples.defaulting s.minSamples f.word?, ← lookback.defaulting s.lookbackHours f.real?,
      ← maxHours.defaulting s.maxHoursToThreshold f.real?,
      ← fleetLookback.defaulting s.fleetLookbackHours f.word?,
      ← maxPoints.defaulting s.maxPoints f.word?, ← memo.defaulting s.memoSeconds f.word?,
      ← tracked.defaulting s.tracked f.metrics?⟩
  | _ => none

def settings? (t : τ) : Option Settings := do
  match ← f.fields? (Settings.sections.map (·.1)) t with
  | [anomaly, diagnosis, correlation, forecast] =>
    return ⟨← anomaly.defaulting .standard f.anomaly?,
      ← diagnosis.defaulting .standard f.diagnosis?,
      ← correlation.defaulting .standard f.correlation?,
      ← forecast.defaulting .standard f.forecast?⟩
  | _ => none

/-- JSON as it stands: integers are taken for reals, and nothing else for anything else. -/
def json : Format Json where
  fields? := Json.fields?
  real? := Json.double?
  word? := Json.word?
  metrics? := Json.list? Metric.ofJson?

end Format

end FleetHealth
