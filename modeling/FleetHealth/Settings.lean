import FleetHealth.Anomaly.Detector
import FleetHealth.Capacity.Fleet
import FleetHealth.Correlation.Pairing
import FleetHealth.Decimal.Shortest
import FleetHealth.Diagnosis.Scorer

/-!
# Settings

The numbers that steer detection, diagnosis, correlation and forecasting, their defaults, and the
check that refuses settings under which the results would mean nothing. Counts and durations are
64-bit words.
-/
namespace FleetHealth

structure AnomalySettings where
  threshold : Float
  window : UInt64
  minSamples : UInt64
  tracked : List Metric

def AnomalySettings.standard : AnomalySettings := ⟨2.0, 30, 5, [.cpu, .memory, .memoryBytes]⟩

structure DiagnosisSettings where
  elevated : Float
  exhaustion : Float
  minScore : Float

def DiagnosisSettings.standard : DiagnosisSettings := ⟨1.0, 2.0, 2.0⟩

structure CorrelationSettings where
  threshold : Float
  maxEntities : UInt64
  minAligned : UInt64
  lookbackHours : UInt64
  bucketSeconds : UInt64
  tracked : List Metric

def CorrelationSettings.standard : CorrelationSettings := ⟨0.7, 50, 5, 24, 300, [.cpu, .memory]⟩

structure ForecastSettings where
  threshold : Float
  horizonHours : Float
  projectedPoints : UInt64
  actualPoints : UInt64
  minSamples : UInt64
  lookbackHours : Float
  maxHoursToThreshold : Float
  fleetLookbackHours : UInt64
  maxPoints : UInt64
  memoSeconds : UInt64
  tracked : List Metric

def ForecastSettings.standard : ForecastSettings :=
  ⟨90.0, 24.0, 12, 5, 5, 24.0, 168.0, 6, 180, 300, [.cpu, .memory]⟩

structure Settings where
  anomaly : AnomalySettings
  diagnosis : DiagnosisSettings
  correlation : CorrelationSettings
  forecast : ForecastSettings

def Settings.standard : Settings := ⟨.standard, .standard, .standard, .standard⟩

/-- Hours in seconds, at most the greatest word. -/
def hoursAsSeconds (hours : UInt64) : UInt64 :=
  UInt64.ofNat (min (hours.toNat * 3600) 0xFFFFFFFFFFFFFFFF)

def CorrelationSettings.lookbackSeconds (s : CorrelationSettings) : UInt64 :=
  hoursAsSeconds s.lookbackHours

def ForecastSettings.fleetLookbackSeconds (s : ForecastSettings) : UInt64 :=
  hoursAsSeconds s.fleetLookbackHours

inductive RealSetting where
  | anomalyThreshold
  | elevatedThreshold
  | exhaustionThreshold
  | minScore
  | correlationThreshold
  | forecastThreshold
  | horizonHours
  | lookbackHours
  | maxHoursToThreshold
  deriving DecidableEq, Repr

namespace RealSetting

def all : List RealSetting :=
  [anomalyThreshold, elevatedThreshold, exhaustionThreshold, minScore, correlationThreshold,
    forecastThreshold, horizonHours, lookbackHours, maxHoursToThreshold]

/-- Section and field, as in a settings file. -/
def name : RealSetting → String
  | anomalyThreshold => "anomaly.threshold"
  | elevatedThreshold => "composite.elevated_threshold"
  | exhaustionThreshold => "composite.exhaustion_threshold"
  | minScore => "composite.min_score"
  | correlationThreshold => "correlation.threshold"
  | forecastThreshold => "forecast.threshold"
  | horizonHours => "forecast.horizon_hours"
  | lookbackHours => "forecast.lookback_hours"
  | maxHoursToThreshold => "forecast.max_time_to_threshold_hours"

def get (s : Settings) : RealSetting → Float
  | anomalyThreshold => s.anomaly.threshold
  | elevatedThreshold => s.diagnosis.elevated
  | exhaustionThreshold => s.diagnosis.exhaustion
  | minScore => s.diagnosis.minScore
  | correlationThreshold => s.correlation.threshold
  | forecastThreshold => s.forecast.threshold
  | horizonHours => s.forecast.horizonHours
  | lookbackHours => s.forecast.lookbackHours
  | maxHoursToThreshold => s.forecast.maxHoursToThreshold

def set (s : Settings) (x : Float) : RealSetting → Settings
  | anomalyThreshold => { s with anomaly := { s.anomaly with threshold := x } }
  | elevatedThreshold => { s with diagnosis := { s.diagnosis with elevated := x } }
  | exhaustionThreshold => { s with diagnosis := { s.diagnosis with exhaustion := x } }
  | minScore => { s with diagnosis := { s.diagnosis with minScore := x } }
  | correlationThreshold => { s with correlation := { s.correlation with threshold := x } }
  | forecastThreshold => { s with forecast := { s.forecast with threshold := x } }
  | horizonHours => { s with forecast := { s.forecast with horizonHours := x } }
  | lookbackHours => { s with forecast := { s.forecast with lookbackHours := x } }
  | maxHoursToThreshold => { s with forecast := { s.forecast with maxHoursToThreshold := x } }

/-- The ones that may not be negative, in the order in which they are checked. -/
def checked : List RealSetting :=
  [anomalyThreshold, elevatedThreshold, exhaustionThreshold, minScore, correlationThreshold,
    forecastThreshold, horizonHours, lookbackHours]

end RealSetting

inductive SettingsError where
  | notNonNegative (setting : RealSetting) (value : Float)
  | windowBelowMinSamples (window minSamples : UInt64)
  | correlationAboveOne
  | zeroBucket
  | tooFewPoints

/-- What is wrong, for the person who wrote the settings. -/
def SettingsError.message : SettingsError → String
  | notNonNegative setting value =>
    "invalid configuration: " ++ setting.name ++ " must be a non-negative number, got " ++
      Decimal.plain value
  | windowBelowMinSamples window minSamples =>
    "invalid configuration: anomaly.window_size (" ++ toString window.toNat ++
      ") must be at least anomaly.min_samples (" ++ toString minSamples.toNat ++ ")"
  | correlationAboveOne => "invalid configuration: correlation.threshold must be within [0, 1]"
  | zeroBucket => "invalid configuration: correlation.bucket_width_secs must be positive"
  | tooFewPoints => "invalid configuration: forecast.max_points must be at least 2"

namespace Settings

/-- A real setting that may not stand: negative, infinite, or no number. -/
def isRefused (s : Settings) (setting : RealSetting) : Bool :=
  let x := setting.get s
  !x.isFinite || decide (x < 0.0)

/-- The first reason to refuse the settings, if there is one. -/
def problem? (s : Settings) : Option SettingsError :=
  match RealSetting.checked.find? s.isRefused with
  | some setting => some (.notNonNegative setting (setting.get s))
  | none =>
    if s.anomaly.window < s.anomaly.minSamples then
      some (.windowBelowMinSamples s.anomaly.window s.anomaly.minSamples)
    else if s.correlation.threshold > 1.0 then some .correlationAboveOne
    else if s.correlation.bucketSeconds = 0 then some .zeroBucket
    else if s.forecast.maxPoints < 2 then some .tooFewPoints
    else none

def validate (s : Settings) : Except SettingsError Unit :=
  match s.problem? with
  | some e => .error e
  | none => .ok ()

end Settings

def AnomalySettings.detector (s : AnomalySettings) : Detector :=
  ⟨s.threshold, s.window.toNat, s.minSamples.toNat⟩

def DiagnosisSettings.scorer (s : DiagnosisSettings) : Scorer :=
  ⟨s.elevated, s.minScore, Rule.standard s.exhaustion⟩

def CorrelationSettings.correlator (s : CorrelationSettings) : Correlation.Correlator :=
  ⟨s.threshold, s.maxEntities.toNat, s.minAligned.toNat⟩

/-- A forecast is never made from fewer than two samples. -/
def ForecastSettings.forecaster (s : ForecastSettings) : Capacity.Forecaster :=
  ⟨s.threshold, s.horizonHours, s.projectedPoints.toNat, s.actualPoints.toNat,
    max s.minSamples.toNat 2, s.lookbackHours, s.maxHoursToThreshold⟩

def ForecastSettings.fleetForecaster (s : ForecastSettings) : Capacity.FleetForecaster :=
  ⟨s.forecaster, s.tracked, s.maxPoints.toNat⟩

/-! ### Settings that pass the check -/

namespace Settings

/-- What it takes for settings to be accepted. -/
structure Accepted (s : Settings) : Prop where
  reals : ∀ r ∈ RealSetting.checked, s.isRefused r = false
  window : s.anomaly.minSamples ≤ s.anomaly.window
  correlation : ¬ s.correlation.threshold > 1.0
  bucket : s.correlation.bucketSeconds ≠ 0
  points : 2 ≤ s.forecast.maxPoints

theorem ite_some_eq_none {α : Type} {c : Prop} [Decidable c] {a : α} {o : Option α} :
    (if c then some a else o) = none ↔ ¬ c ∧ o = none := by
  by_cases h : c <;> simp [h]

theorem problem?_eq_none_iff (s : Settings) : s.problem? = none ↔ s.Accepted := by
  rw [problem?]
  rcases hf : RealSetting.checked.find? s.isRefused with _ | r
  · simp only [ite_some_eq_none, and_true, UInt64.not_lt]
    refine ⟨fun ⟨hw, hc, hb, hp⟩ => ⟨fun r hr => ?_, hw, hc, hb, hp⟩,
      fun h => ⟨h.window, h.correlation, h.bucket, h.points⟩⟩
    exact Bool.not_eq_true _ ▸ List.find?_eq_none.1 hf r hr
  · refine ⟨fun h => (by cases h), fun h => ?_⟩
    have hr := h.reals r (List.mem_of_find?_eq_some hf)
    rw [List.find?_some hf] at hr
    cases hr

theorem validate_ok_iff (s : Settings) : s.validate = .ok () ↔ s.Accepted := by
  rw [← problem?_eq_none_iff, validate]
  cases s.problem? <;> simp

end Settings

end FleetHealth
