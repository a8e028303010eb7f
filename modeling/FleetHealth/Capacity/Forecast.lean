import FleetHealth.Binary64
import FleetHealth.Capacity.Line

/-!
# Capacity forecasts

A forecaster fits a line to the recent window of one series, extends it over a horizon, and tells
when the line reaches a ceiling.
-/
namespace FleetHealth.Capacity

inductive Trend where
  | increasing
  | decreasing
  | stable
  deriving DecidableEq, Repr

namespace Trend

def all : List Trend := [increasing, decreasing, stable]

def name : Trend → String
  | increasing => "increasing"
  | decreasing => "decreasing"
  | stable => "stable"

def ofName? (s : String) : Option Trend := all.find? (fun v => v.name == s)

theorem ofName?_name (v : Trend) : ofName? v.name = some v := by cases v <;> decide

/-- Slope per hour below which a series counts as stable. -/
def stableSlope : Float := 0.1

def ofSlope (slope : Float) : Trend :=
  if slope.abs < stableSlope then stable else if slope > 0.0 then increasing else decreasing

end Trend

inductive Confidence where
  | low
  | medium
  | high
  deriving DecidableEq, Repr

namespace Confidence

def all : List Confidence := [low, medium, high]

def name : Confidence → String
  | low => "low"
  | medium => "medium"
  | high => "high"

def ofName? (s : String) : Option Confidence := all.find? (fun v => v.name == s)

theorem ofName?_name (v : Confidence) : ofName? v.name = some v := by cases v <;> decide

/-- Trust in a line by the part it explains and the number of samples under it. -/
def ofFit (fit : Float) (samples : Nat) : Confidence :=
  if fit > 0.7 ∧ 20 < samples then high else if fit > 0.4 ∧ 10 < samples then medium else low

end Confidence

structure Point where
  time : Instant
  value : Float
  isProjected : Bool

structure Forecast where
  entity : String
  displayName : Option String
  metric : Metric
  current : Float
  trend : Trend
  /-- Change per hour. -/
  slope : Float
  fit : Float
  points : List Point
  hoursToThreshold : Option Float
  confidence : Confidence

structure Forecaster where
  threshold : Float
  horizonHours : Float
  projectedPoints : Nat
  actualPoints : Nat
  minSamples : Nat
  /-- Samples older than this before the newest are left out. -/
  lookbackHours : Float
  /-- Crossings further off than this are not told. -/
  maxHoursToThreshold : Float

namespace Forecaster

def defaultMinSamples : Nat := 5

def standard : Forecaster := ⟨90.0, 24.0, 12, 5, defaultMinSamples, 24.0, 168.0⟩

/-- Hours as whole milliseconds, toward zero; none for hours that make no finite number of them. -/
def hoursToMillis? (hours : Float) : Option Int :=
  let ms := hours * 3600000.0
  if ms.isFinite then some (Binary64.truncate ms) else none

/-- The instant some hours after `t`, if the calendar has it. -/
def after? (t : Instant) (hours : Float) : Option Instant :=
  (hoursToMillis? hours).bind fun ms => t.shift? (ms * 1000000)

/-- The instant some hours before `t`, if the calendar has it. -/
def before? (t : Instant) (hours : Float) : Option Instant :=
  (hoursToMillis? hours).bind fun ms => t.shift? (-(ms * 1000000))

def ordered (samples : List Sample) : List Sample :=
  let finite := Series.finite samples
  if Series.isSorted finite then finite else Series.sortByTime finite

/-- The samples a forecast is made from: finite, in time order, and not older than the lookback. A
lookback that leaves the calendar keeps everything. -/
def window (f : Forecaster) (samples : List Sample) : List Sample :=
  let all := ordered samples
  match all.getLast? with
  | none => all
  | some newest =>
    match before? newest.time f.lookbackHours with
    | none => all
    | some cutoff => Series.since cutoff all

/-- Hours until `current` reaches the ceiling at `slope` per hour, in tenths. Told only for a rising
series below the ceiling, and only for a crossing that is neither now nor too far off. -/
def hoursToThreshold (f : Forecaster) (current slope : Float) : Option Float :=
  if slope ≤ 0.0 ∨ current ≥ f.threshold then none
  else
    let hours := (f.threshold - current) / slope
    if hours.isFinite then
      let hours := Binary64.roundTo hours 1
      if hours > 0.0 ∧ hours ≤ f.maxHoursToThreshold then some hours else none
    else none

def offset (f : Forecaster) (i : Nat) : Float :=
  f.horizonHours * Float.ofNat i / Float.ofNat (max f.projectedPoints 1)

/-- The `i`-th projected point, if the calendar has its instant. -/
def projected? (f : Forecaster) (metric : Metric) (line : Line Float) (newest : Instant)
    (lastX : Float) (i : Nat) : Option Point :=
  (after? newest (f.offset i)).map fun time =>
    ⟨time, Binary64.roundTo (metric.clamp (line.value (lastX + f.offset i))) 2, true⟩

/-- The projected points in order, up to the first without an instant. `left` of them remain. -/
def projection (f : Forecaster) (metric : Metric) (line : Line Float) (newest : Instant)
    (lastX : Float) : (left i : Nat) → List Point
  | 0, _ => []
  | left + 1, i =>
    match f.projected? metric line newest lastX i with
    | none => []
    | some p => p :: projection f metric line newest lastX left (i + 1)

/-- The last actual samples, then the projected points. -/
def points (f : Forecaster) (metric : Metric) (window : List Sample) (line : Line Float)
    (newest : Instant) (lastX : Float) : List Point :=
  (Series.takeLast f.actualPoints window).map (fun s => ⟨s.time, s.value, false⟩) ++
    f.projection metric line newest lastX f.projectedPoints 1

/-- The forecast of one series; none where its window has too few samples. -/
def forecast (f : Forecaster) (entity : String) (metric : Metric) (samples : List Sample) :
    Option Forecast :=
  let window := f.window samples
  if window.length < f.minSamples then none
  else
    window.getLast?.map fun last =>
      let hours := Line.hours Sample.value window
      let line := Line.through hours
      let lastX := (hours.getLast?.map (·.1)).getD 0.0
      ⟨entity, none, metric, last.value, Trend.ofSlope line.slope, Binary64.roundTo line.slope 4,
        Binary64.roundTo line.fit 3, f.points metric window line last.time lastX,
        f.hoursToThreshold last.value line.slope, Confidence.ofFit line.fit window.length⟩

end Forecaster

end FleetHealth.Capacity
