import FleetHealth.Binary64
import FleetHealth.Sample

/-!
# Anomaly verdicts

A baseline is the mean and the population standard deviation of a window of recent values. A detector
compares one value with the baseline of the samples before it. The verdict carries the rounded z-score,
which is the distance from the mean in standard deviations; the value is anomalous where its magnitude
is above the threshold.
-/
namespace FleetHealth

structure Baseline where
  mean : Float
  deviation : Float
  count : Nat

namespace Baseline

open Binary64 (sum epsilon)

/-- The baseline of some values, if there are any. A deviation that is not finite counts as 0. -/
def ofValues? (values : List Float) : Option Baseline :=
  if values.isEmpty then none
  else
    let n := Binary64.count values
    let mean := sum values / n
    let variance := sum (values.map fun v => (v - mean) * (v - mean)) / n
    let deviation := variance.sqrt
    some ⟨mean, if deviation.isFinite then deviation else 0.0, values.length⟩

/-- The baseline of the finite values among the last `window` samples. -/
def ofSamples? (samples : List Sample) (window : Nat) : Option Baseline :=
  ofValues? ((Series.finite (Series.takeLast window samples)).map (·.value))

/-- Standard deviations from the mean to `value`; 0 over a flat baseline, and 0 where the quotient
is not finite. -/
def zScore (b : Baseline) (value : Float) : Float :=
  if b.deviation < epsilon then 0.0
  else
    let z := (value - b.mean) / b.deviation
    if z.isFinite then z else 0.0

end Baseline

/-! ### Detection -/

structure Verdict where
  entity : String
  metric : Metric
  current : Float
  mean : Float
  deviation : Float
  zScore : Float
  isAnomalous : Bool

structure Detector where
  /-- A z-score of larger magnitude is anomalous. -/
  threshold : Float
  /-- How many of the most recent samples make the baseline. -/
  window : Nat
  /-- Fewer finite values than this give no verdict. -/
  minSamples : Nat

namespace Detector

def defaultWindow : Nat := 30

def defaultMinSamples : Nat := 5

def standard : Detector := ⟨2.0, defaultWindow, defaultMinSamples⟩

/-- Judge `current` against the history before it; no verdict for a value that is not finite, or
over too little history. -/
def judge (d : Detector) (entity : String) (metric : Metric) (history : List Sample)
    (current : Float) : Option Verdict := do
  guard current.isFinite
  let baseline ← Baseline.ofSamples? history d.window
  guard (d.minSamples ≤ baseline.count)
  let z := Binary64.roundTo (baseline.zScore current) 2
  return ⟨entity, metric, current, baseline.mean, baseline.deviation, z, z.abs > d.threshold⟩

end Detector

end FleetHealth
