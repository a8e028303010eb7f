import FleetHealth.Capacity.Forecast
import FleetHealth.Correlation.Pairing
import FleetHealth.Diagnosis.Scorer
import FleetHealth.Wire.Series

/-!
# Written form of results

Baselines, verdicts, correlated pairs, diagnoses and forecasts as JSON, each with a reader that
takes back what the writer makes. An absent pattern or crossing is written `null`; absent names are
left out.
-/
namespace FleetHealth

open Json

namespace Baseline

def toJson (b : Baseline) : Json :=
  .object [("mean", .real b.mean), ("stdDev", .real b.deviation), ("sampleCount", .natural b.count)]

def ofJson? (j : Json) : Option Baseline := do
  match ← fields? ["mean", "stdDev", "sampleCount"] j with
  | [mean, deviation, count] =>
    return ⟨← mean.required double?, ← deviation.required double?, (← count.required word?).toNat⟩
  | _ => none

end Baseline

namespace Verdict

def toJson (v : Verdict) : Json :=
  .object [("entityId", .string v.entity), ("metricType", v.metric.toJson),
    ("currentValue", .real v.current), ("mean", .real v.mean), ("stdDev", .real v.deviation),
    ("zScore", .real v.zScore), ("isAnomalous", .bool v.isAnomalous)]

def ofJson? (j : Json) : Option Verdict := do
  match ← fields? ["entityId", "metricType", "currentValue", "mean", "stdDev", "zScore",
      "isAnomalous"] j with
  | [entity, metric, current, mean, deviation, zScore, isAnomalous] =>
    return ⟨← entity.required text?, ← metric.required Metric.ofJson?, ← current.required double?,
      ← mean.required double?, ← deviation.required double?, ← zScore.required double?,
      ← isAnomalous.required flag?⟩
  | _ => none

end Verdict

namespace Correlation.Pair

def toJson (p : Pair) : Json :=
  .object ([("entityA", .string p.entityA)] ++ optionalMember "entityAName" .string p.nameA ++
    [("entityB", .string p.entityB)] ++ optionalMember "entityBName" .string p.nameB ++
    [("metricType", p.metric.toJson), ("correlation", .real p.coefficient),
      ("strength", .string p.strength.name), ("direction", .string p.direction.name),
      ("sampleCount", .natural p.sampleCount)])

def ofJson? (j : Json) : Option Pair := do
  match ← fields? ["entityA", "entityAName", "entityB", "entityBName", "metricType", "correlation",
      "strength", "direction", "sampleCount"] j with
  | [entityA, nameA, entityB, nameB, metric, coefficient, strength, direction, count] =>
    return ⟨← entityA.required text?, ← nameA.defaulting none (nullable? text?),
      ← entityB.required text?, ← nameB.defaulting none (nullable? text?),
      ← metric.required Metric.ofJson?, ← coefficient.required double?,
      ← strength.required (label? Strength.ofName?),
      ← direction.required (label? Direction.ofName?),
      (← count.required word?).toNat⟩
  | _ => none

end Correlation.Pair

namespace Deviation

def toJson (d : Deviation) : Json :=
  .object [("type", d.metric.toJson), ("currentValue", .real d.current), ("mean", .real d.mean),
    ("zScore", .real d.zScore)]

def ofJson? (j : Json) : Option Deviation := do
  match ← fields? ["type", "currentValue", "mean", "zScore"] j with
  | [metric, current, mean, zScore] =>
    return ⟨← metric.required Metric.ofJson?, ← current.required double?, ← mean.required double?,
      ← zScore.required double?⟩
  | _ => none

end Deviation

namespace Pattern

def toJson (p : Pattern) : Json := .string p.name

def ofJson? : Json → Option Pattern := label? ofName?

end Pattern

namespace Diagnosis

def toJson (d : Diagnosis) : Json :=
  .object [("entityId", .string d.entity), ("metrics", .array (d.deviations.map Deviation.toJson)),
    ("compositeScore", .real d.score), ("pattern", d.pattern.elim .null Pattern.toJson),
    ("severity", .string d.severity.name), ("timestamp", d.time.toJson)]

def ofJson? (j : Json) : Option Diagnosis := do
  match ←
      fields? ["entityId", "metrics", "compositeScore", "pattern", "severity", "timestamp"] j with
  | [entity, deviations, score, pattern, severity, time] =>
    return ⟨← entity.required text?, ← deviations.required (list? Deviation.ofJson?),
      ← score.required double?, ← omissible Pattern.ofJson? pattern,
      ← severity.required (label? Severity.ofName?), ← time.required Instant.ofJson?⟩
  | _ => none

end Diagnosis

namespace Capacity.Point

def toJson (p : Point) : Json :=
  .object [("timestamp", p.time.toJson), ("value", .real p.value),
    ("isProjected", .bool p.isProjected)]

def ofJson? (j : Json) : Option Point := do
  match ← fields? ["timestamp", "value", "isProjected"] j with
  | [time, value, isProjected] =>
    return ⟨← time.required Instant.ofJson?, ← value.required double?, ← isProjected.required flag?⟩
  | _ => none

end Capacity.Point

namespace Capacity.Forecast

def toJson (f : Forecast) : Json :=
  .object ([("entityId", .string f.entity)] ++ optionalMember "displayName" .string f.displayName ++
    [("metricType", f.metric.toJson), ("currentValue", .real f.current),
      ("trend", .string f.trend.name), ("slope", .real f.slope), ("rSquared", .real f.fit),
      ("forecastPoints", .array (f.points.map Point.toJson)),
      ("timeToThresholdHours", f.hoursToThreshold.elim .null .real),
      ("confidence", .string f.confidence.name)])

def ofJson? (j : Json) : Option Forecast := do
  match ← fields? ["entityId", "displayName", "metricType", "currentValue", "trend", "slope",
      "rSquared", "forecastPoints", "timeToThresholdHours", "confidence"] j with
  | [entity, name, metric, current, trend, slope, fit, points, hours, confidence] =>
    return ⟨← entity.required text?, ← name.defaulting none (nullable? text?),
      ← metric.required Metric.ofJson?, ← current.required double?,
      ← trend.required (label? Trend.ofName?), ← slope.required double?, ← fit.required double?,
      ← points.required (list? Point.ofJson?), ← omissible double? hours,
      ← confidence.required (label? Confidence.ofName?)⟩
  | _ => none

end Capacity.Forecast

end FleetHealth
