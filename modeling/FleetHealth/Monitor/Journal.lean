import FleetHealth.Capacity.Fleet
import FleetHealth.Correlation.Pairing
import FleetHealth.Diagnosis.Scorer
import FleetHealth.Json
import FleetHealth.Store

/-!
# What a monitoring run leaves behind

A journal lists the store reads that a run made, the events it reported and the counters it
advanced, each in order. Events and counters are records of the domain; their written forms are here
too.
-/
namespace FleetHealth

inductive Level where
  | debug
  | info
  | warn
  deriving DecidableEq, Repr

def Level.name : Level → String
  | debug => "DEBUG"
  | info => "INFO"
  | warn => "WARN"

/-- Something worth telling. `source` names the engine that tells it. -/
inductive Event where
  | anomalyDetected (source : String) (verdict : Verdict)
  | diagnosed (source : String) (diagnosis : Diagnosis)
  | seriesRead (metric : Metric) (entities : Nat)
  | correlationPass (pass : Correlation.Correlator.Pass)
  | correlationRun (source : String) (metrics pairs : Nat)
  | forecastRun (source : String) (forecasts : List Capacity.Forecast) (cached : Bool)
  | scanComplete (source : String) (entities verdicts diagnoses : Nat)
  | readRefused (source : String) (operation : String) (error : StoreError)

namespace Event

/-- Urgent diagnoses and refused reads warn; only totals of a step are for debugging. -/
def level : Event → Level
  | anomalyDetected .. => .info
  | diagnosed _ d => if d.severity.isUrgent then .warn else .info
  | seriesRead .. => .debug
  | correlationPass .. => .debug
  | correlationRun .. => .info
  | forecastRun .. => .info
  | scanComplete .. => .debug
  | readRefused .. => .warn

def message : Event → String
  | anomalyDetected .. => "Metric deviates from its recent baseline"
  | diagnosed _ d => d.summary
  | seriesRead .. => "Read bucketed series"
  | correlationPass .. => "Correlation pass complete"
  | correlationRun .. => "Correlation run complete"
  | forecastRun .. => "Fleet forecast complete"
  | scanComplete .. => "Fleet scan complete"
  | readRefused .. => "Metrics store read failed"

def optionText : Option Pattern → String
  | none => "None"
  | some p => "Some(\"" ++ p.name ++ "\")"

def fields : Event → List (String × Json)
  | anomalyDetected source v =>
    [("event", .string "anomaly_detected"), ("source", .string source),
      ("entity_id", .string v.entity), ("metric_type", .string v.metric.name),
      ("current_value", .real v.current), ("mean", .real v.mean), ("z_score", .real v.zScore)]
  | diagnosed source d =>
    [("event", .string "composite_anomaly"), ("source", .string source),
      ("entity_id", .string d.entity), ("composite_score", .real d.score),
      ("severity", .string d.severity.name), ("pattern", .string (optionText d.pattern)),
      ("metrics", .natural d.deviations.length)]
  | seriesRead metric entities =>
    [("metric_type", .string metric.name), ("entities", .natural entities)]
  | correlationPass p =>
    [("metric_type", .string p.metric.name), ("entities", .natural p.offered),
      ("considered", .natural p.considered), ("skipped_pairs", .natural p.skipped),
      ("correlated_pairs", .natural p.related.length)]
  | correlationRun source metrics pairs =>
    [("event", .string "correlation_run"), ("source", .string source),
      ("metric_types", .natural metrics), ("pairs", .natural pairs)]
  | forecastRun source forecasts cached =>
    [("event", .string "forecast_run"), ("source", .string source),
      ("forecasts", .natural forecasts.length),
      ("rising", .natural (forecasts.countP fun f => decide (f.trend = .increasing))),
      ("crossing_threshold", .natural (forecasts.countP fun f => f.hoursToThreshold.isSome)),
      ("cached", .bool cached)]
  | scanComplete source entities verdicts diagnoses =>
    [("event", .string "scan_complete"), ("source", .string source),
      ("entities", .natural entities), ("verdicts", .natural verdicts),
      ("composites", .natural diagnoses)]
  | readRefused source operation error =>
    [("event", .string "store_error"), ("source", .string source), ("operation", .string operation),
      ("error", .string error.message)]

def toJson (e : Event) : Json :=
  .object ([("level", .string e.level.name), ("message", .string e.message)] ++ e.fields)

end Event

inductive RunKind where
  | scan
  | correlate
  | forecast
  deriving DecidableEq, Repr

def RunKind.name : RunKind → String
  | scan => "scan"
  | correlate => "correlate"
  | forecast => "forecast"

/-- A running total. For a timed run it is the number of runs. -/
inductive Counter where
  | verdicts
  | anomalies (metric : Metric)
  | diagnoses (severity : Severity)
  | correlatedPairs
  | forecasts
  | memoLookups (hit : Bool)
  | storeErrors (operation : String)
  | runs (kind : RunKind)
  deriving DecidableEq, Repr

namespace Counter

def family : Counter → String
  | verdicts => "insight_verdicts_total"
  | anomalies _ => "insight_anomalies_total"
  | diagnoses _ => "insight_composite_anomalies_total"
  | correlatedPairs => "insight_correlated_pairs_total"
  | forecasts => "insight_forecasts_total"
  | memoLookups _ => "insight_forecast_cache_lookups_total"
  | storeErrors _ => "insight_store_errors_total"
  | runs _ => "insight_run_latency_seconds"

/-- The label that tells totals of one family apart. -/
def label? : Counter → Option (String × String)
  | anomalies metric => some ("metric_type", metric.name)
  | diagnoses severity => some ("severity", severity.name)
  | memoLookups hit => some ("result", if hit then "hit" else "miss")
  | storeErrors operation => some ("operation", operation)
  | runs kind => some ("run", kind.name)
  | _ => none

end Counter

/-- Reads, events and counts, each in the order in which they came. -/
structure Journal where
  reads : List Read
  events : List Event
  counts : List (Counter × Nat)

namespace Journal

def empty : Journal := ⟨[], [], []⟩

def addRead (j : Journal) (r : Read) : Journal := { j with reads := j.reads ++ [r] }

def addEvent (j : Journal) (e : Event) : Journal := { j with events := j.events ++ [e] }

def addCount (j : Journal) (c : Counter) (n : Nat) : Journal :=
  { j with counts := j.counts ++ [(c, n)] }

/-- By how much a counter grew. -/
def growth (j : Journal) (c : Counter) : Nat :=
  (j.counts.filter (·.1 = c)).foldr (fun e n => e.2 + n) 0

/-- The counters that grew, each with its growth. -/
def grown (j : Journal) : List (Counter × Nat) :=
  ((j.counts.map (·.1)).eraseDups.map fun c => (c, j.growth c)).filter fun (_, n) => n ≠ 0

end Journal

end FleetHealth
