import FleetHealth.Monitor.Journal
import FleetHealth.Settings

/-!
# The monitoring engine

An engine holds checked settings and runs detection, diagnosis, correlation and forecasting against
a store. A run asks a source for its reads, keeps a journal, and stops at the first read that is
refused; what it leaves behind up to then stays. Only a finished fleet forecast changes the memo.
-/
namespace FleetHealth

/-- Answers reads. What was read before may change the answer. -/
abbrev Source := List Read → (r : Read) → Except Interruption r.Answer

def Store.source (s : Store) (clock : Instant) : Source := fun _ r => s.answer clock r

/-- What a run carries along. -/
structure Session where
  memo : Capacity.Memo
  journal : Journal

/-- A computation that reads a source and keeps a journal. -/
abbrev Run := ReaderT Source (ExceptT Interruption (StateM Session))

namespace Run

def exec {α : Type} (run : Run α) (source : Source) (session : Session) :
    Except Interruption α × Session :=
  ((ReaderT.run run source).run session : Id _)

def emit (e : Event) : Run Unit :=
  modify fun s => { s with journal := s.journal.addEvent e }

def count (c : Counter) (n : Nat) : Run Unit :=
  modify fun s => { s with journal := s.journal.addCount c n }

def memo : Run Capacity.Memo := do return (← get).memo

def setMemo (m : Capacity.Memo) : Run Unit := modify fun s => { s with memo := m }

/-- Ask the source. A refusal is counted and reported, and ends the run. -/
def read (label : String) (r : Read) : Run r.Answer := do
  let source ← (ReaderT.read : Run Source)
  let earlier := (← get).journal.reads
  modify fun s => { s with journal := s.journal.addRead r }
  match source earlier r with
  | .ok answer => pure answer
  | .error (.refused error) => do
    count (.storeErrors r.operation) 1
    emit (.readRefused label r.operation error)
    throw (.refused error)
  | .error interruption => throw interruption

end Run

structure Engine where
  settings : Settings
  label : String
  rules : List Rule

/-- The result of one detection cycle over a fleet. -/
structure FleetScan where
  verdicts : List Verdict
  diagnoses : List Diagnosis

def FleetScan.anomalies (s : FleetScan) : List Verdict := s.verdicts.filter (·.isAnomalous)

namespace Engine

def defaultLabel : String := "insight-engine"

/-- An engine with the standard rules, if its settings pass the check. -/
def ofSettings (s : Settings) : Except SettingsError Engine := do
  s.validate
  return ⟨s, defaultLabel, Rule.standard s.diagnosis.exhaustion⟩

def detector (e : Engine) : Detector := e.settings.anomaly.detector

def scorer (e : Engine) : Scorer := { e.settings.diagnosis.scorer with rules := e.rules }

def correlator (e : Engine) : Correlation.Correlator := e.settings.correlation.correlator

def fleetForecaster (e : Engine) : Capacity.FleetForecaster := e.settings.forecast.fleetForecaster

/-- An empty memo that stays fresh as long as the settings say. -/
def newMemo (e : Engine) : Capacity.Memo := .ofTtl e.settings.forecast.memoSeconds.toNat

def detect (e : Engine) (entity : String) (metric : Metric) (history : List Sample)
    (current : Float) : Run (Option Verdict) :=
  match e.detector.judge entity metric history current with
  | none => return none
  | some v => do
    Run.count .verdicts 1
    if v.isAnomalous then
      Run.count (.anomalies v.metric) 1
      Run.emit (.anomalyDetected e.label v)
    return some v

def diagnose (e : Engine) (entity : String) (verdicts : List Verdict) (time : Instant) :
    Run (Option Diagnosis) :=
  match e.scorer.diagnose entity verdicts time with
  | none => return none
  | some d => do
    Run.count (.diagnoses d.severity) 1
    Run.emit (.diagnosed e.label d)
    return some d

def forecast (e : Engine) (entity : String) (metric : Metric) (samples : List Sample) :
    Option Capacity.Forecast :=
  e.fleetForecaster.forecaster.forecast entity metric samples

def correlate (e : Engine) (metric : Metric) (series : List EntitySeries) :
    Run (List Correlation.Pair) := do
  let pass := e.correlator.run metric series
  Run.emit (.correlationPass pass)
  return Correlation.sortPairs pass.related

/-- The history of the latest sample: the samples read less that sample, where it is the last of
them, and at most a window of them otherwise. -/
def history (window : Nat) (samples : List Sample) (latest : Sample) : List Sample :=
  match samples.getLast? with
  | some last =>
    if last.time = latest.time then samples.dropLast else Series.takeLast window samples
  | none => []

/-- Judge the latest value of a metric against the samples before it. One more sample than the
window is read, counted in 64-bit words. -/
def judgeLatest (e : Engine) (entity : String) (metric : Metric) : Run (Option Verdict) := do
  let window := e.settings.anomaly.window
  let samples ← Run.read e.label (.recentSamples entity metric (window + 1))
  let latest ← Run.read e.label (.latestValue entity metric)
  match (latest : Option Sample) with
  | none => return none
  | some latest => e.detect entity metric (history window.toNat samples latest) latest.value

/-- Judge the latest value of each metric; metrics with too little history have no verdict. -/
def scanEntity (e : Engine) (entity : String) (metrics : List Metric) : Run (List Verdict) := do
  let verdicts ← metrics.mapM (e.judgeLatest entity)
  return verdicts.filterMap id

def examine (e : Engine) (time : Instant) (entity : String) :
    Run (List Verdict × Option Diagnosis) := do
  let verdicts ← e.scanEntity entity e.settings.anomaly.tracked
  let diagnosis ← e.diagnose entity verdicts time
  return (verdicts, diagnosis)

/-- One detection cycle over every entity of the store. -/
def scanFleet (e : Engine) (time : Instant) : Run FleetScan := do
  let entities ← Run.read e.label .listEntities
  let examined ← (entities : List String).mapM (e.examine time)
  let verdicts := examined.flatMap (·.1)
  let diagnoses := Diagnosis.sortByScore (examined.filterMap (·.2))
  Run.count (.runs .scan) 1
  Run.emit (.scanComplete e.label (entities : List String).length verdicts.length diagnoses.length)
  return ⟨verdicts, diagnoses⟩

/-- The bucketed series of one tracked metric. -/
def readSeries (e : Engine) (metric : Metric) : Run (Metric × List EntitySeries) := do
  let s := e.settings.correlation
  let series ← Run.read e.label (.bucketedAverages metric s.lookbackSeconds s.bucketSeconds)
  Run.emit (.seriesRead metric (series : Index String EntitySeries).size)
  return (metric, (series : Index String EntitySeries).values)

/-- The correlated pairs of every tracked metric, with one read a metric. -/
def correlations (e : Engine) : Run (List Correlation.Pair) := do
  let groups ← e.settings.correlation.tracked.mapM e.readSeries
  let pairs ← groups.mapM fun (metric, series) => e.correlate metric series
  let pairs := Correlation.sortPairs pairs.flatten
  Run.count .correlatedPairs pairs.length
  Run.count (.runs .correlate) 1
  Run.emit (.correlationRun e.label groups.length pairs.length)
  return pairs

/-- The forecast of one metric of an entity over everything stored. -/
def forecastMetric (e : Engine) (entity : String) (name : Option String) (metric : Metric) :
    Run (Option Capacity.Forecast) := do
  let samples ← Run.read e.label (.recentSamples entity metric 0xFFFFFFFFFFFFFFFF)
  return (e.forecast entity metric samples).map fun f => { f with displayName := name }

def entityForecasts (e : Engine) (entity : String) : Run (List Capacity.Forecast) := do
  let name ← Run.read e.label (.displayName entity)
  let forecasts ← e.settings.forecast.tracked.mapM (e.forecastMetric entity name)
  let forecasts := forecasts.filterMap id
  Run.count .forecasts forecasts.length
  return forecasts

/-- The most urgent forecasts of the fleet, from the memo while it has them, at moment `now` of its
clock. -/
def fleetForecast (e : Engine) (now limit : Nat) : Run (List Capacity.Forecast) := do
  match (← Run.memo).get? now limit with
  | some forecasts => do
    Run.count (.memoLookups true) 1
    Run.emit (.forecastRun e.label forecasts true)
    return forecasts
  | none => do
    Run.count (.memoLookups false) 1
    let s := e.settings.forecast
    let fleet ← Run.read e.label (.fleetSamples s.tracked s.fleetLookbackSeconds)
    let forecasts := e.fleetForecaster.mostUrgent fleet limit
    Run.setMemo ((← Run.memo).store now limit forecasts)
    Run.count .forecasts forecasts.length
    Run.count (.runs .forecast) 1
    Run.emit (.forecastRun e.label forecasts false)
    return forecasts

end Engine

/-- What an engine can be asked to do. -/
inductive Operation where
  | detect (entity : String) (metric : Metric) (history : List Sample) (current : Float)
  | diagnose (entity : String) (verdicts : List Verdict) (time : Instant)
  | forecast (entity : String) (metric : Metric) (samples : List Sample)
  | correlate (metric : Metric) (series : List EntitySeries)
  | scanEntity (entity : String) (metrics : List Metric)
  | scanFleet (time : Instant)
  | correlations
  | entityForecasts (entity : String)
  | fleetForecast (now limit : Nat)

namespace Operation

def Result : Operation → Type
  | detect .. => Option Verdict
  | diagnose .. => Option Diagnosis
  | forecast .. => Option Capacity.Forecast
  | correlate .. => List Correlation.Pair
  | scanEntity .. => List Verdict
  | scanFleet _ => FleetScan
  | correlations => List Correlation.Pair
  | entityForecasts _ => List Capacity.Forecast
  | fleetForecast .. => List Capacity.Forecast

def perform (e : Engine) : (o : Operation) → Run o.Result
  | detect entity metric history current => e.detect entity metric history current
  | diagnose entity verdicts time => e.diagnose entity verdicts time
  | forecast entity metric samples => return e.forecast entity metric samples
  | correlate metric series => e.correlate metric series
  | scanEntity entity metrics => e.scanEntity entity metrics
  | scanFleet time => e.scanFleet time
  | correlations => e.correlations
  | entityForecasts entity => e.entityForecasts entity
  | fleetForecast now limit => e.fleetForecast now limit

/-- How an operation ends against a store. -/
def outcome (o : Operation) (e : Engine) (store : Store) (clock : Instant) (session : Session) :
    Except Interruption o.Result := ((o.perform e).exec (store.source clock) session).1

end Operation

end FleetHealth
