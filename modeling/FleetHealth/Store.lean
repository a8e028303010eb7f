import FleetHealth.Store.Buckets

/-!
# The sample store

A store keeps, for each entity, a display name and a time-ordered series per metric. It answers the
reads that detection, correlation and forecasting make. "Now" is pinned, or taken from a clock.
-/
namespace FleetHealth

structure Store where
  records : Index String EntityRecord
  /-- The instant that counts as now; a clock is asked where there is none. -/
  pinned : Option Instant

inductive StoreError where
  | unavailable (reason : String)
  | unreadable (reason : String)
  | malformed (reason : String)
  deriving DecidableEq, Repr

def StoreError.message : StoreError → String
  | unavailable reason => "metrics store unavailable: " ++ reason
  | unreadable reason => "failed to read snapshot: " ++ reason
  | malformed reason => "failed to decode snapshot: " ++ reason

/-- A question to a store. Lookbacks and widths are in seconds. -/
inductive Read where
  | recentSamples (entity : String) (metric : Metric) (window : UInt64)
  | bucketedAverages (metric : Metric) (lookback width : UInt64)
  | latestValue (entity : String) (metric : Metric)
  | fleetSamples (metrics : List Metric) (lookback : UInt64)
  | listEntities
  | displayName (entity : String)

namespace Read

def Answer : Read → Type
  | recentSamples .. => List Sample
  | bucketedAverages .. => Index String EntitySeries
  | latestValue .. => Option Sample
  | fleetSamples .. => Index String EntityRecord
  | listEntities => List String
  | displayName _ => Option String

/-- The kind of read, as counted. -/
def operation : Read → String
  | recentSamples .. => "recent_samples"
  | bucketedAverages .. => "bucketed_averages"
  | latestValue .. => "latest_value"
  | fleetSamples .. => "fleet_samples"
  | listEntities => "list_entities"
  | displayName _ => "display_name"

end Read

/-- Why an operation stopped: the store refused a read, or a read could not be finished. -/
inductive Interruption where
  | refused (error : StoreError)
  | fault (fault : Buckets.Fault)

namespace Store

def empty : Store := ⟨.empty, none⟩

def record (s : Store) (entity : String) : EntityRecord :=
  (s.records.get? entity).getD .empty

def series (s : Store) (entity : String) (metric : Metric) : List Sample :=
  ((s.record entity).series.get? metric).getD []

def setDisplayName (s : Store) (entity name : String) : Store :=
  { s with records := s.records.alter entity fun old =>
      { old.getD .empty with displayName := some name } }

/-- Add samples to a record; the series stays in time order, and samples of one instant stay in the
order of their arrival. -/
def addSamples (metric : Metric) (samples : List Sample) (record : EntityRecord) : EntityRecord :=
  { record with series := record.series.alter metric fun old =>
      Series.sortByTime (old.getD [] ++ samples) }

def insert (s : Store) (entity : String) (metric : Metric) (samples : List Sample) : Store :=
  { s with records := s.records.alter entity fun old =>
    addSamples metric samples (old.getD .empty) }

def size (s : Store) : Nat := s.records.size

def isEmpty (s : Store) : Bool := s.records.isEmpty

def entities (s : Store) : List String := s.records.keys

def displayName (s : Store) (entity : String) : Option String := (s.record entity).displayName

def recent (s : Store) (entity : String) (metric : Metric) (window : Nat) : List Sample :=
  Series.takeLast window (s.series entity metric)

def latest? (s : Store) (entity : String) (metric : Metric) : Option Sample :=
  (s.series entity metric).getLast?

/-- A lookback in nanoseconds as a span of time, if a signed word counts its milliseconds. -/
def span? (nanos : Nat) : Option Nat := if nanos ≤ 9223372036854775807000000 then some nanos else none

/-- The earliest instant within a lookback in nanoseconds; all of the calendar where the lookback leaves
it or is no span of time. -/
def cutoffWithin (s : Store) (clock : Instant) (nanos : Nat) : Instant :=
  ((span? nanos).bind fun span => (s.pinned.getD clock).shift? (-span)).getD Instant.first

/-- The earliest instant within a lookback in seconds. -/
def cutoff (s : Store) (clock : Instant) (lookback : Nat) : Instant :=
  s.cutoffWithin clock (lookback * 1000000000)

/-- The recent samples of each of some metrics that has any. -/
def recentSeries (metrics : List Metric) (cutoff : Instant) (record : EntityRecord) :
    Index Metric (List Sample) :=
  .ofList (metrics.filterMap fun m => do
    let samples ← record.series.get? m
    let recent := Series.since cutoff samples
    guard !recent.isEmpty
    return (m, recent))

/-- The recent samples of every entity that has any, within a lookback in nanoseconds. -/
def fleetSamplesWithin (s : Store) (clock : Instant) (metrics : List Metric) (nanos : Nat) :
    Index String EntityRecord :=
  let cutoff := s.cutoffWithin clock nanos
  s.records.filterMap fun _ record =>
    let series := recentSeries metrics cutoff record
    if series.isEmpty then none else some ⟨record.displayName, series⟩

def fleetSamples (s : Store) (clock : Instant) (metrics : List Metric) (lookback : Nat) :
    Index String EntityRecord := s.fleetSamplesWithin clock metrics (lookback * 1000000000)

/-- The recent samples of a metric in one record, where there are any. -/
def recentIn? (metric : Metric) (cutoff : Instant) (entity : String) (record : EntityRecord) :
    Option EntitySeries := do
  let samples ← record.series.get? metric
  let recent := Series.since cutoff samples
  guard !recent.isEmpty
  return ⟨entity, record.displayName, recent⟩

def recentWithin (s : Store) (clock : Instant) (metric : Metric) (nanos : Nat) :
    Index String EntitySeries :=
  s.records.filterMap (recentIn? metric (s.cutoffWithin clock nanos))

def recentOf (s : Store) (clock : Instant) (metric : Metric) (lookback : Nat) :
    Index String EntitySeries := s.recentWithin clock metric (lookback * 1000000000)

/-- The recent samples of one metric, averaged in buckets, for every entity that has any. The lookback is
in nanoseconds, the width in milliseconds. -/
def averagesWithin (s : Store) (clock : Instant) (metric : Metric) (nanos milliseconds : Nat) :
    Except Buckets.Fault (Index String EntitySeries) :=
  let recent := s.recentWithin clock metric nanos
  let width := Buckets.wordWidth milliseconds
  if recent.values.all fun e => Buckets.divides width e.samples then
    .ok (recent.map fun e => { e with samples := Buckets.average width e.samples })
  else .error .divisionByZero

def bucketedAverages (s : Store) (clock : Instant) (metric : Metric) (lookback width : Nat) :
    Except Buckets.Fault (Index String EntitySeries) :=
  s.averagesWithin clock metric (lookback * 1000000000) (width * 1000)

/-- Answer a read, with `clock` as now unless the store has one pinned. -/
def answer (s : Store) (clock : Instant) : (r : Read) → Except Interruption r.Answer
  | .recentSamples entity metric window => .ok (s.recent entity metric window.toNat)
  | .bucketedAverages metric lookback width =>
    (s.bucketedAverages clock metric lookback.toNat width.toNat).mapError .fault
  | .latestValue entity metric => .ok (s.latest? entity metric)
  | .fleetSamples metrics lookback => .ok (s.fleetSamples clock metrics lookback.toNat)
  | .listEntities => .ok s.entities
  | .displayName entity => .ok (s.displayName entity)

end Store

end FleetHealth
