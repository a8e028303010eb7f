import FleetHealth.Capacity.Forecast

/-!
# Forecasts of a fleet

Every tracked series of every entity is thinned to a budget and forecast; the most urgent forecasts
come first. A memo keeps the last fleet result for a while.
-/
namespace FleetHealth.Capacity

/-- Every `stride`-th item, the first included. -/
def everyNth {α : Type} (stride : Nat) (l : List α) : List α :=
  go 0 l
where
  /-- Skips the given number of items before the next one kept. -/
  go : Nat → List α → List α
    | _, [] => []
    | 0, a :: rest => a :: go (stride - 1) rest
    | skip + 1, _ :: rest => go skip rest

/-- At most `budget` samples at an even stride, the newest always among them. A list within the
budget, or a budget below two, changes nothing. -/
def thin (samples : List Sample) (budget : Nat) : List Sample :=
  let n := samples.length
  if n ≤ budget ∨ budget < 2 then samples
  else
    let stride := (n + budget - 1) / budget
    let picked := everyNth stride samples
    if (n - 1) % stride = 0 then picked
    else
      let kept := if budget ≤ picked.length then picked.dropLast else picked
      kept ++ samples.getLast?.toList

namespace Forecast

/-- An earlier crossing first, no crossing last. -/
def compareCrossing : Option Float → Option Float → Ordering
  | some a, some b => Binary64.totalCompare a b
  | some _, none => .lt
  | none, some _ => .gt
  | none, none => .eq

/-- Rising series first, then the soonest crossing, ties by entity and metric. -/
def urgency (a b : Forecast) : Ordering :=
  (compare (decide (b.trend = .increasing)) (decide (a.trend = .increasing))).then
    ((compareCrossing a.hoursToThreshold b.hoursToThreshold).then
      ((compare a.entity b.entity).then (compare a.metric b.metric)))

def rank (forecasts : List Forecast) : List Forecast :=
  forecasts.mergeSort fun a b => (urgency a b).isLE

end Forecast

structure FleetForecaster where
  forecaster : Forecaster
  tracked : List Metric
  /-- Longer series are thinned to this many samples. -/
  maxPoints : Nat

namespace FleetForecaster

def defaultMaxPoints : Nat := 180

def defaultTracked : List Metric := [.cpu, .memory]

def candidate? (f : FleetForecaster) (entity : String) (record : EntityRecord) (metric : Metric) :
    Option Forecast := do
  let samples ← record.series.get? metric
  guard (f.forecaster.minSamples ≤ samples.length)
  let forecast ← f.forecaster.forecast entity metric (thin samples f.maxPoints)
  return { forecast with displayName := record.displayName }

def candidates (f : FleetForecaster) (fleet : Index String EntityRecord) : List Forecast :=
  fleet.entries.flatMap fun (entity, record) => f.tracked.filterMap (f.candidate? entity record)

def mostUrgent (f : FleetForecaster) (fleet : Index String EntityRecord) (limit : Nat) :
    List Forecast :=
  (Forecast.rank (f.candidates fleet)).take limit

end FleetForecaster

/-- A fleet result with the limit it was made for and the moment it was stored, in nanoseconds of a
clock that never goes back. -/
structure MemoEntry where
  storedAt : Nat
  limit : Nat
  forecasts : List Forecast

/-- The last fleet result, fresh for `ttlSeconds`. -/
structure Memo where
  ttlSeconds : Nat
  entry : Option MemoEntry

namespace Memo

def defaultTtlSeconds : Nat := 300

def ofTtl (ttlSeconds : Nat) : Memo := ⟨ttlSeconds, none⟩

/-- The first `limit` forecasts of the stored result, while it is fresh and was made for at least as
many. -/
def get? (m : Memo) (now limit : Nat) : Option (List Forecast) := do
  let entry ← m.entry
  guard (now - entry.storedAt < m.ttlSeconds * 1000000000 ∧ limit ≤ entry.limit)
  return entry.forecasts.take limit

def store (m : Memo) (now limit : Nat) (forecasts : List Forecast) : Memo :=
  { m with entry := some ⟨now, limit, forecasts⟩ }

def clear (m : Memo) : Memo := { m with entry := none }

def isEmpty (m : Memo) : Bool := m.entry.isNone

end Memo

end FleetHealth.Capacity
