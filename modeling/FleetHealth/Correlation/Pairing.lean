import FleetHealth.Binary64
import FleetHealth.Correlation.Coefficient

/-!
# Correlated pairs of entities

For one metric, the entities with the most samples are compared with each other, and the pairs with
a strong coefficient are reported, strongest first.
-/
namespace FleetHealth.Correlation

structure Pair where
  entityA : String
  nameA : Option String
  entityB : String
  nameB : Option String
  metric : Metric
  coefficient : Float
  strength : Strength
  direction : Direction
  sampleCount : Nat

/-- Strongest first; ties by metric, then by the entities. -/
def Pair.precedes (a b : Pair) : Bool :=
  ((Binary64.totalCompare b.coefficient.abs a.coefficient.abs).then
    ((compare a.metric b.metric).then
      ((compare a.entityA b.entityA).then (compare a.entityB b.entityB)))).isLE

def sortPairs (pairs : List Pair) : List Pair := pairs.mergeSort Pair.precedes

structure Correlator where
  /-- Pairs with a smaller magnitude are not reported. -/
  threshold : Float
  /-- How many entities of a metric are compared. -/
  maxEntities : Nat
  /-- Pairs with fewer shared instants are skipped. -/
  minAligned : Nat

/-- How a pair of series compares. -/
inductive Comparison where
  | tooFewShared
  | unrelated
  | related (pair : Pair)

namespace Correlator

def defaultMaxEntities : Nat := 50

def defaultMinAligned : Nat := 5

def standard : Correlator := ⟨0.7, defaultMaxEntities, defaultMinAligned⟩

/-- More samples first, ties by entity. -/
def denser (a b : EntitySeries) : Bool :=
  ((compare b.samples.length a.samples.length).then (compare a.entity b.entity)).isLE

def firstOfEach (seen : List String) : List EntitySeries → List EntitySeries
  | [] => []
  | s :: rest =>
    if seen.contains s.entity then firstOfEach seen rest
    else s :: firstOfEach (s.entity :: seen) rest

/-- The series compared: of each entity the one with most samples, the densest entities only. -/
def select (c : Correlator) (series : List EntitySeries) : List EntitySeries :=
  (firstOfEach [] (series.mergeSort denser)).take c.maxEntities

/-- Compare two series; coefficients are rounded to three places before they are judged. -/
def compareSeries (c : Correlator) (metric : Metric) (a b : EntitySeries) : Comparison :=
  let pairs := align a.samples b.samples
  if pairs.length < max c.minAligned 2 then .tooFewShared
  else
    let r := Binary64.clamp (-1.0) 1.0 (Binary64.roundTo (Correlation.coefficient pairs) 3)
    let strength := Strength.ofCoefficient r
    if r.abs < c.threshold ∨ ¬ strength.isReported then .unrelated
    else .related ⟨a.entity, a.displayName, b.entity, b.displayName, metric, r, strength,
      Direction.ofCoefficient r, pairs.length⟩

/-- Each unordered pair of list members once, the earlier member first. -/
def unordered {α : Type} : List α → List (α × α)
  | [] => []
  | a :: rest => rest.map (fun b => (a, b)) ++ unordered rest

/-- What one metric's comparison found, in the order compared. -/
structure Pass where
  metric : Metric
  offered : Nat
  considered : Nat
  comparisons : List Comparison

def run (c : Correlator) (metric : Metric) (series : List EntitySeries) : Pass :=
  let selected := c.select series
  ⟨metric, series.length, selected.length,
    (unordered selected).map fun (a, b) => c.compareSeries metric a b⟩

namespace Pass

def skipped (p : Pass) : Nat :=
  p.comparisons.countP fun
    | .tooFewShared => true
    | _ => false

def related (p : Pass) : List Pair :=
  p.comparisons.filterMap fun
    | .related pair => some pair
    | _ => none

end Pass

/-- The correlated pairs of one metric, strongest first. -/
def correlate (c : Correlator) (metric : Metric) (series : List EntitySeries) : List Pair :=
  sortPairs (c.run metric series).related

def correlateAll (c : Correlator) (groups : List (Metric × List EntitySeries)) : List Pair :=
  sortPairs (groups.flatMap fun (metric, series) => c.correlate metric series)

end Correlator

end FleetHealth.Correlation
