import FleetHealth.Instant
import FleetHealth.Index
import FleetHealth.Metric

/-!
# Samples and series

A series is a list of measured values with their instants. Sorting by time is stable: samples of one
instant keep their order.
-/
namespace FleetHealth

structure Sample where
  time : Instant
  value : Float

/-- The samples of one entity for one metric, as handed to a comparison of entities. -/
structure EntitySeries where
  entity : String
  displayName : Option String
  samples : List Sample

/-- Everything known of one entity. -/
structure EntityRecord where
  displayName : Option String
  series : Index Metric (List Sample)

def EntityRecord.empty : EntityRecord := ⟨none, .empty⟩

namespace Series

def isFinite (s : Sample) : Bool := s.value.isFinite

def finite (samples : List Sample) : List Sample := samples.filter isFinite

/-- Whether no sample is earlier than the one before it. -/
def isSorted : List Sample → Bool
  | a :: b :: rest => decide (a.time ≤ b.time) && isSorted (b :: rest)
  | _ => true

/-- Ascending by time, samples of one instant in their order. -/
def sortByTime (samples : List Sample) : List Sample :=
  samples.mergeSort (fun a b => decide (a.time ≤ b.time))

def takeLast {α : Type} (n : Nat) (l : List α) : List α := l.drop (l.length - n)

def since (cutoff : Instant) (samples : List Sample) : List Sample :=
  samples.filter (fun s => decide (cutoff ≤ s.time))

end Series

end FleetHealth
