import FleetHealth.Store

/-!
# Snapshots

A snapshot is the written form of a store: its entities with their names and series, and the instant
that counts as now. The store of a snapshot is filled entity by entity, the series of each in the order of
their metrics, or on any other way through it.
-/
namespace FleetHealth

structure SnapshotEntity where
  entity : String
  displayName : Option String
  series : Index Metric (List Sample)

structure Snapshot where
  asOf : Option Instant
  entities : List SnapshotEntity

namespace Store

/-- Add what a snapshot holds of one entity. An entity with neither name nor series leaves
no trace. -/
def addEntity (s : Store) (e : SnapshotEntity) : Store :=
  let named := match e.displayName with
    | some name => s.setDisplayName e.entity name
    | none => s
  e.series.entries.foldl (fun s (metric, samples) => s.insert e.entity metric samples) named

def ofSnapshot (snapshot : Snapshot) : Store :=
  snapshot.entities.foldl addEntity ⟨.empty, snapshot.asOf⟩

end Store

/-! ### Other orders -/

/-- A way through a snapshot: its entities in some order, each with its series in some order. -/
structure Snapshot.Walk (snapshot : Snapshot) where
  visits : List (SnapshotEntity × List (Metric × List Sample))
  entities : (visits.map Prod.fst).Perm snapshot.entities
  series : ∀ v ∈ visits, v.2.Perm v.1.series.entries

namespace Store

/-- Add one entity, its series in the order given. -/
def addVisited (s : Store) (visit : SnapshotEntity × List (Metric × List Sample)) : Store :=
  let named := match visit.1.displayName with
    | some name => s.setDisplayName visit.1.entity name
    | none => s
  visit.2.foldl (fun s (metric, samples) => s.insert visit.1.entity metric samples) named

/-- The store that a snapshot is loaded into on some way through it. -/
def ofWalk {snapshot : Snapshot} (walk : snapshot.Walk) : Store :=
  walk.visits.foldl addVisited ⟨.empty, snapshot.asOf⟩

end Store

end FleetHealth
