import FleetHealth.Json.Reader
import FleetHealth.Store.Snapshot
import FleetHealth.Wire.Series

/-!
# Snapshot files

A snapshot file is a UTF-8 text that holds one snapshot as JSON. Absent display names, and the instant
that counts as now where there is none, are left out.
-/
namespace FleetHealth

open Json

namespace SnapshotEntity

def toJson (e : SnapshotEntity) : Json :=
  .object ([("entityId", .string e.entity)] ++ optionalMember "displayName" .string e.displayName ++
    [("series", Series.byMetricToJson e.series)])

def ofJson? (j : Json) : Option SnapshotEntity := do
  match ← fields? ["entityId", "displayName", "series"] j with
  | [entity, name, series] =>
    return ⟨← entity.required text?, ← name.defaulting none (nullable? text?),
      ← series.defaulting .empty Series.byMetricOfJson?⟩
  | _ => none

end SnapshotEntity

namespace Snapshot

def toJson (s : Snapshot) : Json :=
  .object (optionalMember "asOf" Instant.toJson s.asOf ++
    [("entities", .array (s.entities.map SnapshotEntity.toJson))])

def ofJson? (j : Json) : Option Snapshot := do
  match ← fields? ["asOf", "entities"] j with
  | [asOf, entities] =>
    return ⟨← asOf.defaulting none (nullable? Instant.ofJson?),
      ← entities.required (list? SnapshotEntity.ofJson?)⟩
  | _ => none

end Snapshot

/-- Why a snapshot file gives no store. -/
inductive FileError where
  | unreadable
  | malformed
  deriving DecidableEq, Repr

/-- The snapshot written in a file, given the bytes of the file if there is one. -/
def Snapshot.ofFile (content : Option ByteArray) : Except FileError Snapshot :=
  match content.bind String.fromUTF8? with
  | none => .error .unreadable
  | some text =>
    match (Json.Reader.read? text).bind Snapshot.ofJson? with
    | none => .error .malformed
    | some s => .ok s

def Store.ofSnapshotFile (content : Option ByteArray) : Except FileError Store :=
  (Snapshot.ofFile content).map Store.ofSnapshot

end FleetHealth
