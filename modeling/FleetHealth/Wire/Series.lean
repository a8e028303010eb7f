import FleetHealth.Instant.Text
import FleetHealth.Json.Fields
import FleetHealth.Sample

/-!
# Written form of samples and series

Each record has a writer `toJson` and a reader `ofJson?` that takes back what the writer makes.
Absent display names are left out.
-/
namespace FleetHealth

open Json

/-- A member that is left out where there is no value. -/
def Json.optionalMember {α : Type} (name : String) (encode : α → Json) (value : Option α) :
    List (String × Json) :=
  value.toList.map fun v => (name, encode v)

namespace Instant

def toJson (t : Instant) : Json := .string t.text

def ofJson? : Json → Option Instant
  | .string s => ofText? s
  | _ => none

end Instant

namespace Metric

def toJson (m : Metric) : Json := .string m.name

def ofJson? : Json → Option Metric := Json.label? ofName?

end Metric

namespace Sample

def toJson (s : Sample) : Json := .object [("timestamp", s.time.toJson), ("value", .real s.value)]

def ofJson? (j : Json) : Option Sample := do
  match ← fields? ["timestamp", "value"] j with
  | [time, value] => return ⟨← time.required Instant.ofJson?, ← value.required double?⟩
  | _ => none

end Sample

def Series.byMetricToJson (series : Index Metric (List Sample)) : Json :=
  .object (series.entries.map fun (m, samples) => (m.name, .array (samples.map Sample.toJson)))

def Series.byMetricOfJson? (j : Json) : Option (Index Metric (List Sample)) :=
  (entries? Metric.ofName? (list? Sample.ofJson?) j).map Index.ofList

namespace EntitySeries

def toJson (s : EntitySeries) : Json :=
  .object ([("entity_id", .string s.entity)] ++
    optionalMember "display_name" .string s.displayName ++
    [("samples", .array (s.samples.map Sample.toJson))])

def ofJson? (j : Json) : Option EntitySeries := do
  match ← fields? ["entity_id", "display_name", "samples"] j with
  | [entity, name, samples] =>
    return ⟨← entity.required text?, ← name.defaulting none (nullable? text?),
      ← samples.required (list? Sample.ofJson?)⟩
  | _ => none

end EntitySeries

namespace EntityRecord

def toJson (r : EntityRecord) : Json :=
  .object (optionalMember "display_name" .string r.displayName ++
    [("series", Series.byMetricToJson r.series)])

def ofJson? (j : Json) : Option EntityRecord := do
  match ← fields? ["display_name", "series"] j with
  | [name, series] =>
    return ⟨← name.defaulting none (nullable? text?),
      ← series.defaulting .empty Series.byMetricOfJson?⟩
  | _ => none

end EntityRecord

end FleetHealth
