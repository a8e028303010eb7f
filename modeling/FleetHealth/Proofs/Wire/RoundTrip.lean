import FleetHealth.Proofs.FiniteResults
import FleetHealth.Proofs.Index.Filled
import FleetHealth.Proofs.Instant.Text
import FleetHealth.Store.File
import FleetHealth.Wire.Results

/-!
# Reading written records back

What is written of a record is read back as that record, so that no two records are written alike. A
record is told by its fields: an object that names each field at most once is read as these fields,
whichever of them it leaves out.
-/
namespace FleetHealth

namespace Json

variable {α β : Type}

/-- The members of an object that gives some fields of a record and leaves out the others. -/
def membersOf (fields : List (String × Option Json)) : List (String × Json) :=
  fields.flatMap fun f => optionalMember f.1 id f.2

def fieldOf : Option Json → Field Json
  | some j => .given j
  | none => .omitted

theorem mapM_eq_some_map {f : α → Option β} {g : α → β} {l : List α}
    (h : ∀ a ∈ l, f a = some (g a)) : l.mapM f = some (l.map g) := by
  induction l with
  | nil => rfl
  | cons a l ih =>
    rw [List.mapM_cons, h a List.mem_cons_self, ih fun b hb => h b (List.mem_cons_of_mem _ hb)]
    rfl

/-- Among fields of different names only the one asked for is found. -/
theorem filter_membersOf {fields : List (String × Option Json)} (hnames : (fields.map (·.1)).Nodup)
    {f : String × Option Json} (hf : f ∈ fields) :
    (membersOf fields).filter (·.1 == f.1) = optionalMember f.1 id f.2 := by
  have hother (f' : String × Option Json) :
      (optionalMember f'.1 id f'.2).filter (·.1 == f.1) =
        if f'.1 = f.1 then optionalMember f'.1 id f'.2 else [] := by
    obtain ⟨name, _ | j⟩ := f'
    · simp [optionalMember]
    · by_cases h : name = f.1 <;> simp [optionalMember, h]
  rw [membersOf, List.filter_flatMap]
  simp only [hother]
  induction fields with
  | nil => simp at hf
  | cons first fields ih =>
    obtain ⟨hfirst, hnodup⟩ := List.nodup_cons.1 hnames
    have hne (f' : String × Option Json) (hf' : f' ∈ fields) : ¬ first.1 = f'.1 :=
      fun h => hfirst (List.mem_map.2 ⟨f', hf', h.symm⟩)
    rw [List.flatMap_cons]
    rcases List.mem_cons.1 hf with rfl | hf
    · have hrest : (fields.flatMap fun f' =>
          if f'.1 = f.1 then optionalMember f'.1 id f'.2 else []) = [] :=
        List.flatMap_eq_nil_iff.2 fun f' hf' => if_neg (Ne.symm (hne f' hf'))
      rw [if_pos rfl, hrest, List.append_nil]
    · rw [if_neg (hne f hf), List.nil_append]
      exact ih hnodup hf

theorem fields?_membersOf {names : List String} {fields : List (String × Option Json)}
    (hfields : fields.map (·.1) = names) (hnames : names.Nodup) :
    fields? names (.object (membersOf fields)) = some (fields.map fun f => fieldOf f.2) := by
  subst hfields
  rw [fields?, fieldsOfObject, List.mapM_map]
  refine mapM_eq_some_map fun f hf => ?_
  simp only [Function.comp]
  rw [filter_membersOf hnames hf]
  obtain ⟨name, _ | j⟩ := f <;> rfl

theorem list?_map {decode : Json → Option α} {encode : α → Json} {l : List α}
    (h : ∀ a ∈ l, decode (encode a) = some a) : list? decode (.array (l.map encode)) = some l := by
  rw [list?, List.mapM_map]
  exact (mapM_eq_some_map h).trans (congrArg some l.map_id)

theorem double?_real {x : Float} (h : x.isFinite = true) : double? (.real x) = some x := if_pos h

theorem word?_natural {n : Nat} (h : n < UInt64.size) :
    word? (.natural n) = some (UInt64.ofNat n) := if_pos h

@[simp]
theorem required_fieldOf (decode : Json → Option α) (j : Json) :
    (fieldOf (some j)).required decode = decode j := rfl

theorem nullable?_of_ne_null (decode : Json → Option α) {j : Json} (hj : j ≠ .null) :
    nullable? decode j = (decode j).map some := by
  cases j <;> first | rfl | exact absurd rfl hj

/-- A value that can be left out. -/
theorem defaulting_fieldOf {decode : Json → Option α} {encode : α → Json} {value : Option α}
    (hnull : ∀ a, encode a ≠ .null) (h : ∀ a ∈ value, decode (encode a) = some a) :
    (fieldOf (value.map encode)).defaulting none (nullable? decode) = some value := by
  cases value with
  | none => rfl
  | some a =>
    rw [Option.map_some, fieldOf, Field.defaulting, nullable?_of_ne_null decode (hnull a), h a rfl]
    rfl

@[simp]
theorem defaulting_fieldOf_some (fallback : α) (decode : Json → Option α) (j : Json) :
    (fieldOf (some j)).defaulting fallback decode = decode j := rfl

@[simp]
theorem text?_string (s : String) : text? (.string s) = some s := rfl

@[simp]
theorem flag?_bool (b : Bool) : flag? (.bool b) = some b := rfl

@[simp]
theorem label?_string (ofName? : String → Option α) (s : String) :
    label? ofName? (.string s) = ofName? s := rfl

@[simp]
theorem defaulting_text (value : Option String) :
    (fieldOf (value.map .string)).defaulting none (nullable? text?) = some value :=
  defaulting_fieldOf nofun fun _ _ => rfl

/-- A value in whose place `null` can be written. -/
theorem omissible_fieldOf {decode : Json → Option α} {encode : α → Json} {value : Option α}
    (hnull : ∀ a, encode a ≠ .null) (h : ∀ a ∈ value, decode (encode a) = some a) :
    omissible decode (fieldOf (some (value.elim .null encode))) = some value := by
  cases value with
  | none => rfl
  | some a =>
    rw [Option.elim_some, fieldOf, omissible, nullable?_of_ne_null decode (hnull a), h a rfl]
    rfl

end Json

open Json

theorem Instant.toJson_ne_null (t : Instant) : t.toJson ≠ .null := by
  rw [toJson]
  exact nofun

@[simp]
theorem Instant.ofJson?_toJson (t : Instant) : ofJson? t.toJson = some t := t.ofText?_text

@[simp]
theorem Metric.ofJson?_toJson (m : Metric) : ofJson? m.toJson = some m := m.ofName?_name

namespace Sample

def IsFinite (s : Sample) : Prop := s.value.isFinite = true

theorem toJson_eq (s : Sample) : s.toJson =
    .object (membersOf [("timestamp", some s.time.toJson), ("value", some (.real s.value))]) := rfl

theorem ofJson?_toJson {s : Sample} (h : s.IsFinite) : ofJson? s.toJson = some s := by
  rw [toJson_eq, ofJson?, fields?_membersOf]
  · simp [double?_real h]
  · rfl
  · decide

end Sample

namespace Series

def AllFinite (series : Index Metric (List Sample)) : Prop :=
  ∀ e ∈ series.entries, ∀ s ∈ e.2, s.IsFinite

/-- The series of an entity are read back whatever the order in which they are written. -/
theorem byMetricOfJson?_of_perm {series : Index Metric (List Sample)}
    {members : List (Metric × List Sample)} (hmembers : members.Perm series.entries)
    (h : AllFinite series) :
    byMetricOfJson? (.object (members.map fun (m, samples) =>
      (m.name, .array (samples.map Sample.toJson)))) = some series := by
  have hentries : members.mapM (fun e => do
      return (← Metric.ofName? e.1.name,
        ← list? Sample.ofJson? (.array (e.2.map Sample.toJson)))) = some members := by
    refine (mapM_eq_some_map (g := id) fun e he => ?_).trans (congrArg some members.map_id)
    have hsamples := list?_map fun s hs => Sample.ofJson?_toJson (h e (hmembers.subset he) s hs)
    rw [Metric.ofName?_name, hsamples]
    rfl
  rw [byMetricOfJson?, entries?, List.mapM_map]
  exact (congrArg (Option.map Index.ofList) hentries).trans (congrArg some (Index.ofList_perm hmembers))

theorem byMetricOfJson?_toJson {series : Index Metric (List Sample)} (h : AllFinite series) :
    byMetricOfJson? (byMetricToJson series) = some series := byMetricOfJson?_of_perm (.refl _) h

end Series

namespace EntitySeries

def IsFinite (s : EntitySeries) : Prop := ∀ x ∈ s.samples, x.IsFinite

theorem toJson_eq (s : EntitySeries) : s.toJson =
    .object (membersOf [("entity_id", some (.string s.entity)),
      ("display_name", s.displayName.map .string),
      ("samples", some (.array (s.samples.map Sample.toJson)))]) := by
  obtain ⟨entity, _ | name, samples⟩ := s <;> rfl

theorem ofJson?_toJson {s : EntitySeries} (h : s.IsFinite) : ofJson? s.toJson = some s := by
  have hsamples := list?_map fun x hx => Sample.ofJson?_toJson (h x hx)
  rw [toJson_eq, ofJson?, fields?_membersOf]
  · simp [hsamples]
  · rfl
  · decide

end EntitySeries

namespace EntityRecord

def IsFinite (r : EntityRecord) : Prop := Series.AllFinite r.series

theorem toJson_eq (r : EntityRecord) : r.toJson =
    .object (membersOf [("display_name", r.displayName.map .string),
      ("series", some (Series.byMetricToJson r.series))]) := by
  obtain ⟨_ | name, series⟩ := r <;> rfl

theorem ofJson?_toJson {r : EntityRecord} (h : r.IsFinite) : ofJson? r.toJson = some r := by
  rw [toJson_eq, ofJson?, fields?_membersOf]
  · simp [Series.byMetricOfJson?_toJson h]
  · rfl
  · decide

end EntityRecord

namespace SnapshotEntity

def IsFinite (e : SnapshotEntity) : Prop := Series.AllFinite e.series

theorem toJson_eq (e : SnapshotEntity) : e.toJson =
    .object (membersOf [("entityId", some (.string e.entity)),
      ("displayName", e.displayName.map .string),
      ("series", some (Series.byMetricToJson e.series))]) := by
  obtain ⟨entity, _ | name, series⟩ := e <;> rfl

theorem ofJson?_toJson {e : SnapshotEntity} (h : e.IsFinite) : ofJson? e.toJson = some e := by
  rw [toJson_eq, ofJson?, fields?_membersOf]
  · simp [Series.byMetricOfJson?_toJson h]
  · rfl
  · decide

end SnapshotEntity

namespace Snapshot

def IsFinite (s : Snapshot) : Prop := ∀ e ∈ s.entities, e.IsFinite

theorem toJson_eq (s : Snapshot) : s.toJson =
    .object (membersOf [("asOf", s.asOf.map Instant.toJson),
      ("entities", some (.array (s.entities.map SnapshotEntity.toJson)))]) := by
  obtain ⟨_ | asOf, entities⟩ := s <;> rfl

theorem ofJson?_toJson {s : Snapshot} (h : s.IsFinite) : ofJson? s.toJson = some s := by
  have hentities := list?_map fun e he => SnapshotEntity.ofJson?_toJson (h e he)
  have hasOf : (fieldOf (s.asOf.map Instant.toJson)).defaulting none (nullable? Instant.ofJson?) =
      some s.asOf := defaulting_fieldOf Instant.toJson_ne_null fun t _ => t.ofJson?_toJson
  rw [toJson_eq, ofJson?, fields?_membersOf]
  · simp [hasOf, hentities]
  · rfl
  · decide

end Snapshot

namespace Baseline

/-- Every number can be written: finite doubles and a count of one word. -/
structure IsWritable (b : Baseline) : Prop where
  mean : b.mean.isFinite = true
  deviation : b.deviation.isFinite = true
  count : b.count < UInt64.size

theorem ofJson?_toJson {b : Baseline} (h : b.IsWritable) : ofJson? b.toJson = some b := by
  rw [show b.toJson = .object (membersOf [("mean", some (.real b.mean)),
    ("stdDev", some (.real b.deviation)), ("sampleCount", some (.natural b.count))]) from rfl,
    ofJson?, fields?_membersOf]
  · simp [double?_real h.mean, double?_real h.deviation, word?_natural h.count,
      UInt64.toNat_ofNat_of_lt' h.count]
  · rfl
  · decide

end Baseline

namespace Verdict

structure IsFinite (v : Verdict) : Prop where
  current : v.current.isFinite = true
  mean : v.mean.isFinite = true
  deviation : v.deviation.isFinite = true
  zScore : v.zScore.isFinite = true

theorem toJson_eq (v : Verdict) : v.toJson =
    .object (membersOf [("entityId", some (.string v.entity)), ("metricType", some v.metric.toJson),
      ("currentValue", some (.real v.current)), ("mean", some (.real v.mean)),
      ("stdDev", some (.real v.deviation)), ("zScore", some (.real v.zScore)),
      ("isAnomalous", some (.bool v.isAnomalous))]) := rfl

theorem ofJson?_toJson {v : Verdict} (h : v.IsFinite) : ofJson? v.toJson = some v := by
  rw [toJson_eq, ofJson?, fields?_membersOf]
  · simp [double?_real h.current, double?_real h.mean, double?_real h.deviation,
      double?_real h.zScore]
  · rfl
  · decide

end Verdict

namespace Correlation.Pair

structure IsWritable (p : Pair) : Prop where
  coefficient : p.coefficient.isFinite = true
  sampleCount : p.sampleCount < UInt64.size

theorem toJson_eq (p : Pair) : p.toJson =
    .object (membersOf [("entityA", some (.string p.entityA)),
      ("entityAName", p.nameA.map .string), ("entityB", some (.string p.entityB)),
      ("entityBName", p.nameB.map .string), ("metricType", some p.metric.toJson),
      ("correlation", some (.real p.coefficient)), ("strength", some (.string p.strength.name)),
      ("direction", some (.string p.direction.name)),
      ("sampleCount", some (.natural p.sampleCount))]) := by
  obtain ⟨entityA, _ | nameA, entityB, _ | nameB, _⟩ := p <;> rfl

theorem ofJson?_toJson {p : Pair} (h : p.IsWritable) : ofJson? p.toJson = some p := by
  rw [toJson_eq, ofJson?, fields?_membersOf]
  · simp [double?_real h.coefficient, Strength.ofName?_name, Direction.ofName?_name,
      word?_natural h.sampleCount, UInt64.toNat_ofNat_of_lt' h.sampleCount]
  · rfl
  · decide

end Correlation.Pair

namespace Diagnosis

theorem ofJson?_deviation {x : Deviation}
    (h : x.current.isFinite = true ∧ x.mean.isFinite = true ∧ x.zScore.isFinite = true) :
    Deviation.ofJson? x.toJson = some x := by
  rw [show x.toJson = .object (membersOf [("type", some x.metric.toJson),
    ("currentValue", some (.real x.current)), ("mean", some (.real x.mean)),
    ("zScore", some (.real x.zScore))]) from rfl, Deviation.ofJson?, fields?_membersOf]
  · simp [double?_real h.1, double?_real h.2.1, double?_real h.2.2]
  · rfl
  · decide

theorem toJson_eq (d : Diagnosis) : d.toJson =
    .object (membersOf [("entityId", some (.string d.entity)),
      ("metrics", some (.array (d.deviations.map Deviation.toJson))),
      ("compositeScore", some (.real d.score)),
      ("pattern", some (d.pattern.elim .null Pattern.toJson)),
      ("severity", some (.string d.severity.name)), ("timestamp", some d.time.toJson)]) := rfl

theorem ofJson?_toJson {d : Diagnosis} (h : d.IsFinite) : ofJson? d.toJson = some d := by
  have hdeviations := list?_map fun x hx => ofJson?_deviation (h.deviations x hx)
  have hpattern : omissible Pattern.ofJson? (fieldOf (some (d.pattern.elim .null Pattern.toJson))) =
      some d.pattern := omissible_fieldOf nofun fun p _ => p.ofName?_name
  rw [toJson_eq, ofJson?, fields?_membersOf]
  · simp [hdeviations, double?_real h.score, hpattern, Severity.ofName?_name]
  · rfl
  · decide

end Diagnosis

namespace Capacity

theorem Point.ofJson?_toJson {p : Point} (h : p.value.isFinite = true) :
    ofJson? p.toJson = some p := by
  rw [show p.toJson = .object (membersOf [("timestamp", some p.time.toJson),
    ("value", some (.real p.value)), ("isProjected", some (.bool p.isProjected))]) from rfl,
    ofJson?, fields?_membersOf]
  · simp [double?_real h]
  · rfl
  · decide

namespace Forecast

theorem toJson_eq (f : Forecast) : f.toJson =
    .object (membersOf [("entityId", some (.string f.entity)),
      ("displayName", f.displayName.map .string), ("metricType", some f.metric.toJson),
      ("currentValue", some (.real f.current)), ("trend", some (.string f.trend.name)),
      ("slope", some (.real f.slope)), ("rSquared", some (.real f.fit)),
      ("forecastPoints", some (.array (f.points.map Point.toJson))),
      ("timeToThresholdHours", some (f.hoursToThreshold.elim .null .real)),
      ("confidence", some (.string f.confidence.name))]) := by
  obtain ⟨entity, _ | name, _⟩ := f <;> rfl

theorem ofJson?_toJson {f : Forecast} (h : f.IsFinite) : ofJson? f.toJson = some f := by
  have hpoints := list?_map fun p hp => Point.ofJson?_toJson (h.points p hp)
  have hhours : omissible double? (fieldOf (some (f.hoursToThreshold.elim .null .real))) =
      some f.hoursToThreshold :=
    omissible_fieldOf nofun fun x hx => double?_real (h.hoursToThreshold x hx)
  rw [toJson_eq, ofJson?, fields?_membersOf]
  · simp [double?_real h.current, double?_real h.slope, double?_real h.fit, hpoints, hhours,
      Trend.ofName?_name, Confidence.ofName?_name]
  · rfl
  · decide

end Forecast

end Capacity

/-- Whether every record of a kind is read back from what is written of it, and no two of them are
written alike. -/
def Json.Faithful {α : Type} (toJson : α → Json) (ofJson? : Json → Option α) (P : α → Prop) : Prop :=
  (∀ a, P a → ofJson? (toJson a) = some a) ∧ ∀ a b, P a → P b → toJson a = toJson b → a = b

theorem Json.Faithful.of_readsBack {α : Type} {toJson : α → Json} {ofJson? : Json → Option α}
    {P : α → Prop} (h : ∀ {a}, P a → ofJson? (toJson a) = some a) : Faithful toJson ofJson? P :=
  ⟨fun _ => h, fun _ _ ha hb hab => Option.some.inj ((h ha).symm.trans (hab ▸ h hb))⟩

/-- Samples, series, snapshots and results with finite numbers are read back from what is written of
them, and distinct ones are written differently. -/
theorem written_records_faithful :
    Faithful Sample.toJson Sample.ofJson? Sample.IsFinite ∧
    Faithful EntitySeries.toJson EntitySeries.ofJson? EntitySeries.IsFinite ∧
    Faithful EntityRecord.toJson EntityRecord.ofJson? EntityRecord.IsFinite ∧
    Faithful Snapshot.toJson Snapshot.ofJson? Snapshot.IsFinite ∧
    Faithful Baseline.toJson Baseline.ofJson? Baseline.IsWritable ∧
    Faithful Verdict.toJson Verdict.ofJson? Verdict.IsFinite ∧
    Faithful Correlation.Pair.toJson Correlation.Pair.ofJson? Correlation.Pair.IsWritable ∧
    Faithful Diagnosis.toJson Diagnosis.ofJson? Diagnosis.IsFinite ∧
    Faithful Capacity.Forecast.toJson Capacity.Forecast.ofJson? Capacity.Forecast.IsFinite :=
  ⟨.of_readsBack Sample.ofJson?_toJson, .of_readsBack EntitySeries.ofJson?_toJson,
    .of_readsBack EntityRecord.ofJson?_toJson, .of_readsBack Snapshot.ofJson?_toJson,
    .of_readsBack Baseline.ofJson?_toJson, .of_readsBack Verdict.ofJson?_toJson,
    .of_readsBack Correlation.Pair.ofJson?_toJson, .of_readsBack Diagnosis.ofJson?_toJson,
    .of_readsBack Capacity.Forecast.ofJson?_toJson⟩

/-- One entity with a name and two series, of which one is empty, and one with neither. -/
def pinnedSnapshot : Snapshot where
  asOf := some .epoch
  entities := [⟨"web", some "Web", .ofList [(.cpu, [⟨.first, 0.5⟩, ⟨.epoch, 97.25⟩]), (.disk, [])]⟩,
    ⟨"db", none, .empty⟩]

theorem pinnedSnapshot_read_back :
    pinnedSnapshot.IsFinite ∧ Snapshot.ofJson? pinnedSnapshot.toJson = some pinnedSnapshot := by
  have hfinite : pinnedSnapshot.IsFinite := by
    have hall : ∀ e ∈ pinnedSnapshot.entities, ∀ series ∈ e.series.entries, ∀ s ∈ series.2,
        s.value.isFinite = true := by decide +kernel
    exact hall
  exact ⟨hfinite, written_records_faithful.2.2.2.1.1 _ hfinite⟩

end FleetHealth
