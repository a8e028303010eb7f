import FleetHealth.Proofs.Index.Filled
import FleetHealth.Proofs.Instant
import FleetHealth.Store
import Mathlib.Data.Option.Basic

/-!
# Fleet reads

What the reads of the whole fleet hold: of each entity and each wanted metric the recent part of the
series, where there is any, beside the display name.
-/
namespace FleetHealth

/-- Where every sample is recent nothing is left out. -/
theorem Series.since_eq_self {samples : List Sample} {cutoff : Instant}
    (h : ∀ x ∈ samples, cutoff ≤ x.time) : since cutoff samples = samples :=
  List.filter_eq_self.2 fun x hx => decide_eq_true (h x hx)

namespace Store

/-- The recent series of a record are the recent parts of its series, where they are wanted and there are
any. -/
theorem get?_recentSeries (metrics : List Metric) (cutoff : Instant) (record : EntityRecord)
    (metric : Metric) :
    (recentSeries metrics cutoff record).get? metric =
      let recent := Series.since cutoff ((record.series.get? metric).getD [])
      if metric ∈ metrics ∧ recent ≠ [] then some recent else none := by
  have hmem (e : Metric × List Sample) :
      (e ∈ metrics.filterMap fun m => do
        let samples ← record.series.get? m
        let recent := Series.since cutoff samples
        guard !recent.isEmpty
        return (m, recent)) ↔
      e.1 ∈ metrics ∧ e.2 ≠ [] ∧ e.2 = Series.since cutoff ((record.series.get? e.1).getD []) := by
    simp only [List.mem_filterMap, Option.bind_eq_bind, Option.bind_eq_some_iff,
      Option.guard_eq_some', Option.pure_def, Option.some.injEq]
    constructor
    · rintro ⟨m, hm, samples, hs, _, hne, rfl⟩
      exact ⟨hm, by simpa using hne, by rw [hs, Option.getD_some]⟩
    · rintro ⟨hm, hne, he⟩
      rcases hs : record.series.get? e.1 with _ | samples
      · rw [hs] at he
        exact absurd he hne
      · rw [hs, Option.getD_some] at he
        exact ⟨e.1, hm, samples, hs, (), by simpa [← he] using hne, Prod.ext rfl he.symm⟩
  refine Option.ext fun recent => ?_
  rw [recentSeries, Index.get?_ofList, hmem]
  · simp only [Option.ite_none_right_eq_some, Option.some.injEq]
    constructor
    · rintro ⟨hm, hne, rfl⟩
      exact ⟨⟨hm, hne⟩, rfl⟩
    · rintro ⟨⟨hm, hne⟩, rfl⟩
      exact ⟨hm, hne, rfl⟩
  · -- entries of one metric come from the one series of it
    intro e he e' he' hk
    rw [((hmem e).1 he).2.2, ((hmem e').1 he').2.2, hk]

theorem recentIn?_eq (metric : Metric) (cutoff : Instant) (entity : String) (record : EntityRecord) :
    recentIn? metric cutoff entity record =
      let recent := Series.since cutoff ((record.series.get? metric).getD [])
      if recent ≠ [] then some ⟨entity, record.displayName, recent⟩ else none := by
  rw [recentIn?]
  rcases record.series.get? metric with _ | samples
  · rfl
  · by_cases h : Series.since cutoff samples = [] <;> simp [h]

variable (s : Store) (clock : Instant) (nanos : Nat) (entity : String)

/-- In a fleet read stand the entities with something recent, each with all that is. -/
theorem get?_fleetSamplesWithin (metrics : List Metric) :
    (s.fleetSamplesWithin clock metrics nanos).get? entity =
      let series := recentSeries metrics (s.cutoffWithin clock nanos) (s.record entity)
      if series.isEmpty then none else some ⟨s.displayName entity, series⟩ := by
  rw [fleetSamplesWithin, Index.get?_filterMap, displayName, record]
  rcases s.records.get? entity with _ | record
  · -- nothing is recent of an entity that is not stored
    have hnone : (recentSeries metrics (s.cutoffWithin clock nanos) .empty).isEmpty = true := by
      refine (Index.isEmpty_iff _).2 fun metric => ?_
      rw [get?_recentSeries]
      exact if_neg fun h => h.2 rfl
    exact (if_pos hnone).symm
  · rfl

/-- In a read of averages stand, before they are averaged, the entities with something recent of the
metric. -/
theorem get?_recentWithin (metric : Metric) :
    (s.recentWithin clock metric nanos).get? entity =
      let recent := Series.since (s.cutoffWithin clock nanos) (s.series entity metric)
      if recent ≠ [] then some ⟨entity, s.displayName entity, recent⟩ else none := by
  rw [recentWithin, Index.get?_filterMap, displayName, series, record]
  rcases s.records.get? entity with _ | record
  · rfl
  · exact recentIn?_eq ..

/-- A read of the fleet holds the recent part of each series. -/
theorem series_fleetSamplesWithin {metrics : List Metric} {metric : Metric} (h : metric ∈ metrics) :
    (((s.fleetSamplesWithin clock metrics nanos).get? entity).bind fun record =>
        record.series.get? metric).getD [] =
      Series.since (s.cutoffWithin clock nanos) (s.series entity metric) := by
  -- an index left out for being empty has nothing under the metric either
  have hfound : (((s.fleetSamplesWithin clock metrics nanos).get? entity).bind fun record =>
        record.series.get? metric) =
      (recentSeries metrics (s.cutoffWithin clock nanos) (s.record entity)).get? metric := by
    rw [get?_fleetSamplesWithin]
    simp only
    split
    next he => rw [Option.bind_none, (Index.isEmpty_iff _).1 he]
    next => rfl
  rw [hfound, get?_recentSeries, series]
  simp only [h, true_and]
  split
  next => rfl
  next hne => exact (not_not.1 hne).symm

/-- An entity with something in the read has its display name there. -/
theorem displayName_fleetSamplesWithin {metrics : List Metric} {record : EntityRecord}
    (h : (s.fleetSamplesWithin clock metrics nanos).get? entity = some record) :
    record.displayName = s.displayName entity := by
  rw [get?_fleetSamplesWithin] at h
  simp only at h
  split at h
  next => cases h
  next =>
    cases h
    rfl

end Store

end FleetHealth
