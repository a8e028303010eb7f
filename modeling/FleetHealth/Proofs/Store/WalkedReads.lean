import FleetHealth.Monitor.Engine
import FleetHealth.Proofs.Index.Filled
import FleetHealth.Proofs.Sorting
import Mathlib.Data.Option.Basic

/-!
# Reads in any order

Three reads go through all entities of a store, and their answers are filled in that order. The ids are
sorted at the end, and the other two answers are maps again, so each read has one answer whatever the
order.
-/
namespace FleetHealth

/-- The orders in which hash maps are walked: the entities of the store for a read, and the answers to
two kinds of read. A map may be walked differently each time; what was read before tells when it is. -/
structure Orders where
  stored : List Read → Index String EntityRecord → List (String × EntityRecord)
  averaged : List Read → Index String EntitySeries → List (String × EntitySeries)
  sampled : List Read → Index String EntityRecord → List (String × EntityRecord)
  stored_perm : ∀ earlier i, (stored earlier i).Perm i.entries
  averaged_perm : ∀ earlier i, (averaged earlier i).Perm i.entries
  sampled_perm : ∀ earlier i, (sampled earlier i).Perm i.entries

namespace Store

abbrev EntityWalk := List (String × EntityRecord)

/-- The ids met on a walk, sorted. -/
def sortedIds (walk : EntityWalk) : List String :=
  (walk.map (·.1)).mergeSort fun a b => (compare a b).isLE

/-- Add what a fleet read keeps of one entity. -/
def addRecent (metrics : List Metric) (cutoff : Instant) (found : Index String EntityRecord)
    (entry : String × EntityRecord) : Index String EntityRecord :=
  let series := recentSeries metrics cutoff entry.2
  if series.isEmpty then found else found.insert entry.1 ⟨entry.2.displayName, series⟩

/-- Add the averages of one entity, if it has recent samples. -/
def addAverages (metric : Metric) (cutoff : Instant) (width : Nat) (found : Index String EntitySeries)
    (entry : String × EntityRecord) : Except Buckets.Fault (Index String EntitySeries) :=
  match recentIn? metric cutoff entry.1 entry.2 with
  | none => .ok found
  | some series => (Buckets.bucketize (width * 1000) series.samples).map fun averages =>
      found.insert entry.1 { series with samples := averages }

/-- Answer reads with the entities walked in some order. -/
def sourceIn (s : Store) (clock : Instant) (orders : Orders) : Source := fun earlier r =>
  let walk := orders.stored earlier s.records
  match r with
  | .listEntities => .ok (sortedIds walk)
  | .fleetSamples metrics lookback =>
    .ok (walk.foldl (addRecent metrics (s.cutoff clock lookback.toNat)) .empty)
  | .bucketedAverages metric lookback width =>
    (walk.foldlM (addAverages metric (s.cutoff clock lookback.toNat) width.toNat) .empty).mapError
      .fault
  | .recentSamples entity metric window => s.answer clock (.recentSamples entity metric window)
  | .latestValue entity metric => s.answer clock (.latestValue entity metric)
  | .displayName entity => s.answer clock (.displayName entity)

variable {s : Store} {walk : EntityWalk}

theorem id_order : SortOrder fun a b : String => (compare a b).isLE := .of_compare compare fun _ _ => rfl

theorem sortedIds_eq (h : walk.Perm s.records.entries) : sortedIds walk = s.entities := by
  have hp : (sortedIds walk).Perm s.entities := (List.mergeSort_perm ..).trans (h.map _)
  refine hp.eq_of_pairwise (fun a b _ _ hab hba => ?_) (id_order.pairwise _)
    (s.records.keys_ascending.imp fun hlt => Ordering.isLE_of_eq_lt hlt)
  exact Std.LawfulEqOrd.eq_of_compare (Std.OrientedCmp.isLE_antisymm hab hba)

theorem foldl_addRecent_eq (h : walk.Perm s.records.entries) (clock : Instant)
    (metrics : List Metric) (lookback : Nat) :
    walk.foldl (addRecent metrics (s.cutoff clock lookback)) .empty =
      s.fleetSamples clock metrics lookback := by
  let keep (_ : String) (record : EntityRecord) : Option EntityRecord :=
    let series := recentSeries metrics (s.cutoff clock lookback) record
    if series.isEmpty then none else some ⟨record.displayName, series⟩
  refine Index.foldl_found_perm h keep fun found entry => ?_
  simp only [addRecent, keep]
  split <;> rfl

theorem recentOf_eq (s : Store) (clock : Instant) (metric : Metric) (lookback : Nat) :
    s.recentOf clock metric lookback =
      s.records.filterMap (recentIn? metric (s.cutoff clock lookback)) := rfl

theorem entity_of_recentIn? {metric : Metric} {cutoff : Instant} {entity : String}
    {record : EntityRecord} {series : EntitySeries}
    (h : recentIn? metric cutoff entity record = some series) : series.entity = entity := by
  simp only [recentIn?, Option.bind_eq_bind, Option.bind_eq_some_iff, Option.pure_def,
    Option.some.injEq] at h
  obtain ⟨_, _, _, _, rfl⟩ := h
  rfl

/-- A read of averages has one series for each entity. -/
theorem averages_distinct {clock : Instant} {metric : Metric} {lookback width : Nat}
    {averages : Index String EntitySeries}
    (h : s.bucketedAverages clock metric lookback width = .ok averages) :
    averages.values.Pairwise fun a b => a.entity ≠ b.entity := by
  have hkey : ∀ entry ∈ averages.entries, entry.2.entity = entry.1 := by
    rw [bucketedAverages, averagesWithin] at h
    split at h
    next =>
      cases h
      rintro ⟨entity, series⟩ hm
      rw [← Index.get?_eq_some_iff, recentWithin, Index.map_filterMap, Index.get?_filterMap] at hm
      obtain ⟨record, _, hfound⟩ := Option.bind_eq_some_iff.1 hm
      obtain ⟨recent, hrecent, rfl⟩ := Option.map_eq_some_iff.1 hfound
      exact (entity_of_recentIn? hrecent : recent.entity = entity)
    next => cases h
  refine List.pairwise_map.2 (averages.keys_distinct.imp_of_mem fun ha hb hne => ?_)
  rwa [hkey _ ha, hkey _ hb]

/-- A walk over averages fails where a sample would be divided by zero, and else adds one entry for each
entity with recent samples. -/
theorem foldlM_addAverages (metric : Metric) (cutoff : Instant) (width : Nat)
    (found : Index String EntitySeries) (walk : EntityWalk) :
    let w := Buckets.wordWidth (width * 1000)
    walk.foldlM (addAverages metric cutoff width) found =
      if (walk.filterMap fun e => recentIn? metric cutoff e.1 e.2).all fun series =>
          Buckets.divides w series.samples then
        .ok ((walk.filterMap fun e => (recentIn? metric cutoff e.1 e.2).map fun series =>
          (e.1, { series with samples := Buckets.average w series.samples })).foldl
            (fun i e => i.insert e.1 e.2) found)
      else .error .divisionByZero := by
  intro w
  induction walk generalizing found with
  | nil => rfl
  | cons entry rest ih =>
    rw [List.foldlM_cons, List.filterMap_cons, List.filterMap_cons, addAverages]
    rcases hr : recentIn? metric cutoff entry.1 entry.2 with _ | series
    · exact ih found
    · simp only [Option.map_some, List.all_cons, List.foldl_cons]
      rw [Buckets.bucketize]
      by_cases hd : Buckets.divides w series.samples
      · simp only [w] at hd ⊢
        rw [if_pos hd, hd, Bool.true_and]
        exact ih _
      · simp only [w] at hd ⊢
        rw [if_neg hd, Bool.eq_false_iff.2 hd, Bool.false_and]
        rfl

theorem foldlM_addAverages_eq (h : walk.Perm s.records.entries) (clock : Instant) (metric : Metric)
    (lookback width : Nat) :
    walk.foldlM (addAverages metric (s.cutoff clock lookback) width) .empty =
      s.bucketedAverages clock metric lookback width := by
  let recent? := recentIn? metric (s.cutoff clock lookback)
  have hrecent : s.recentOf clock metric lookback = s.records.filterMap recent? :=
    s.recentOf_eq clock metric lookback
  have hvalues : (s.recentOf clock metric lookback).values =
      s.records.entries.filterMap fun e => recent? e.1 e.2 := by
    rw [hrecent, Index.values, Index.filterMap, List.map_filterMap]
    congr 1
    funext e
    cases recent? e.1 e.2 <;> rfl
  have hfilled (average : EntitySeries → EntitySeries) :
      Index.ofList (walk.filterMap fun e => (recent? e.1 e.2).map fun series => (e.1, average series)) =
        (s.recentOf clock metric lookback).map average := by
    rw [hrecent, Index.map_filterMap]
    refine Index.ofList_perm ((h.filterMap _).trans (.of_eq ?_))
    congr 1
    funext e
    rw [Option.map_map]
    rfl
  rw [foldlM_addAverages, bucketedAverages, averagesWithin, ← recentOf, hvalues, (h.filterMap _).all_eq]
  congr 1
  exact congrArg Except.ok (hfilled _)

theorem sourceIn_eq (s : Store) (clock : Instant) (orders : Orders) :
    s.sourceIn clock orders = s.source clock := by
  funext earlier r
  have hw := orders.stored_perm earlier s.records
  cases r with
  | listEntities => exact congrArg Except.ok (sortedIds_eq hw)
  | fleetSamples metrics lookback => exact congrArg Except.ok (foldl_addRecent_eq hw ..)
  | bucketedAverages metric lookback width =>
    exact congrArg (Except.mapError Interruption.fault) (foldlM_addAverages_eq hw ..)
  | recentSamples => rfl
  | latestValue => rfl
  | displayName => rfl

end Store

end FleetHealth
