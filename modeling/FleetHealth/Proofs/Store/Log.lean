import FleetHealth.Proofs.Index
import FleetHealth.Proofs.Series
import FleetHealth.Store
import Mathlib.Data.List.Induction

/-!
# The store as a log

A store filled by a run of edits holds, for each entity and metric, the stable sort by time of all
samples inserted there, in the order of the calls. The reads answer from that series, and the names
and the ids are those of the edits.
-/
namespace FleetHealth

/-- A call that changes a store. -/
inductive Store.Edit where
  | insert (entity : String) (metric : Metric) (samples : List Sample)
  | setDisplayName (entity name : String)

namespace Store.Edit

def entity : Edit → String
  | insert entity .. => entity
  | setDisplayName entity _ => entity

/-- Whether the edit adds to a series. -/
def isFor (entity : String) (metric : Metric) : Edit → Bool
  | insert entity' metric' _ => entity' = entity ∧ metric' = metric
  | setDisplayName .. => false

def samples : Edit → List Sample
  | insert _ _ samples => samples
  | setDisplayName .. => []

/-- The name the edit gives an entity, if it gives it one. -/
def nameFor? (entity : String) : Edit → Option String
  | insert .. => none
  | setDisplayName entity' name => if entity' = entity then some name else none

end Store.Edit

namespace Store

/-- Make one edit. -/
def apply (s : Store) : Edit → Store
  | .insert entity metric samples => s.insert entity metric samples
  | .setDisplayName entity name => s.setDisplayName entity name

def replay (s : Store) (edits : List Edit) : Store := edits.foldl apply s

/-- All samples inserted for a key, in the order of the calls. -/
def logged (edits : List Edit) (entity : String) (metric : Metric) : List Sample :=
  (edits.filter (Edit.isFor entity metric)).flatMap Edit.samples

/-- The last name given to an entity. -/
def lastName? (edits : List Edit) (entity : String) : Option String :=
  (edits.filterMap (Edit.nameFor? entity)).getLast?

theorem logged_filter (edits : List Edit) (entity : String) (metric : Metric) :
    logged (edits.filter (Edit.isFor entity metric)) entity metric = logged edits entity metric := by
  simp only [logged, List.filter_filter, Bool.and_self]

theorem lastName?_filter (edits : List Edit) (entity : String) :
    lastName? (edits.filter fun e => (e.nameFor? entity).isSome) entity =
      lastName? edits entity := by
  unfold lastName?
  rw [List.filterMap_filter]
  congr 2
  funext e
  cases e.nameFor? entity <;> rfl

theorem record_insert (s : Store) (entity entity' : String) (metric : Metric)
    (samples : List Sample) :
    (s.insert entity metric samples).record entity' =
      if entity = entity' then addSamples metric samples (s.record entity)
      else s.record entity' := by
  unfold record insert
  rw [Index.get?_alter]
  split <;> rfl

theorem record_setDisplayName (s : Store) (entity entity' name : String) :
    (s.setDisplayName entity name).record entity' =
      if entity = entity' then { s.record entity with displayName := some name }
      else s.record entity' := by
  unfold record setDisplayName
  rw [Index.get?_alter]
  split <;> rfl

/-- An edit re-sorts its own series with the samples added, and touches no other. -/
theorem series_apply (s : Store) (edit : Edit) (entity : String) (metric : Metric) :
    (s.apply edit).series entity metric =
      if edit.isFor entity metric then
        Series.sortByTime (s.series entity metric ++ edit.samples)
      else s.series entity metric := by
  unfold series
  cases edit with
  | insert entity' metric' samples =>
    simp only [apply, record_insert, Edit.isFor, Edit.samples, decide_eq_true_eq]
    by_cases he : entity' = entity
    · subst he
      simp only [if_true, true_and, addSamples, Index.get?_alter]
      by_cases hm : metric' = metric
      · subst hm
        simp
      · simp [hm]
    · simp [he]
  | setDisplayName entity' name =>
    simp only [apply, record_setDisplayName, Edit.isFor]
    by_cases he : entity' = entity
    · subst he
      simp
    · simp [he]

theorem displayName_apply (s : Store) (edit : Edit) (entity : String) :
    (s.apply edit).displayName entity = (edit.nameFor? entity).or (s.displayName entity) := by
  unfold displayName
  cases edit with
  | insert entity' metric samples =>
    simp only [apply, record_insert, Edit.nameFor?, Option.none_or]
    split
    next he => rw [he, addSamples]
    next => rfl
  | setDisplayName entity' name =>
    simp only [apply, record_setDisplayName, Edit.nameFor?]
    split <;> simp

theorem mem_entities_apply (s : Store) (edit : Edit) (entity : String) :
    entity ∈ (s.apply edit).entities ↔ edit.entity = entity ∨ entity ∈ s.entities := by
  cases edit <;> exact Index.mem_keys_alter ..

/-- What a store filled by some edits holds. -/
structure Logs (s : Store) (edits : List Edit) : Prop where
  series : ∀ entity metric,
    s.series entity metric = Series.sortByTime (logged edits entity metric)
  displayName : ∀ entity, s.displayName entity = lastName? edits entity
  entities : ∀ entity, entity ∈ s.entities ↔ ∃ edit ∈ edits, edit.entity = entity

theorem Logs.apply {s : Store} {edits : List Edit} (h : Logs s edits) (edit : Edit) :
    Logs (s.apply edit) (edits ++ [edit]) where
  series entity metric := by
    rw [series_apply, h.series]
    unfold logged
    rw [List.filter_append, List.flatMap_append]
    by_cases hf : edit.isFor entity metric
    · simp [hf, Series.sortByTime_append]
    · simp [hf]
  displayName entity := by
    rw [displayName_apply, h.displayName]
    unfold lastName?
    rw [List.filterMap_append, List.getLast?_append]
    rcases hn : edit.nameFor? entity with _ | name <;> simp [hn]
  entities entity := by
    rw [mem_entities_apply, h.entities]
    simp [or_comm]

theorem replay_append (s : Store) (edits more : List Edit) :
    s.replay (edits ++ more) = (s.replay edits).replay more := List.foldl_append

theorem logs_replay (pinned : Option Instant) (edits : List Edit) :
    Logs (replay ⟨.empty, pinned⟩ edits) edits := by
  induction edits using List.reverseRecOn with
  | nil =>
    refine ⟨fun entity metric => ?_, fun entity => rfl, fun entity => ?_⟩
    · change [] = Series.sortByTime []
      simp [Series.sortByTime]
    · simp [replay, Store.entities, Index.keys, Index.empty]
  | append_singleton edits edit ih =>
    rw [replay_append]
    exact ih.apply edit

/-- Two batches inserted one after the other are one batch. -/
theorem insert_insert (s : Store) (entity : String) (metric : Metric) (first second : List Sample) :
    (s.insert entity metric first).insert entity metric second =
      s.insert entity metric (first ++ second) := by
  unfold insert addSamples
  simp only [Index.alter_alter, Option.getD_some, Series.sortByTime_append, List.append_assoc]

theorem entities_ascending (s : Store) : s.entities.Pairwise (· < ·) :=
  s.records.keys_ascending.imp compareOfLessAndEq_eq_lt.1

theorem size_eq_length_entities (s : Store) : s.size = s.entities.length :=
  (List.length_map Prod.fst).symm

/-- A store is a stable, time-ordered log of the samples inserted. After any run of edits a series
is the stable sort by time of the batches of its key, in the order of the calls: the same samples,
those of one instant in the order they came. Only the edits of a key count for its series and only
the names given to an entity for its name, and batches inserted in a row are one batch. The reads
are answered from these series, names and ids. -/
theorem replay_stable_log (pinned : Option Instant) (edits : List Edit) :
    let filled := replay ⟨.empty, pinned⟩
    let s := filled edits
    (∀ entity metric,
      let log := logged edits entity metric
      let series := s.series entity metric
      series = Series.sortByTime log ∧ series.Perm log ∧
        (series.Pairwise fun a b => a.time ≤ b.time) ∧
        (∀ t, (series.filter fun x => x.time = t) = log.filter fun x => x.time = t) ∧
        series = (filled (edits.filter (Edit.isFor entity metric))).series entity metric ∧
        ∀ clock,
          (∀ window : UInt64, s.answer clock (.recentSamples entity metric window) =
            .ok (series.drop (log.length - min window.toNat log.length))) ∧
          s.answer clock (.latestValue entity metric) = .ok (Series.newest log).getLast?) ∧
    (∀ entity clock,
      s.answer clock (.displayName entity) = .ok (lastName? edits entity) ∧
      s.displayName entity =
        (filled (edits.filter fun e => (e.nameFor? entity).isSome)).displayName entity) ∧
    (∃ ids : List String, (∀ clock, s.answer clock .listEntities = .ok ids) ∧
      ids.Pairwise (· < ·) ∧ (∀ id, id ∈ ids ↔ ∃ edit ∈ edits, edit.entity = id) ∧
      s.size = ids.length) ∧
    ∀ before entity metric first second after,
      filled (before ++ .insert entity metric first :: .insert entity metric second :: after) =
        filled (before ++ .insert entity metric (first ++ second) :: after) := by
  intro filled s
  have hs : Logs s edits := logs_replay pinned edits
  refine ⟨fun entity metric => ?_, fun entity clock => ⟨congrArg _ (hs.displayName entity), ?_⟩,
    ⟨s.entities, fun _ => rfl, s.entities_ascending, hs.entities, s.size_eq_length_entities⟩, ?_⟩
  · intro log series
    have hseries : series = Series.sortByTime log := hs.series entity metric
    have hperm : series.Perm log := hseries ▸ Series.sortByTime_perm log
    have hsorted : series.Pairwise fun a b => a.time ≤ b.time :=
      hseries ▸ Series.sortByTime_ascending log
    refine ⟨hseries, hperm, hsorted, fun t => hseries ▸ Series.filter_sortByTime log t, ?_,
      fun clock => ⟨fun window => ?_, ?_⟩⟩
    · rw [hseries, (logs_replay pinned _).series, logged_filter]
    · change Except.ok (series.drop (series.length - window.toNat)) = _
      rw [hperm.length_eq]
      congr 2
      omega
    · change Except.ok series.getLast? = _
      rw [← Series.getLast?_newest hsorted, hseries, Series.newest_sortByTime]
      rfl
  · rw [hs.displayName, (logs_replay pinned _).displayName, lastName?_filter]
  · intro before entity metric first second after
    unfold filled replay
    rw [List.foldl_append, List.foldl_append, List.foldl_cons, List.foldl_cons, List.foldl_cons]
    exact congrArg (List.foldl apply · after) (insert_insert ..)

end Store

end FleetHealth
