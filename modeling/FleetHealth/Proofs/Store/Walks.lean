import FleetHealth.Proofs.Index.Filled
import FleetHealth.Proofs.Repeats
import FleetHealth.Proofs.Store.Log
import FleetHealth.Store.Snapshot
import Mathlib.Data.List.Perm.Basic

/-!
# Stores from snapshots in any order

A snapshot is loaded edit by edit. Entities may come in any order, and the series of an entity are
walked in whatever order its map has. As long as no two entries are about one entity, each edit has a
slot of the store to itself, so the store comes out the same.
-/
namespace FleetHealth

/-- What loading an entity comes to, its series taken in the order given. -/
def SnapshotEntity.edits (e : SnapshotEntity) (series : List (Metric × List Sample)) :
    List Store.Edit :=
  e.displayName.toList.map (.setDisplayName e.entity) ++
    series.map fun (metric, samples) => .insert e.entity metric samples

namespace Store

namespace Edit

/-- The part of a store that an edit is about: a series of an entity, or its name. -/
def slot : Edit → String × Option Metric
  | insert entity metric _ => (entity, some metric)
  | setDisplayName entity _ => (entity, none)

/-- What an edit makes of the record of its entity. -/
def change : Edit → EntityRecord → EntityRecord
  | insert _ metric samples, record => addSamples metric samples record
  | setDisplayName _ name, record => { record with displayName := some name }

theorem change_comm {a b : Edit} (h : a.slot.2 ≠ b.slot.2) (record : EntityRecord) :
    b.change (a.change record) = a.change (b.change record) := by
  cases a with
  | insert entity metric samples =>
    cases b with
    | insert entity' metric' samples' =>
      have hne : metric ≠ metric' := fun he => h (congrArg some he)
      exact congrArg (EntityRecord.mk record.displayName) (Index.alter_comm hne ..)
    | setDisplayName => rfl
  | setDisplayName =>
    cases b with
    | insert => rfl
    | setDisplayName => exact absurd rfl h

end Edit

theorem apply_eq (s : Store) (edit : Edit) :
    s.apply edit =
      ⟨s.records.alter edit.entity fun old => edit.change (old.getD .empty), s.pinned⟩ := by
  cases edit <;> rfl

theorem pinned_replay (s : Store) (edits : List Edit) : (s.replay edits).pinned = s.pinned := by
  induction edits generalizing s with
  | nil => rfl
  | cons edit rest ih =>
    have hedit : (s.apply edit).pinned = s.pinned := by rw [apply_eq]
    exact (ih _).trans hedit

/-- Edits of different slots may change places. -/
theorem apply_comm (s : Store) {a b : Edit} (h : a.slot ≠ b.slot) :
    (s.apply a).apply b = (s.apply b).apply a := by
  rw [apply_eq, apply_eq, apply_eq, apply_eq]
  refine congrArg (Store.mk · s.pinned) ?_
  by_cases he : a.entity = b.entity
  · have hslot : a.slot.2 ≠ b.slot.2 := by
      intro hs
      refine h (Prod.ext ?_ hs)
      cases a <;> cases b <;> exact he
    simp only [← he, Index.alter_alter, Option.getD_some, Edit.change_comm hslot]
  · exact Index.alter_comm he ..

/-- Edits with a slot each to themselves may be made in any order. -/
theorem replay_perm (s : Store) {edits edits' : List Edit} (h : edits.Perm edits')
    (hslots : (edits.map Edit.slot).Nodup) : s.replay edits = s.replay edits' := by
  refine h.foldl_eq' (fun a ha b hb s => ?_) s
  by_cases hab : a.slot = b.slot
  · rw [List.inj_on_of_nodup_map hslots ha hb hab]
  · exact s.apply_comm hab

theorem addVisited_eq_replay (s : Store) (visit : SnapshotEntity × List (Metric × List Sample)) :
    s.addVisited visit = s.replay (visit.1.edits visit.2) := by
  rw [addVisited, replay, SnapshotEntity.edits, List.foldl_append, List.foldl_map, List.foldl_map]
  rcases visit.1.displayName with _ | name <;> rfl

theorem foldl_replay {α : Type} (s : Store) (l : List α) (edits : α → List Edit) :
    l.foldl (fun s a => s.replay (edits a)) s = s.replay (l.flatMap edits) :=
  List.foldl_flatMap.symm

theorem ofWalk_eq_replay {snapshot : Snapshot} (walk : snapshot.Walk) :
    ofWalk walk = replay ⟨.empty, snapshot.asOf⟩ (walk.visits.flatMap fun v => v.1.edits v.2) := by
  rw [← foldl_replay, ofWalk]
  congr 1
  funext s v
  exact s.addVisited_eq_replay v

theorem ofSnapshot_eq_replay (snapshot : Snapshot) :
    ofSnapshot snapshot = replay ⟨.empty, snapshot.asOf⟩
      (snapshot.entities.flatMap fun e => e.edits e.series.entries) := by
  rw [← foldl_replay, ofSnapshot]
  congr 1
  funext s e
  exact s.addVisited_eq_replay (e, e.series.entries)

theorem pinned_ofSnapshot (snapshot : Snapshot) : (ofSnapshot snapshot).pinned = snapshot.asOf := by
  rw [ofSnapshot_eq_replay, pinned_replay]

theorem repeats_edits (e : SnapshotEntity) :
    Repeats Edit.slot (fun _ => 1) (e.edits e.series.entries) := by
  have hseries : (e.series.entries.map fun entry => (e.entity, some entry.1)).Nodup :=
    List.pairwise_map.2 (e.series.keys_distinct.imp fun hne he =>
      hne (Option.some.inj (congrArg Prod.snd he)))
  refine .of_nodup ?_
  rw [SnapshotEntity.edits, List.map_append, List.map_map, List.map_map]
  refine List.nodup_append.2 ⟨?_, hseries, ?_⟩
  · rcases e.displayName with _ | name <;> simp
  · -- the slot of a name is no slot of a series
    rintro a ha b hb rfl
    obtain ⟨_, _, rfl⟩ := List.mem_map.1 ha
    obtain ⟨_, _, hb⟩ := List.mem_map.1 hb
    exact absurd (congrArg Prod.snd hb) nofun

theorem slots_nodup {entities : List SnapshotEntity} (h : (entities.map (·.entity)).Nodup) :
    ((entities.flatMap fun e => e.edits e.series.entries).map Edit.slot).Nodup := by
  refine (Repeats.flatMap_of_nodup Prod.fst h (fun e _ => repeats_edits e) fun e _ edit he => ?_).nodup
    fun _ => Nat.le_refl 1
  rcases List.mem_append.1 he with he | he <;> obtain ⟨_, _, rfl⟩ := List.mem_map.1 he <;> rfl

/-- Whichever way a snapshot is walked, the store is the one that it is loaded into as it is listed. -/
theorem ofWalk_eq {snapshot : Snapshot} (walk : snapshot.Walk)
    (distinct : (snapshot.entities.map (·.entity)).Nodup) : ofWalk walk = ofSnapshot snapshot := by
  have hvisits : (walk.visits.flatMap fun v => v.1.edits v.2).Perm
      (walk.visits.flatMap fun v => v.1.edits v.1.series.entries) :=
    (List.Perm.refl _).flatMap fun v hv => ((walk.series v hv).map _).append_left _
  have hentities : (walk.visits.flatMap fun v => v.1.edits v.1.series.entries).Perm
      (snapshot.entities.flatMap fun e => e.edits e.series.entries) := by
    have h := walk.entities.flatMap_right fun e => e.edits e.series.entries
    rwa [List.flatMap_map] at h
  rw [ofWalk_eq_replay, ofSnapshot_eq_replay]
  exact (replay_perm _ (hvisits.trans hentities).symm (slots_nodup distinct)).symm

end Store

end FleetHealth
