import FleetHealth.Proofs.Binary64.Ranks
import FleetHealth.Proofs.Diagnosis.Deviations
import FleetHealth.Proofs.Index.Filled
import FleetHealth.Proofs.Repeats
import FleetHealth.Proofs.Sorting

/-!
# Diagnoses of a fleet

A flat list of verdicts is filed by entity before it is diagnosed. Only the order within each entity
counts, so verdicts that were scanned entity by entity get the diagnoses of the single scans.
-/
namespace FleetHealth

namespace Diagnosis

/-- A higher score stands first; of two equal scores, the one whose entity comes first. -/
def RanksHigher (a b : Diagnosis) : Prop :=
  b.score < a.score ∨ (a.score == b.score) = true ∧ a.entity < b.entity

def comparePlaces : Diagnosis → Diagnosis → Ordering :=
  compareLex (fun a b => compare (Binary64.rank b.score) (Binary64.rank a.score))
    (compareOn Diagnosis.entity)

instance : Std.TransCmp fun a b : Diagnosis =>
    compare (Binary64.rank b.score) (Binary64.rank a.score) :=
  inferInstanceAs (Std.TransCmp fun a b => compareOn (fun d : Diagnosis => Binary64.rank d.score) b a)

instance : Std.TransCmp comparePlaces :=
  inferInstanceAs (Std.TransCmp (compareLex _ (compareOn Diagnosis.entity)))

theorem precedes_order : SortOrder precedes := .of_compare comparePlaces fun _ _ => rfl

/-- Diagnoses that could stand either way are of one entity. -/
theorem entity_eq_of_precedes {a b : Diagnosis} (hab : a.precedes b) (hba : b.precedes a) :
    a.entity = b.entity := by
  have heq : comparePlaces a b = .eq := Std.OrientedCmp.isLE_antisymm hab hba
  exact Std.LawfulEqOrd.eq_of_compare (compareLex_eq_eq.1 heq).2

/-- Among proper scores the order of a sort is that of numbers. -/
theorem ranksHigher_of_precedes {a b : Diagnosis} {x y : Float}
    (ha : a.score = Binary64.roundTo x 2) (hb : b.score = Binary64.roundTo y 2)
    (hne : a.entity ≠ b.entity) (h : a.precedes b) : a.RanksHigher b := by
  have hfinite (x : Float) : (Binary64.roundTo x 2).isNaN = false :=
    Binary64.isNaN_eq_false (Binary64.isFinite_roundTo x (by decide) (by decide))
  have hsign (x : Float) : ¬ Binary64.IsNegativeZero (Binary64.roundTo x 2) :=
    Binary64.not_isNegativeZero_roundTo x (by decide) (by decide)
  rw [precedes, ha, hb, Binary64.totalCompare_eq (hsign y) (hsign x), Ordering.isLE_then_iff_or,
    Int.compare_eq_lt, Int.compare_eq_eq] at h
  rw [RanksHigher, ha, hb, Binary64.lt_iff, Binary64.beq_iff]
  rcases h with hlt | ⟨heq, hle⟩
  · exact .inl ⟨hfinite y, hfinite x, hlt⟩
  · rcases Ordering.isLE_iff_eq_lt_or_eq_eq.1 hle with hl | he
    · exact .inr ⟨⟨hfinite x, hfinite y, heq.symm⟩, compareOfLessAndEq_eq_lt.1 hl⟩
    · exact absurd (Std.LawfulEqOrd.eq_of_compare he) hne

end Diagnosis

namespace Scorer

variable {s : Scorer} {entity : String} {verdicts : List Verdict} {time : Instant}

theorem diagnose_nil (s : Scorer) (entity : String) (time : Instant) :
    s.diagnose entity [] time = none := by
  rw [diagnose, deviations, List.filter_nil, List.map_nil, List.mergeSort_nil]
  exact if_pos (.inl rfl)

/-- Filed are the entities with verdicts, each with its own in their order. -/
theorem get?_byEntity_eq_some {own : List Verdict} :
    (byEntity verdicts).get? entity = some own ↔
      own ≠ [] ∧ own = verdicts.filter fun v => v.entity = entity := by
  have hfiled (l : List Verdict) : l.foldl (fun vs v => some (vs.getD [] ++ [v])) none =
      if l = [] then none else some l := by
    induction l using List.reverseRecOn with
    | nil => rfl
    | append_singleton l v ih =>
      rw [List.foldl_append, ih, if_neg (List.append_ne_nil_of_right_ne_nil _ (List.cons_ne_nil v []))]
      by_cases h : l = [] <;> simp [h]
  rw [byEntity, Index.get?_foldl_alter Verdict.entity fun v vs => vs.getD [] ++ [v], hfiled,
    Option.ite_none_left_eq_some, Option.some.injEq]
  exact ⟨fun h => ⟨h.2 ▸ h.1, h.2.symm⟩, fun h => ⟨h.2 ▸ h.1, h.2.symm⟩⟩

/-- How the verdicts of different entities are mixed does not matter. -/
theorem diagnoseFleet_congr (s : Scorer) (time : Instant) {verdicts verdicts' : List Verdict}
    (h : ∀ entity, verdicts.filter (fun v => v.entity = entity) =
      verdicts'.filter fun v => v.entity = entity) :
    s.diagnoseFleet verdicts time = s.diagnoseFleet verdicts' time := by
  have hfiled : byEntity verdicts = byEntity verdicts' := by
    refine Index.ext_get? fun entity => Option.ext fun own => ?_
    rw [get?_byEntity_eq_some, get?_byEntity_eq_some, h]
  rw [diagnoseFleet, diagnoseFleet, hfiled]

section entries

variable {entries : List (String × List Verdict)}
  (hdistinct : entries.Pairwise fun a b => a.1 ≠ b.1)
include hdistinct

/-- One diagnosis an entity at most. -/
theorem diagnoses_distinct (s : Scorer) (time : Instant) :
    (entries.filterMap fun p => s.diagnose p.1 p.2 time).Pairwise fun a b => a.entity ≠ b.entity := by
  refine hdistinct.filterMap _ fun p q hne a ha b hb => ?_
  rw [(of_diagnose ha).1, (of_diagnose hb).1]
  exact hne

theorem ranked_diagnoses :
    (Diagnosis.sortByScore (entries.filterMap fun p => s.diagnose p.1 p.2 time)).Pairwise
      Diagnosis.RanksHigher := by
  have hentities := (List.mergeSort_perm _ Diagnosis.precedes).pairwise_iff (fun h => h.symm) |>.2
    (diagnoses_distinct hdistinct s time)
  have hscore {a : Diagnosis}
      (ha : a ∈ Diagnosis.sortByScore (entries.filterMap fun p => s.diagnose p.1 p.2 time)) :
      ∃ x, a.score = Binary64.roundTo x 2 := by
    obtain ⟨p, _, hp⟩ := List.mem_filterMap.1 (List.mem_mergeSort.1 ha)
    exact ⟨_, (of_diagnose hp).2.2⟩
  refine ((Diagnosis.precedes_order.pairwise _).and hentities).imp_of_mem
    fun {a b} ha hb ⟨hab, hne⟩ => ?_
  obtain ⟨x, hx⟩ := hscore ha
  obtain ⟨y, hy⟩ := hscore hb
  exact Diagnosis.ranksHigher_of_precedes hx hy hne hab

/-- Verdicts put together entity by entity are filed as they were, but for entities without any. -/
theorem entries_byEntity_perm (howner : ∀ p ∈ entries, ∀ v ∈ p.2, v.entity = p.1) :
    (byEntity (entries.flatMap (·.2))).entries.Perm (entries.filter fun p => p.2 ≠ []) := by
  have hnodup {l : List (String × List Verdict)} (h : l.Pairwise fun a b => a.1 ≠ b.1) : l.Nodup :=
    List.Nodup.of_map Prod.fst (List.pairwise_map.2 h)
  refine (List.perm_ext_iff_of_nodup (hnodup (Index.keys_distinct _))
    ((hnodup hdistinct).filter _)).2 fun p => ?_
  have hown : (entries.flatMap (·.2)).filter (fun v => v.entity = p.1) =
      (entries.filter fun q => q.1 = p.1).flatMap (·.2) := filter_flatMap_of_key howner p.1
  have hsole {q : String × List Verdict} (hq : q ∈ entries) :
      (entries.filter fun r => r.1 = q.1).flatMap (·.2) = q.2 := by
    rw [filter_key_of_distinct hdistinct hq, List.flatMap_singleton]
  rw [← Index.get?_eq_some_iff, get?_byEntity_eq_some, hown, List.mem_filter, decide_eq_true_iff]
  constructor
  · rintro ⟨hne, hp⟩
    -- a verdict of the entity comes from an entry, and that is its only one
    obtain ⟨v, hv⟩ := List.exists_mem_of_ne_nil _ hne
    obtain ⟨q, hq, _⟩ := List.mem_flatMap.1 (hp ▸ hv)
    obtain ⟨hq, hk⟩ := List.mem_filter.1 hq
    rw [decide_eq_true_iff] at hk
    rw [← hk, hsole hq] at hp
    exact ⟨(Prod.ext hk.symm hp : p = q) ▸ hq, hne⟩
  · rintro ⟨hp, hne⟩
    exact ⟨hne, (hsole hp).symm⟩

/-- The diagnoses of verdicts that were found entity by entity are those of the entities. -/
theorem diagnoseFleet_flatMap (s : Scorer) (time : Instant)
    (howner : ∀ p ∈ entries, ∀ v ∈ p.2, v.entity = p.1) :
    s.diagnoseFleet (entries.flatMap (·.2)) time =
      Diagnosis.sortByScore (entries.filterMap fun p => s.diagnose p.1 p.2 time) := by
  have hnone : (entries.filter fun p => p.2 ≠ []).filterMap (fun p => s.diagnose p.1 p.2 time) =
      entries.filterMap fun p => s.diagnose p.1 p.2 time := by
    rw [List.filterMap_filter]
    congr 1
    funext p
    by_cases hp : p.2 = []
    · rw [hp, diagnose_nil]
      rfl
    · exact if_pos (decide_eq_true hp)
  have hperm := (entries_byEntity_perm hdistinct howner).filterMap fun p => s.diagnose p.1 p.2 time
  rw [hnone] at hperm
  refine Diagnosis.precedes_order.mergeSort_congr hperm fun a ha b hb hab hba => ?_
  have hnodup : ((entries.filterMap fun p => s.diagnose p.1 p.2 time).map
      Diagnosis.entity).Nodup := List.pairwise_map.2 (diagnoses_distinct hdistinct s time)
  exact List.inj_on_of_nodup_map hnodup (hperm.subset ha) (hperm.subset hb)
    (Diagnosis.entity_eq_of_precedes hab hba)

end entries

end Scorer

end FleetHealth
