import FleetHealth.Correlation.Pairing
import FleetHealth.Proofs.Sorting
import Mathlib.Data.List.Nodup

/-!
# Selection of the series compared

Of each entity the first of its densest series is compared. The entities are ranked by the number of
samples of that series, ties by name, and this ranking is the only one of its kind.
-/
namespace FleetHealth.Correlation.Correlator

/-- The first series of an entity with as many samples as any of its series. -/
def densestOf (series : List EntitySeries) (entity : String) : Option EntitySeries :=
  series.find? fun s => s.entity = entity ∧
    ∀ t ∈ series, t.entity = entity → t.samples.length ≤ s.samples.length

/-- More samples first, ties by entity. -/
def RanksBefore (a b : EntitySeries) : Prop :=
  b.samples.length < a.samples.length ∨
    a.samples.length = b.samples.length ∧ a.entity < b.entity

/-- The densest series of every entity, in the order of their ranks. -/
structure Ranking (series ranked : List EntitySeries) : Prop where
  mem_iff : ∀ s, s ∈ ranked ↔ densestOf series s.entity = some s
  ordered : ranked.Pairwise RanksBefore

def compareDensity : EntitySeries → EntitySeries → Ordering :=
  compareLex (fun a b => compare b.samples.length a.samples.length) (compareOn EntitySeries.entity)

instance : Std.TransCmp fun a b : EntitySeries => compare b.samples.length a.samples.length :=
  inferInstanceAs (Std.TransCmp fun a b => compareOn (fun s : EntitySeries => s.samples.length) b a)

instance : Std.TransCmp compareDensity :=
  inferInstanceAs (Std.TransCmp (compareLex _ (compareOn EntitySeries.entity)))

theorem denser_order : SortOrder denser :=
  .of_compare compareDensity fun _ _ => rfl

theorem compare_eq_lt {a b : String} : compare a b = .lt ↔ a < b := compareOfLessAndEq_eq_lt

theorem denser_iff (a b : EntitySeries) :
    denser a b ↔
      RanksBefore a b ∨ a.samples.length = b.samples.length ∧ a.entity = b.entity := by
  rw [denser, Ordering.isLE_then_iff_or, Nat.compare_eq_lt, Nat.compare_eq_eq, RanksBefore,
    Ordering.isLE_iff_eq_lt_or_eq_eq, compare_eq_lt, Std.LawfulEqOrd.compare_eq_iff_eq, and_or_left,
    eq_comm (a := b.samples.length), or_assoc]

theorem denser_of_entity_eq {a b : EntitySeries} (h : a.entity = b.entity) :
    denser a b ↔ b.samples.length ≤ a.samples.length := by
  rw [denser, h, Std.LawfulEqOrd.compare_eq_iff_eq.2 rfl, Ordering.then_eq, Nat.isLE_compare]

theorem find?_sorted (series : List EntitySeries) (entity : String) :
    (series.mergeSort denser).find? (fun s => s.entity = entity) = densestOf series entity := by
  rw [denser_order.find?_mergeSort, densestOf]
  congr 1
  funext s
  rw [Bool.eq_iff_iff]
  simp only [Bool.and_eq_true, List.all_eq_true, Bool.or_eq_true, Bool.not_eq_true',
    decide_eq_true_eq, decide_eq_false_iff_not, ← imp_iff_not_or]
  refine and_congr_right fun hs => forall₂_congr fun t _ => imp_congr_right fun ht => ?_
  exact denser_of_entity_eq (hs.trans ht.symm)

theorem mem_firstOfEach {seen : List String} {l : List EntitySeries} {s : EntitySeries} :
    s ∈ firstOfEach seen l ↔ s.entity ∉ seen ∧ l.find? (fun t => t.entity = s.entity) = some s := by
  induction l generalizing seen with
  | nil => simp [firstOfEach]
  | cons t rest ih =>
    rw [firstOfEach, List.find?_cons]
    by_cases hs : t.entity ∈ seen
    · rw [if_pos (List.contains_iff_mem.2 hs), ih]
      by_cases he : t.entity = s.entity
      · rw [← he]
        simp [hs]
      · simp [he]
    · rw [if_neg (mt List.contains_iff_mem.1 hs), List.mem_cons, ih, List.mem_cons]
      by_cases he : t.entity = s.entity
      · rw [← he]
        simp [hs, eq_comm]
      · have hne : s ≠ t := fun h => he (congrArg EntitySeries.entity h).symm
        simp [he, hne, Ne.symm he]

theorem firstOfEach_sublist (seen : List String) (l : List EntitySeries) :
    (firstOfEach seen l).Sublist l := by
  induction l generalizing seen with
  | nil => exact .slnil
  | cons s rest ih =>
    rw [firstOfEach]
    split
    · exact (ih seen).cons s
    · exact (ih _).cons_cons s

theorem firstOfEach_distinct (seen : List String) (l : List EntitySeries) :
    (firstOfEach seen l).Pairwise fun a b => a.entity ≠ b.entity := by
  induction l generalizing seen with
  | nil => exact .nil
  | cons s rest ih =>
    rw [firstOfEach]
    split
    · exact ih seen
    · refine List.pairwise_cons.2 ⟨fun t ht he => ?_, ih _⟩
      exact (mem_firstOfEach.1 ht).1 (by rw [← he]; exact List.mem_cons_self)

/-- The series before the cut to the densest few. -/
theorem ranking (series : List EntitySeries) :
    Ranking series (firstOfEach [] (series.mergeSort denser)) where
  mem_iff s := by
    rw [mem_firstOfEach, find?_sorted]
    simp
  ordered := by
    have hs := (denser_order.pairwise series).sublist (firstOfEach_sublist [] _)
    refine hs.imp₂ (fun a b hab hne => ?_) (firstOfEach_distinct [] _)
    rcases (denser_iff a b).1 hab with h | ⟨_, h⟩
    · exact h
    · exact absurd h hne

theorem RanksBefore.asymm {a b : EntitySeries} (h : RanksBefore a b) (h' : RanksBefore b a) :
    False := by
  rcases h with h | ⟨h, hn⟩ <;> rcases h' with h' | ⟨h', hn'⟩
  · omega
  · omega
  · omega
  · exact absurd hn' (String.lt_asymm hn)

namespace Ranking

variable {series ranked ranked' : List EntitySeries}

theorem distinct (h : Ranking series ranked) : ranked.Pairwise fun a b => a.entity ≠ b.entity := by
  refine h.ordered.imp_of_mem fun {a b} ha hb hab he => ?_
  have hd := (h.mem_iff a).1 ha
  rw [he, (h.mem_iff b).1 hb] at hd
  obtain rfl := Option.some.inj hd
  exact hab.asymm hab

theorem nodup (h : Ranking series ranked) : ranked.Nodup :=
  h.distinct.imp fun hne he => hne (congrArg EntitySeries.entity he)

/-- There is no other ranking of the same series. -/
theorem unique (h : Ranking series ranked) (h' : Ranking series ranked') : ranked = ranked' := by
  have hp : ranked.Perm ranked' := (List.perm_ext_iff_of_nodup h.nodup h'.nodup).2 fun s =>
    (h.mem_iff s).trans (h'.mem_iff s).symm
  exact hp.eq_of_pairwise (fun a b _ _ hab hba => (hab.asymm hba).elim) h.ordered h'.ordered

end Ranking

/-- Where every entity has one series, the order of the series does not show. -/
theorem select_perm (c : Correlator) {series series' : List EntitySeries} (h : series.Perm series')
    (hd : series.Pairwise fun a b => a.entity ≠ b.entity) : c.select series = c.select series' := by
  have hties : ∀ a ∈ series, ∀ b ∈ series, denser a b → denser b a → a = b := by
    intro a ha b hb hab hba
    have heq : compareDensity a b = .eq := Std.OrientedCmp.isLE_antisymm hab hba
    have hentity : a.entity = b.entity := Std.LawfulEqOrd.eq_of_compare (compareLex_eq_eq.1 heq).2
    exact List.inj_on_of_nodup_map (List.pairwise_map.2 hd) ha hb hentity
  rw [select, select, denser_order.mergeSort_congr h hties]

theorem run_perm (c : Correlator) (metric : Metric) {series series' : List EntitySeries}
    (h : series.Perm series') (hd : series.Pairwise fun a b => a.entity ≠ b.entity) :
    c.run metric series = c.run metric series' := by
  rw [run, run, c.select_perm h hd, h.length_eq]

end FleetHealth.Correlation.Correlator
