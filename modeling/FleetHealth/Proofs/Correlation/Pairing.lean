import FleetHealth.Proofs.Binary64.Order
import FleetHealth.Proofs.Correlation.Alignment
import FleetHealth.Proofs.Correlation.Selection

/-!
# Correlated pairs

What a correlation of series reports: for every two of the densest entities one pair, if their series
share enough instants and correlate strongly enough, and nothing else.
-/
namespace FleetHealth.Correlation

theorem mem_unordered {α : Type} {l : List α} {p : α × α} :
    p ∈ Correlator.unordered l ↔ [p.1, p.2].Sublist l := by
  induction l with
  | nil => simp [Correlator.unordered]
  | cons a rest ih =>
    rw [Correlator.unordered, List.mem_append, ih, List.mem_map, List.sublist_cons_iff, or_comm]
    refine or_congr_right ⟨?_, ?_⟩
    · rintro ⟨b, hb, rfl⟩
      exact ⟨[b], rfl, List.singleton_sublist.2 hb⟩
    · rintro ⟨r, hr, hs⟩
      obtain ⟨rfl, rfl⟩ := List.cons.inj hr
      exact ⟨p.2, List.singleton_sublist.1 hs, rfl⟩

/-- Members told apart by a key make pairs told apart by their two keys, in whichever order. -/
theorem unordered_distinct {α κ : Type} {key : α → κ} {l : List α}
    (h : l.Pairwise fun a b => key a ≠ key b) :
    (Correlator.unordered l).Pairwise fun p q => s(key p.1, key p.2) ≠ s(key q.1, key q.2) := by
  induction l with
  | nil => exact .nil
  | cons a rest ih =>
    obtain ⟨ha, hr⟩ := List.pairwise_cons.1 h
    refine List.pairwise_append.2 ⟨List.pairwise_map.2 (hr.imp ?_), ih hr, ?_⟩
    · intro b b' hne he
      exact hne (Sym2.congr_right.1 he)
    · intro p hp q hq he
      obtain ⟨b, _, rfl⟩ := List.mem_map.1 hp
      have hsub := (mem_unordered.1 hq).subset
      have hmem : key a ∈ s(key q.1, key q.2) := he ▸ Sym2.mem_mk_left (key a) (key b)
      rcases Sym2.mem_iff.1 hmem with hk | hk
      · exact ha q.1 (hsub (by simp)) hk
      · exact ha q.2 (hsub (by simp)) hk

namespace Strength

theorem isReported_iff (r : Float) : (ofCoefficient r).isReported ↔ 0.7 ≤ r.abs := by
  have hstep : (0.7 : Float) ≤ 0.9 := by decide
  simp only [ofCoefficient]
  by_cases hv : r.abs ≥ 0.9
  · rw [if_pos hv]
    exact ⟨fun _ => Binary64.le_trans hstep hv, fun _ => rfl⟩
  · rw [if_neg hv]
    by_cases hs : r.abs ≥ 0.7
    · rw [if_pos hs]
      exact ⟨fun _ => hs, fun _ => rfl⟩
    · rw [if_neg hs]
      refine ⟨fun h => ?_, fun h => absurd h hs⟩
      split at h <;> cases h

end Strength

def Comparison.pair? : Comparison → Option Pair
  | .related pair => some pair
  | _ => none

theorem Comparison.pair?_eq_some {r : Comparison} {p : Pair} :
    r.pair? = some p ↔ r = .related p := by
  cases r <;> simp [pair?]

namespace Correlator

def pairCoefficient (a b : EntitySeries) : Float :=
  Binary64.clamp (-1.0) 1.0
    (Binary64.roundTo (Correlation.coefficient (align a.samples b.samples)) 3)

/-- When two series are reported: they share enough instants, and the magnitude of the coefficient is
not below the threshold, nor below that of a strong one. A threshold that is no number is met by all. -/
structure Qualifies (c : Correlator) (a b : EntitySeries) : Prop where
  enough : max c.minAligned 2 ≤ (sharedInstants a.samples b.samples).card
  threshold : c.threshold.isNaN = true ∨ c.threshold ≤ (pairCoefficient a b).abs
  strong : 0.7 ≤ (pairCoefficient a b).abs

/-- The entry for two series, the better ranked one first. -/
def entry (metric : Metric) (a b : EntitySeries) : Pair where
  entityA := a.entity
  nameA := a.displayName
  entityB := b.entity
  nameB := b.displayName
  metric := metric
  coefficient := pairCoefficient a b
  strength := Strength.ofCoefficient (pairCoefficient a b)
  direction := if pairCoefficient a b > 0.0 then .positive else .negative
  sampleCount := (sharedInstants a.samples b.samples).card

theorem unrelated_iff {t r : Float} :
    (r.abs < t ∨ ¬ (Strength.ofCoefficient r).isReported) ↔
      ¬ ((t.isNaN = true ∨ t ≤ r.abs) ∧ 0.7 ≤ r.abs) := by
  rw [Strength.isReported_iff]
  by_cases hs : 0.7 ≤ r.abs
  · have hr : r.abs.isNaN = false := (Binary64.le_iff.1 hs).2.1
    rw [← not_iff_not, not_not, not_or, not_not, Binary64.not_lt_iff, hr]
    simp
  · exact ⟨fun _ h => hs h.2, fun _ => .inr hs⟩

theorem compareSeries_eq_related (c : Correlator) (metric : Metric) (a b : EntitySeries) (p : Pair) :
    c.compareSeries metric a b = .related p ↔ c.Qualifies a b ∧ p = entry metric a b := by
  have hc : c.compareSeries metric a b =
      if (sharedInstants a.samples b.samples).card < max c.minAligned 2 then .tooFewShared
      else if (pairCoefficient a b).abs < c.threshold ∨
        ¬ (Strength.ofCoefficient (pairCoefficient a b)).isReported then .unrelated
      else .related (entry metric a b) := by
    simp only [compareSeries, length_align]
    rfl
  rw [hc]
  constructor
  · intro h
    split at h
    next => cases h
    next he =>
      split at h
      next => cases h
      next hr =>
        rw [unrelated_iff, not_not] at hr
        exact ⟨⟨Nat.not_lt.1 he, hr.1, hr.2⟩, (Comparison.related.inj h).symm⟩
  · rintro ⟨hq, rfl⟩
    rw [if_neg (Nat.not_lt.2 hq.enough), if_neg]
    rw [unrelated_iff, not_not]
    exact ⟨hq.threshold, hq.strong⟩

theorem related_run (c : Correlator) (metric : Metric) (series : List EntitySeries) :
    (c.run metric series).related =
      (unordered (c.select series)).filterMap fun q => (c.compareSeries metric q.1 q.2).pair? := by
  rw [Pass.related, run, List.filterMap_map]
  rfl

theorem mem_related {c : Correlator} {metric : Metric} {series : List EntitySeries} {p : Pair} :
    p ∈ (c.run metric series).related ↔
      ∃ a b, [a, b].Sublist (c.select series) ∧ c.Qualifies a b ∧ p = entry metric a b := by
  rw [related_run, List.mem_filterMap]
  simp only [Comparison.pair?_eq_some, compareSeries_eq_related]
  constructor
  · rintro ⟨q, hq, hp⟩
    exact ⟨q.1, q.2, mem_unordered.1 hq, hp⟩
  · rintro ⟨a, b, hab, h⟩
    exact ⟨(a, b), mem_unordered.2 hab, h⟩

theorem related_distinct {c : Correlator} {series : List EntitySeries}
    (h : (c.select series).Pairwise fun a b => a.entity ≠ b.entity) (metric : Metric) :
    (c.run metric series).related.Pairwise fun p q =>
      s(p.entityA, p.entityB) ≠ s(q.entityA, q.entityB) := by
  rw [related_run]
  refine (unordered_distinct h).filterMap _ fun q q' hne p hp p' hp' => ?_
  rw [Comparison.pair?_eq_some, compareSeries_eq_related] at hp hp'
  rw [hp.2, hp'.2]
  exact hne

end Correlator

/-- A stronger pair stands first; of two equally strong, the one that comes first by metric and then
by its entities. -/
def StrongerFirst (p q : Pair) : Prop :=
  q.coefficient.abs < p.coefficient.abs ∨
    (p.coefficient.abs == q.coefficient.abs) = true ∧
      (compare p.metric q.metric = .lt ∨ p.metric = q.metric ∧
        (p.entityA < q.entityA ∨ p.entityA = q.entityA ∧ p.entityB < q.entityB))

def comparePairs : Pair → Pair → Ordering :=
  compareLex (fun p q => compare (Binary64.rank q.coefficient.abs) (Binary64.rank p.coefficient.abs))
    (compareLex (compareOn Pair.metric) (compareLex (compareOn Pair.entityA) (compareOn Pair.entityB)))

instance : Std.TransCmp fun p q : Pair =>
    compare (Binary64.rank q.coefficient.abs) (Binary64.rank p.coefficient.abs) :=
  inferInstanceAs (Std.TransCmp fun p q =>
    compareOn (fun p : Pair => Binary64.rank p.coefficient.abs) q p)

instance : Std.TransCmp comparePairs :=
  inferInstanceAs (Std.TransCmp (compareLex _ (compareLex (compareOn Pair.metric)
    (compareLex (compareOn Pair.entityA) (compareOn Pair.entityB)))))

theorem precedes_order : SortOrder Pair.precedes := .of_compare comparePairs fun _ _ => rfl

theorem precedes_iff {p q : Pair} (hp : p.coefficient.abs.isNaN = false)
    (hq : q.coefficient.abs.isNaN = false) :
    p.precedes q ↔ StrongerFirst p q ∨ (p.coefficient.abs == q.coefficient.abs) = true ∧
      p.metric = q.metric ∧ p.entityA = q.entityA ∧ p.entityB = q.entityB := by
  have hc : Binary64.totalCompare q.coefficient.abs p.coefficient.abs =
      compare (Binary64.position q.coefficient.abs) (Binary64.position p.coefficient.abs) := by
    rw [Binary64.totalCompare, Binary64.rank_abs, Binary64.rank_abs]
  have hlt : Binary64.position q.coefficient.abs < Binary64.position p.coefficient.abs ↔
      q.coefficient.abs < p.coefficient.abs := by
    rw [Binary64.lt_iff, hp, hq]
    simp
  have heq : Binary64.position q.coefficient.abs = Binary64.position p.coefficient.abs ↔
      (p.coefficient.abs == q.coefficient.abs) = true := by
    rw [Binary64.beq_iff, hp, hq, eq_comm]
    simp
  rw [Pair.precedes, hc, Ordering.isLE_then_iff_or, Ordering.isLE_then_iff_or,
    Ordering.isLE_then_iff_or, Ordering.isLE_iff_eq_lt_or_eq_eq, Int.compare_eq_lt,
    Int.compare_eq_eq, hlt, heq, StrongerFirst]
  simp only [Correlator.compare_eq_lt, Std.LawfulEqOrd.compare_eq_iff_eq, and_or_left, or_assoc]

/-- A pass over the series of one metric is exact. For the ranking of the densest series of the
entities, cut to the number of entities compared: each two of them that qualify have their entry, the
better ranked first, no two entries are about the same two entities, in either order, none is about
one entity, and stronger pairs come first. -/
theorem correlate_exact (c : Correlator) (metric : Metric) (series : List EntitySeries) :
    ∃ ranked, Correlator.Ranking series ranked ∧
      (∀ p, p ∈ c.correlate metric series ↔ ∃ a b, [a, b].Sublist (ranked.take c.maxEntities) ∧
        c.Qualifies a b ∧ p = Correlator.entry metric a b) ∧
      (c.correlate metric series).Pairwise (fun p q =>
        s(p.entityA, p.entityB) ≠ s(q.entityA, q.entityB)) ∧
      (∀ p ∈ c.correlate metric series, p.entityA ≠ p.entityB) ∧
      (c.correlate metric series).Pairwise StrongerFirst := by
  have hrank := Correlator.ranking series
  have hmem (p : Pair) : p ∈ c.correlate metric series ↔ ∃ a b, [a, b].Sublist (c.select series) ∧
      c.Qualifies a b ∧ p = Correlator.entry metric a b := by
    rw [Correlator.correlate, sortPairs, List.mem_mergeSort, Correlator.mem_related]
  have hdistinct : (c.select series).Pairwise fun a b => a.entity ≠ b.entity :=
    hrank.distinct.sublist (List.take_sublist _ _)
  have hids : (c.correlate metric series).Pairwise fun p q =>
      s(p.entityA, p.entityB) ≠ s(q.entityA, q.entityB) := by
    refine (List.Perm.pairwise_iff (fun h => h.symm) (List.mergeSort_perm _ _)).2 ?_
    exact Correlator.related_distinct hdistinct metric
  refine ⟨_, hrank, hmem, hids, fun p hp => ?_, ?_⟩
  · obtain ⟨a, b, hab, _, rfl⟩ := (hmem p).1 hp
    exact List.pairwise_iff_forall_sublist.1 hdistinct hab
  · have hsorted : (c.correlate metric series).Pairwise fun p q => p.precedes q :=
      precedes_order.pairwise _
    have hnumber {p : Pair} (hp : p ∈ c.correlate metric series) :
        p.coefficient.abs.isNaN = false := by
      obtain ⟨a, b, _, hq, rfl⟩ := (hmem p).1 hp
      exact (Binary64.le_iff.1 hq.strong).2.1
    -- pairs that tie on everything would be about the same entities
    refine (hsorted.and hids).imp_of_mem fun {p q} hp hq ⟨hpq, hne⟩ => ?_
    rcases (precedes_iff (hnumber hp) (hnumber hq)).1 hpq with h | ⟨_, _, ha, hb⟩
    · exact h
    · exact absurd (by rw [ha, hb]) hne

/-- Two samples, a minute apart, that rise from 0 to 1. -/
def ramp (entity : String) : EntitySeries :=
  ⟨entity, none, [⟨.epoch, 0.0⟩, ⟨⟨60, 0, by decide⟩, 1.0⟩]⟩

theorem powerOfTen_three : Binary64.powerOfTen 3 = 1000.0 := by
  have h : Binary64.powerTimes 1.0 10.0 3 = 1000.0 := by
    rw [Binary64.powerTimes, Binary64.powerTimes]
    decide +kernel
  rw [Binary64.powerOfTen]
  exact h

theorem pairCoefficient_ramp : Correlator.pairCoefficient (ramp "a") (ramp "b") = 1.0 := by
  have ha : align (ramp "a").samples (ramp "b").samples = [(0.0, 0.0), (1.0, 1.0)] := by
    decide +kernel
  have hc : coefficient [(0.0, 0.0), (1.0, 1.0)] = 1.0 := by decide +kernel
  rw [Correlator.pairCoefficient, ha, hc, Binary64.roundTo, powerOfTen_three]
  decide +kernel

/-- A threshold that is no number lets a pair through, though its coefficient does not reach it. -/
theorem correlate_nan_threshold :
    ∃ p ∈ (⟨Binary64.nan, 2, 2⟩ : Correlator).correlate .cpu [ramp "a", ramp "b"],
      ¬ Binary64.nan ≤ p.coefficient.abs := by
  have hs : Correlator.select ⟨Binary64.nan, 2, 2⟩ [ramp "a", ramp "b"] = [ramp "a", ramp "b"] := by
    rw [Correlator.select, List.mergeSort_of_pairwise (by decide)]
    rfl
  have hq : (⟨Binary64.nan, 2, 2⟩ : Correlator).Qualifies (ramp "a") (ramp "b") := by
    refine ⟨by decide +kernel, .inl (by decide), ?_⟩
    rw [pairCoefficient_ramp]
    decide
  refine ⟨Correlator.entry .cpu (ramp "a") (ramp "b"), ?_, ?_⟩
  · rw [Correlator.correlate, sortPairs, List.mem_mergeSort, Correlator.mem_related, hs]
    exact ⟨_, _, List.Sublist.refl _, hq, rfl⟩
  · rw [Binary64.le_iff]
    exact fun h => absurd h.1 (by decide)

end FleetHealth.Correlation
