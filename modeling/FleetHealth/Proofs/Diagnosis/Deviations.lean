import FleetHealth.Diagnosis.Scorer
import FleetHealth.Proofs.Binary64.Decimals
import FleetHealth.Proofs.Sorting

/-!
# Deviations and their score

What a diagnosis lists: the elevated verdicts, the largest deviation first, those of one magnitude in
the order given. The score is made of the magnitudes alone, and a diagnosis is there exactly where
something is listed and the score is no less than the least one.
-/
namespace FleetHealth

def Deviation.ofVerdict (v : Verdict) : Deviation := ⟨v.metric, v.current, v.mean, v.zScore⟩

namespace Binary64

/-- Every bit pattern has its own place in the total order. -/
theorem rank_injective : Function.Injective rank := by
  intro x y h
  unfold rank at h
  refine eq_of_magnitudeBits_eq ?_ (by split at h <;> split at h <;> omega)
  unfold sign
  split at h <;> split at h <;> rename_i hx hy
  · rw [if_pos hx, if_pos hy]
  · omega
  · omega
  · rw [if_neg hx, if_neg hy]

end Binary64

namespace Scorer

open Binary64

variable {s : Scorer} {entity : String} {verdicts : List Verdict} {time : Instant}

theorem isElevated_iff {v : Verdict} :
    s.isElevated v = true ↔ v.zScore.isFinite = true ∧ v.zScore.abs > s.elevated := by
  rw [isElevated, Bool.and_eq_true, decide_eq_true_iff]

theorem deviatesMore_iff {a b : Deviation} :
    deviatesMore a b = true ↔ rank b.zScore.abs ≤ rank a.zScore.abs := by
  rw [deviatesMore, totalCompare, Int.isLE_compare]

theorem deviatesMore_order : SortOrder deviatesMore where
  trans a b c hab hbc := by
    rw [deviatesMore_iff] at *
    exact hbc.trans hab
  total a b := by
    rw [Bool.or_eq_true, deviatesMore_iff, deviatesMore_iff]
    exact le_total _ _

theorem deviations_eq (s : Scorer) (verdicts : List Verdict) :
    s.deviations verdicts =
      ((verdicts.filter s.isElevated).map Deviation.ofVerdict).mergeSort deviatesMore := rfl

theorem mem_deviations {x : Deviation} :
    x ∈ s.deviations verdicts ↔ ∃ v ∈ verdicts, s.isElevated v = true ∧ x = .ofVerdict v := by
  rw [deviations_eq, List.mem_mergeSort, List.mem_map]
  simp only [List.mem_filter, and_assoc, eq_comm]

/-- Elevated verdicts that stand in order already are listed as they stand. -/
theorem deviations_of_pairwise
    (h : ((verdicts.filter s.isElevated).map Deviation.ofVerdict).Pairwise (deviatesMore · ·)) :
    s.deviations verdicts = (verdicts.filter s.isElevated).map Deviation.ofVerdict :=
  List.mergeSort_of_pairwise h

/-- What the score is made of. -/
def magnitudes (s : Scorer) (verdicts : List Verdict) : List Float :=
  (s.deviations verdicts).map (·.zScore.abs)

/-- The score of what is listed, also where it is too low for a diagnosis. -/
def score (s : Scorer) (verdicts : List Verdict) : Float :=
  roundTo (rootMeanSquare (s.magnitudes verdicts)) 2

theorem diagnose_eq_none_iff : s.diagnose entity verdicts time = none ↔
    s.deviations verdicts = [] ∨ s.score verdicts < s.minScore := by
  simp only [diagnose, score, magnitudes, ite_eq_left_iff, reduceCtorEq, imp_false, not_not,
    List.isEmpty_iff]

theorem diagnose_eq_some_iff {made : Diagnosis} : s.diagnose entity verdicts time = some made ↔
    s.deviations verdicts ≠ [] ∧ ¬ s.score verdicts < s.minScore ∧
      made = ⟨entity, s.deviations verdicts, s.score verdicts,
        Rule.classify? s.rules ⟨verdicts, s.deviations verdicts⟩,
        Severity.ofScore (s.score verdicts), time⟩ := by
  simp only [diagnose, score, magnitudes, List.isEmpty_iff]
  split
  next h => exact iff_of_false (by simp) fun ⟨hne, hscore, _⟩ => h.elim hne hscore
  next h =>
    rw [not_or] at h
    rw [Option.some.injEq, eq_comm]
    exact ⟨fun heq => ⟨h.1, h.2, heq⟩, fun heq => heq.2.2⟩

theorem of_diagnose {made : Diagnosis} (h : s.diagnose entity verdicts time = some made) :
    made.entity = entity ∧ made.deviations = s.deviations verdicts ∧
      made.score = s.score verdicts := by
  obtain ⟨_, _, rfl⟩ := diagnose_eq_some_iff.1 h
  exact ⟨rfl, rfl, rfl⟩

/-- Elevated verdicts that stand in order are listed by their diagnosis, if they score high enough. -/
theorem diagnose_of_pairwise (entity : String) (time : Instant) {listed : List Deviation}
    (hlisted : (verdicts.filter s.isElevated).map Deviation.ofVerdict = listed)
    (hsorted : listed.Pairwise (deviatesMore · ·)) (hne : listed ≠ [])
    (hscore : ¬ roundTo (rootMeanSquare (listed.map (·.zScore.abs))) 2 < s.minScore) :
    ∃ made, s.diagnose entity verdicts time = some made ∧ made.entity = entity ∧
      made.deviations = listed ∧ made.pattern = Rule.classify? s.rules ⟨verdicts, listed⟩ := by
  have hdeviations : s.deviations verdicts = listed := by
    rw [← hlisted] at hsorted ⊢
    exact deviations_of_pairwise hsorted
  refine ⟨_, diagnose_eq_some_iff.2 ⟨?_, ?_, rfl⟩, rfl, hdeviations, ?_⟩
  · rwa [hdeviations]
  · rwa [score, magnitudes, hdeviations]
  · rw [hdeviations]

end Scorer

end FleetHealth
