import FleetHealth.Proofs.Diagnosis.Deviations
import FleetHealth.Settings
import Mathlib.Data.List.Find

/-!
# The order of verdicts

Sums of doubles depend on the order of their terms. The magnitudes of the deviations are sorted by an
order in which only equal ones tie, so the same magnitudes are always added in the same order, and
conditions only ask whether there are findings of some kind. All that is left of the order of verdicts is
that of listed deviations of one magnitude. A rule that asks something else may see more of it.
-/
namespace FleetHealth

/-! ### Rules -/

/-- The same findings in another order. -/
structure Findings.Perm (f g : Findings) : Prop where
  verdicts : f.verdicts.Perm g.verdicts
  elevated : f.elevated.Perm g.elevated

theorem Condition.holds_perm {f g : Findings} (h : f.Perm g) (c : Condition) :
    c.holds f = c.holds g := by
  induction c with
  | always => rfl
  | cpuElevated => exact h.elevated.any_eq
  | memoryElevated => exact h.elevated.any_eq
  | cpuAbove threshold => exact h.verdicts.any_eq
  | memoryAbove threshold => exact h.verdicts.any_eq
  | negation c ih => rw [holds, holds, ih]
  | either a b iha ihb => rw [holds, holds, iha, ihb]

theorem Findings.meet_perm {f g : Findings} (h : f.Perm g) (conditions : List Condition) :
    f.meet conditions = g.meet conditions := by
  simp only [meet, Condition.holds_perm h]

namespace Rule

/-- The rule asks for some conditions to hold together. -/
def IsCombined (r : Rule) : Prop := ∃ conditions, r = ofConditions r.pattern conditions

theorem isCombined_standard (exhaustion : Float) : ∀ r ∈ standard exhaustion, r.IsCombined := by
  intro r hr
  simp only [standard, List.mem_cons, List.not_mem_nil, or_false] at hr
  rcases hr with rfl | rfl | rfl
  · exact ⟨_, rfl⟩
  · exact ⟨_, rfl⟩
  · exact ⟨_, rfl⟩

theorem IsCombined.applies_perm {f g : Findings} (h : f.Perm g) {r : Rule} (hr : r.IsCombined) :
    r.applies f = r.applies g := by
  obtain ⟨conditions, hr⟩ := hr
  rw [hr]
  exact Findings.meet_perm h conditions

theorem classify?_perm {f g : Findings} (h : f.Perm g) {rules : List Rule}
    (hrules : ∀ r ∈ rules, r.IsCombined) : classify? rules f = classify? rules g := by
  rw [classify?, classify?, List.find?_congr fun r hr => (hrules r hr).applies_perm h]

end Rule

/-! ### Diagnoses -/

/-- Diagnoses that differ at most in the order of what they list. -/
structure Diagnosis.Agrees (a b : Diagnosis) : Prop where
  entity : a.entity = b.entity
  time : a.time = b.time
  score : a.score.toBits = b.score.toBits
  severity : a.severity = b.severity
  pattern : a.pattern = b.pattern
  deviations : a.deviations.Perm b.deviations

namespace Scorer

open Binary64

variable {s : Scorer} {entity : String} {verdicts others : List Verdict} {time : Instant}

/-- The deviations list each verdict of a finite z-score past the threshold once, the largest first, and
those of one magnitude as they were given. -/
structure Lists (s : Scorer) (verdicts : List Verdict) (deviations : List Deviation) : Prop where
  each : deviations.Perm ((verdicts.filter fun v =>
    v.zScore.isFinite ∧ v.zScore.abs > s.elevated).map Deviation.ofVerdict)
  descending : deviations.Pairwise fun a b => b.zScore.abs ≤ a.zScore.abs
  ties : ∀ magnitude : Float, deviations.filter (fun d => d.zScore.abs == magnitude) =
    ((verdicts.filter fun v => v.zScore.isFinite ∧ v.zScore.abs > s.elevated).map
      Deviation.ofVerdict).filter fun d => d.zScore.abs == magnitude

theorem isNaN_abs_of_mem {d : Deviation} (h : d ∈ s.deviations verdicts) :
    d.zScore.abs.isNaN = false := by
  obtain ⟨v, _, helevated, rfl⟩ := mem_deviations.1 h
  exact isNaN_abs (isElevated_iff.1 helevated).1

theorem lists_deviations (s : Scorer) (verdicts : List Verdict) :
    s.Lists verdicts (s.deviations verdicts) := by
  have hfilter : (verdicts.filter fun v => v.zScore.isFinite ∧ v.zScore.abs > s.elevated) =
      verdicts.filter s.isElevated := by
    congr 1
    funext v
    rw [Bool.eq_iff_iff, isElevated_iff, decide_eq_true_iff]
  refine ⟨?_, ?_, fun magnitude => ?_⟩
  · rw [hfilter]
    exact List.mergeSort_perm _ _
  · refine (deviatesMore_order.pairwise _).imp_of_mem fun {a b} ha hb h => ?_
    rw [deviatesMore_iff, rank_abs, rank_abs] at h
    exact le_iff.2 ⟨isNaN_abs_of_mem hb, isNaN_abs_of_mem ha, h⟩
  · rw [hfilter]
    refine deviatesMore_order.filter_mergeSort _ fun a _ b _ ha hb => ?_
    rw [deviatesMore_iff, rank_abs, rank_abs, (beq_iff.1 ha).2.2, (beq_iff.1 hb).2.2]

theorem deviations_perm (h : verdicts.Perm others) :
    (s.deviations verdicts).Perm (s.deviations others) :=
  (List.mergeSort_perm _ _).trans
    (((h.filter _).map _).trans (List.mergeSort_perm _ _).symm)

/-- The magnitudes that a score is made from do not depend on the order of the verdicts. -/
theorem magnitudes_perm (h : verdicts.Perm others) :
    s.magnitudes verdicts = s.magnitudes others := by
  have hsorted (verdicts : List Verdict) :
      (s.magnitudes verdicts).Pairwise fun x y => rank y ≤ rank x :=
    List.pairwise_map.2 ((deviatesMore_order.pairwise _).imp fun h => deviatesMore_iff.1 h)
  exact List.Perm.eq_of_pairwise (fun x y _ _ hxy hyx => rank_injective (le_antisymm hyx hxy))
    (hsorted verdicts) (hsorted others) ((deviations_perm h).map _)

/-- Where the rules are made of conditions, verdicts in another order get the same diagnosis, up to the
order of what it lists, or none as well. What is listed is told by the verdicts, in whatever order they
are. -/
theorem diagnose_perm (s : Scorer) (hrules : ∀ r ∈ s.rules, r.IsCombined) (entity : String)
    (time : Instant) (h : verdicts.Perm others) :
    Option.Rel Diagnosis.Agrees (s.diagnose entity verdicts time) (s.diagnose entity others time) ∧
      (∀ made, s.diagnose entity verdicts time = some made → s.Lists verdicts made.deviations) ∧
      ∀ made, s.diagnose entity others time = some made → s.Lists others made.deviations := by
  have hscore : s.score verdicts = s.score others := by rw [score, score, magnitudes_perm h]
  have hempty : s.deviations verdicts = [] ↔ s.deviations others = [] := by
    rw [← List.length_eq_zero_iff, (deviations_perm h).length_eq, List.length_eq_zero_iff]
  have hlists {verdicts : List Verdict} {made : Diagnosis}
      (hmade : s.diagnose entity verdicts time = some made) : s.Lists verdicts made.deviations := by
    rw [(of_diagnose hmade).2.1]
    exact s.lists_deviations verdicts
  refine ⟨?_, fun made => hlists, fun made => hlists⟩
  rcases hmade : s.diagnose entity verdicts time with _ | made
  · have hnone := diagnose_eq_none_iff.1 hmade
    rw [hempty, hscore] at hnone
    rw [diagnose_eq_none_iff.2 hnone]
    exact .none
  · obtain ⟨hne, hlow, rfl⟩ := diagnose_eq_some_iff.1 hmade
    rw [Ne, hempty] at hne
    rw [hscore] at hlow
    rw [diagnose_eq_some_iff.2 ⟨hne, hlow, rfl⟩]
    exact .some ⟨rfl, rfl, congrArg Float.toBits hscore, congrArg Severity.ofScore hscore,
      Rule.classify?_perm ⟨h, deviations_perm h⟩ hrules, deviations_perm h⟩

/-- Two deviations of one magnitude beside a z-score that is no number. -/
def tiedVerdicts : List Verdict :=
  [⟨"web", .cpu, 65.0, 50.0, 5.0, 3.0, true⟩, ⟨"web", .memory, 35.0, 50.0, 5.0, -3.0, true⟩,
    ⟨"web", .disk, 50.0, 50.0, 0.0, nan, false⟩]

theorem diagnose_perm_tiedVerdicts :
    tiedVerdicts.Perm tiedVerdicts.reverse ∧
      ∃ made, DiagnosisSettings.standard.scorer.diagnose "web" tiedVerdicts .epoch = some made ∧
        ∃ other, DiagnosisSettings.standard.scorer.diagnose "web" tiedVerdicts.reverse .epoch =
          some other ∧ made.Agrees other := by
  have hlisted : (tiedVerdicts.filter DiagnosisSettings.standard.scorer.isElevated).map
      Deviation.ofVerdict = (tiedVerdicts.take 2).map Deviation.ofVerdict := rfl
  obtain ⟨made, hmade, _⟩ :=
    diagnose_of_pairwise "web" .epoch hlisted (by decide) (List.cons_ne_nil _ _) (by decide +kernel)
  have hperm := tiedVerdicts.reverse_perm.symm
  obtain ⟨hagree, -⟩ := diagnose_perm DiagnosisSettings.standard.scorer
    (Rule.isCombined_standard _) "web" .epoch hperm
  rw [hmade] at hagree
  generalize DiagnosisSettings.standard.scorer.diagnose "web" tiedVerdicts.reverse .epoch = o at *
  cases hagree with
  | some h => exact ⟨hperm, made, hmade, _, rfl, h⟩

end Scorer

end FleetHealth
