import FleetHealth.Proofs.Diagnosis.Deviations
import FleetHealth.Settings

/-!
# What a pattern says of the deviations

The first of the standard rules looks at all verdicts, the others at the elevated ones. A threshold of
exhaustion that is no lower than that of elevation lets only elevated verdicts past, so the pattern of a
diagnosis can be told from what it lists. The cases exclude each other and leave nothing out.
-/
namespace FleetHealth

namespace Pattern

/-- Something listed is of the family. -/
def Shows (family : Metric → Bool) (deviations : List Deviation) : Prop :=
  ∃ d ∈ deviations, family d.metric

/-- Something listed is of the family and lies above the threshold, not below its negative. -/
def Exceeds (family : Metric → Bool) (threshold : Float) (deviations : List Deviation) : Prop :=
  ∃ d ∈ deviations, family d.metric ∧ d.zScore > threshold

/-- What the deviations show where they are named by a pattern, or by none. -/
def Explains (exhaustion : Float) (deviations : List Deviation) : Option Pattern → Prop
  | some .resourceExhaustion =>
    Exceeds Metric.inCpuFamily exhaustion deviations ∧
      Exceeds Metric.inMemoryFamily exhaustion deviations
  | some .memoryLeakSuspected =>
    Shows Metric.inMemoryFamily deviations ∧ ¬ Shows Metric.inCpuFamily deviations
  | some .cpuSpike => Shows Metric.inCpuFamily deviations ∧ ¬ Shows Metric.inMemoryFamily deviations
  | none =>
    ¬ Shows Metric.inCpuFamily deviations ∧ ¬ Shows Metric.inMemoryFamily deviations ∨
      Shows Metric.inCpuFamily deviations ∧ Shows Metric.inMemoryFamily deviations ∧
        ¬ (Exceeds Metric.inCpuFamily exhaustion deviations ∧
          Exceeds Metric.inMemoryFamily exhaustion deviations)

variable {family : Metric → Bool} {exhaustion : Float} {deviations : List Deviation}

theorem Exceeds.shows (h : Exceeds family exhaustion deviations) : Shows family deviations := by
  obtain ⟨d, hd, hfamily, _⟩ := h
  exact ⟨d, hd, hfamily⟩

/-- No list of deviations is explained in two ways. -/
theorem Explains.unique {p q : Option Pattern} (hp : Explains exhaustion deviations p)
    (hq : Explains exhaustion deviations q) : p = q := by
  have hcpu : Exceeds Metric.inCpuFamily exhaustion deviations → Shows _ deviations := Exceeds.shows
  have hmemory : Exceeds Metric.inMemoryFamily exhaustion deviations → Shows _ deviations :=
    Exceeds.shows
  rcases p with _ | _ | _ | _ <;> rcases q with _ | _ | _ | _ <;> simp only [Explains] at hp hq <;>
    first | rfl | tauto

/-- The first standard rule that holds explains the deviations, if the one that looks at verdicts sees no
more in them than the deviations show. -/
theorem explains_classify? {f : Findings}
    (hcpu : f.cpuAbove exhaustion ↔ Exceeds Metric.inCpuFamily exhaustion f.elevated)
    (hmemory : f.memoryAbove exhaustion ↔ Exceeds Metric.inMemoryFamily exhaustion f.elevated) :
    Explains exhaustion f.elevated (Rule.classify? (Rule.standard exhaustion) f) := by
  have hc : f.cpuElevated ↔ Shows Metric.inCpuFamily f.elevated := List.any_eq_true
  have hm : f.memoryElevated ↔ Shows Metric.inMemoryFamily f.elevated := List.any_eq_true
  simp only [Rule.classify?, Rule.standard, Rule.ofConditions, Findings.meet, Condition.holds,
    List.find?_cons, List.find?_nil, List.all_cons, List.all_nil, Bool.and_true]
  rcases ha : f.cpuAbove exhaustion <;> rcases hb : f.memoryAbove exhaustion <;>
    rcases hce : f.cpuElevated <;> rcases hme : f.memoryElevated <;>
    simp_all [Explains]

end Pattern

namespace Scorer

open Binary64 Pattern

variable {s : Scorer} {entity : String} {verdicts : List Verdict} {time : Instant}
  {exhaustion : Float}

section Thresholds

variable (h0 : 0.0 ≤ s.elevated) (hle : s.elevated ≤ exhaustion)
  (hfinite : ∀ v ∈ verdicts, v.zScore.isFinite)
include h0 hle hfinite

/-- What is above the threshold of exhaustion is elevated. -/
theorem exceeds_deviations_iff (family : Metric → Bool) :
    (verdicts.any fun v => family v.metric && decide (v.zScore > exhaustion)) ↔
      Exceeds family exhaustion (s.deviations verdicts) := by
  rw [List.any_eq_true]
  constructor
  · rintro ⟨v, hv, habove⟩
    rw [Bool.and_eq_true, decide_eq_true_iff] at habove
    have helevated := isElevated_iff.2 ⟨hfinite v hv, lt_abs_of_lt (hfinite v hv) h0 hle habove.2⟩
    exact ⟨.ofVerdict v, mem_deviations.2 ⟨v, hv, helevated, rfl⟩, habove⟩
  · rintro ⟨d, hd, habove⟩
    obtain ⟨v, hv, _, rfl⟩ := mem_deviations.1 hd
    exact ⟨v, hv, by rwa [Bool.and_eq_true, decide_eq_true_iff]⟩

/-- The pattern of a diagnosis by the standard rules is the one that explains what it lists, and there is
always exactly one that does. -/
theorem pattern_explained (hrules : s.rules = Rule.standard exhaustion) (made : Diagnosis)
    (hmade : s.diagnose entity verdicts time = some made) :
    (∃! pattern, Explains exhaustion made.deviations pattern) ∧
      ∀ pattern, made.pattern = pattern ↔ Explains exhaustion made.deviations pattern := by
  obtain ⟨_, _, rfl⟩ := diagnose_eq_some_iff.1 hmade
  have hexplains := explains_classify? (f := ⟨verdicts, s.deviations verdicts⟩)
    (exceeds_deviations_iff h0 hle hfinite Metric.inCpuFamily)
    (exceeds_deviations_iff h0 hle hfinite Metric.inMemoryFamily)
  rw [← hrules] at hexplains
  refine ⟨⟨_, hexplains, fun p hp => hp.unique hexplains⟩, fun p => ⟨fun h => h ▸ hexplains, ?_⟩⟩
  exact hexplains.unique

end Thresholds

/-- Processor and memory of one entity, both well above their baselines. -/
def bothHigh : List Verdict :=
  [⟨"web", .cpu, 65.0, 50.0, 5.0, 3.0, true⟩, ⟨"web", .memory, 62.5, 50.0, 5.0, 2.5, true⟩]

theorem pattern_explained_bothHigh :
    ∃ made, DiagnosisSettings.standard.scorer.diagnose "web" bothHigh .epoch = some made ∧
      made.pattern = some .resourceExhaustion ∧
      Explains 2.0 made.deviations (some .resourceExhaustion) := by
  have hlisted : (bothHigh.filter DiagnosisSettings.standard.scorer.isElevated).map
      Deviation.ofVerdict = bothHigh.map Deviation.ofVerdict := rfl
  obtain ⟨made, hmade, _, _, hclassified⟩ :=
    diagnose_of_pairwise "web" .epoch hlisted (by decide) (List.cons_ne_nil _ _) (by decide +kernel)
  have hthreshold : DiagnosisSettings.standard.scorer.elevated ≤ 2.0 := by decide
  obtain ⟨_, hexplained⟩ := pattern_explained (by decide) hthreshold (by decide) rfl _ hmade
  have hpattern : made.pattern = some .resourceExhaustion :=
    hclassified.trans (by decide +kernel)
  exact ⟨made, hmade, hpattern, (hexplained _).1 hpattern⟩

end Scorer

end FleetHealth
