import FleetHealth.Proofs.FiniteResults
import FleetHealth.Proofs.Series

/-!
# Which values make a baseline

The window is cut from the samples, and what is not finite is left out after that. So a baseline is made
from the newest of the finite values, but of fewer than the window where a sample in it is not finite
and there are finite values before it. A value gets a verdict where the finite values held by the window
are enough, however many there are before it.
-/
namespace FleetHealth

open Series (takeLast)

namespace Baseline

variable {samples : List Sample} {window : Nat} {values values' : List Float}

/-- The finite values of some samples, in their order. -/
def finiteValues (samples : List Sample) : List Float := (Series.finite samples).map (·.value)

/-- How many of the last `window` samples are finite. -/
def held (samples : List Sample) (window : Nat) : Nat :=
  (takeLast window samples).countP Series.isFinite

theorem length_windowValues (samples : List Sample) (window : Nat) :
    (windowValues samples window).length = held samples window := by
  rw [windowValues, List.length_map, Series.finite, held, List.countP_eq_length_filter]

theorem length_finiteValues (samples : List Sample) :
    (finiteValues samples).length = samples.countP Series.isFinite := by
  rw [finiteValues, List.length_map, Series.finite, List.countP_eq_length_filter]

theorem windowValues_suffix (samples : List Sample) (window : Nat) :
    windowValues samples window <:+ finiteValues samples :=
  ((List.drop_suffix _ samples).filter Series.isFinite).map _

/-- What the window holds are the newest of the finite values. -/
theorem windowValues_eq (samples : List Sample) (window : Nat) :
    windowValues samples window = takeLast (held samples window) (finiteValues samples) := by
  have hsuffix := List.suffix_iff_eq_drop.1 (windowValues_suffix samples window)
  rw [length_windowValues] at hsuffix
  exact hsuffix

/-- The finite samples are those before the window and those in it. -/
theorem countP_eq_older_add_held (samples : List Sample) (window : Nat) :
    samples.countP Series.isFinite =
      (samples.take (samples.length - window)).countP Series.isFinite + held samples window := by
  rw [held, takeLast, ← List.countP_append, List.take_append_drop]

theorem held_le (samples : List Sample) (window : Nat) :
    held samples window ≤ min window (finiteValues samples).length := by
  have hcount := countP_eq_older_add_held samples window
  have hle : held samples window ≤ (takeLast window samples).length := List.countP_le_length
  rw [Series.length_takeLast] at hle
  rw [length_finiteValues]
  omega

/-- The window holds as many finite values as it could where it holds nothing else, or where there are
none before it. -/
theorem held_eq_iff (samples : List Sample) (window : Nat) :
    held samples window = min window (finiteValues samples).length ↔
      (∀ s ∈ takeLast window samples, Series.isFinite s = true) ∨
        ∀ s ∈ samples.take (samples.length - window), Series.isFinite s = false := by
  have hcount := countP_eq_older_add_held samples window
  have hfull : held samples window = (takeLast window samples).length ↔
      ∀ s ∈ takeLast window samples, Series.isFinite s = true := List.countP_eq_length
  have hnone : (samples.take (samples.length - window)).countP Series.isFinite = 0 ↔
      ∀ s ∈ samples.take (samples.length - window), Series.isFinite s = false := by
    simp only [List.countP_eq_zero, Bool.not_eq_true]
  have hle : held samples window ≤ (takeLast window samples).length := List.countP_le_length
  have holder : (samples.take (samples.length - window)).countP Series.isFinite ≤
      samples.length - window := List.countP_le_length.trans (List.length_take_le _ _)
  rw [← hfull, ← hnone, length_finiteValues]
  rw [Series.length_takeLast] at hle ⊢
  omega

theorem length_eq_of_ofValues?_eq (h : ofValues? values = ofValues? values') :
    values.length = values'.length := by
  have hcount (l : List Float) : ((ofValues? l).map (·.count)).getD 0 = l.length := by
    unfold ofValues?
    split
    next hempty => rw [List.isEmpty_iff.1 hempty]; rfl
    next => rfl
  rw [← hcount values, ← hcount values', h]

/-- The baseline is that of the last `window` finite values exactly where the window holds that many, or
all there are. -/
theorem ofSamples?_eq_iff (samples : List Sample) (window : Nat) :
    ofSamples? samples window = ofValues? (takeLast window (finiteValues samples)) ↔
      held samples window = min window (finiteValues samples).length := by
  rw [ofSamples?_eq]
  constructor
  · intro heq
    rw [← length_windowValues, length_eq_of_ofValues?_eq heq, Series.length_takeLast]
  · intro hheld
    rw [windowValues_eq, hheld, takeLast, takeLast]
    congr 2
    omega

end Baseline

namespace Detector

open Baseline

theorem isSome_judge_iff (d : Detector) (entity : String) (metric : Metric) (history : List Sample)
    (current : Float) : (d.judge entity metric history current).isSome = true ↔
      current.isFinite = true ∧ max d.minSamples 1 ≤ held history d.window := by
  rw [judge, ofSamples?_eq, ofValues?, ← length_windowValues]
  generalize windowValues history d.window = values
  cases values with
  | nil => simp [guard]
  | cons v rest =>
    by_cases hcurrent : current.isFinite = true
    · by_cases hmin : d.minSamples ≤ rest.length + 1
      · simp [guard, hcurrent, hmin]
      · simp [guard, hcurrent, hmin]
    · simp [guard, hcurrent]

/-- The baseline of a window is made from the finite values that the window holds, which are the newest
there are and no more than the window. It is that of the last finite values in the number of the window
exactly where the window holds nothing else, or where there are none before it. A finite value gets a
verdict exactly where those held are one at least, and enough. -/
theorem judged_by_held (samples : List Sample) (window : Nat) :
    ofSamples? samples window =
        ofValues? (takeLast (held samples window) (finiteValues samples)) ∧
      held samples window ≤ min window (finiteValues samples).length ∧
      (ofSamples? samples window = ofValues? (takeLast window (finiteValues samples)) ↔
        (∀ s ∈ takeLast window samples, Series.isFinite s = true) ∨
          ∀ s ∈ samples.take (samples.length - window), Series.isFinite s = false) ∧
      ∀ threshold minSamples entity metric current,
        ((Detector.mk threshold window minSamples).judge entity metric samples current).isSome = true ↔
          current.isFinite = true ∧ max minSamples 1 ≤ held samples window := by
  refine ⟨?_, held_le samples window, ?_, fun threshold minSamples entity metric current => ?_⟩
  · rw [ofSamples?_eq, windowValues_eq]
  · rw [ofSamples?_eq_iff, held_eq_iff]
  · exact isSome_judge_iff ⟨threshold, window, minSamples⟩ entity metric samples current

/-- Six values, and after them one that is none. -/
def gappedHistory : List Sample :=
  [40.0, 40.0, 42.0, 38.0, 41.0, 39.0, Binary64.nan].mapIdx fun i v =>
    ⟨(Instant.ofMillis? (1000 * i)).get!, v⟩

/-- There are five finite values at the end of the history, which is what window and detector ask for, but
the window of five samples holds four of them: the baseline is another one and there is no verdict. -/
theorem judge_gappedHistory :
    (Detector.mk 2.0 5 5).judge "web" .cpu gappedHistory 46.0 = none ∧
      Float.isFinite 46.0 = true ∧ 5 ≤ (finiteValues gappedHistory).length ∧
      (ofSamples? gappedHistory 5).map (·.count) = some 4 ∧
      (ofValues? (takeLast 5 (finiteValues gappedHistory))).map
        (fun b => (b.count, b.mean, Binary64.roundTo (b.zScore 46.0) 2)) = some (5, 40.0, 4.24) := by
  refine ⟨?_, by decide, by decide +kernel, by decide +kernel, by decide +kernel⟩
  rw [← Option.isNone_iff_eq_none]
  decide +kernel

end Detector

end FleetHealth
