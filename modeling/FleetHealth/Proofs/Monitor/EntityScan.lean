import FleetHealth.Proofs.Monitor.Operations
import FleetHealth.Proofs.Series

/-!
# Scans of an entity

A scan reads one sample more than the window, takes the newest away and lets the detector cut what is
left to its window. The cuts meet: each verdict is that on the newest sample over everything stored
before it.
-/
namespace FleetHealth

theorem Baseline.ofSamples?_takeLast (samples : List Sample) (window : Nat) :
    Baseline.ofSamples? (Series.takeLast window samples) window =
      Baseline.ofSamples? samples window := by
  rw [ofSamples?, Series.takeLast_takeLast (Nat.le_refl window), ofSamples?]

theorem Detector.judge_takeLast (d : Detector) (entity : String) (metric : Metric)
    (history : List Sample) (current : Float) :
    d.judge entity metric (Series.takeLast d.window history) current =
      d.judge entity metric history current := by
  rw [judge, Baseline.ofSamples?_takeLast, judge]

namespace Engine

/-- Of a bounded read the history is what stands before the newest sample, whichever samples share
its instant. -/
theorem history_takeLast (window : Nat) {series : List Sample} {newest : Sample}
    (h : series.getLast? = some newest) :
    history window (Series.takeLast (window + 1) series) newest =
      Series.takeLast window series.dropLast := by
  rw [history, Series.getLast?_takeLast window h]
  simp only [if_true]
  exact Series.dropLast_takeLast window series

/-- The newest sample of a series, judged against all the samples before it. -/
def fullVerdict (e : Engine) (entity : String) (metric : Metric) (series : List Sample) :
    Option Verdict :=
  series.getLast?.bind fun newest => e.detector.judge entity metric series.dropLast newest.value

theorem window_succ_toNat {e : Engine} (h : e.settings.anomaly.window.toNat + 1 < UInt64.size) :
    (e.settings.anomaly.window + 1).toNat = e.settings.anomaly.window.toNat + 1 := by
  rw [UInt64.toNat_add]
  exact Nat.mod_eq_of_lt h

theorem history_recent {e : Engine} (h : e.settings.anomaly.window.toNat + 1 < UInt64.size)
    {s : Store} {entity : String} {metric : Metric} {newest : Sample}
    (hn : (s.series entity metric).getLast? = some newest) :
    history e.settings.anomaly.window.toNat
        (s.recent entity metric (e.settings.anomaly.window + 1).toNat) newest =
      Series.takeLast e.detector.window (s.series entity metric).dropLast := by
  rw [window_succ_toNat h, Store.recent, history_takeLast _ hn]
  rfl

theorem verdictOn_eq_fullVerdict {e : Engine}
    (h : e.settings.anomaly.window.toNat + 1 < UInt64.size)
    (s : Store) (entity : String) (metric : Metric) :
    e.verdictOn s entity metric = e.fullVerdict entity metric (s.series entity metric) := by
  rcases hn : (s.series entity metric).getLast? with _ | newest
  · rw [verdictOn, fullVerdict, Store.latest?, hn, Option.bind_none, Option.bind_none]
  · rw [verdictOn, fullVerdict, Store.latest?, hn, Option.bind_some, Option.bind_some,
      history_recent h hn, Detector.judge_takeLast]

/-- A scan of an entity yields, in the order of the metrics, the verdicts on their newest samples over
all that is stored before them. What the detector is handed is no less than its window of that. -/
theorem scanEntity_full_history (e : Engine)
    (fits : e.settings.anomaly.window.toNat + 1 < UInt64.size)
    (s : Store) (clock : Instant) (entity : String) (metrics : List Metric) :
    Run.Yields (s.source clock) (e.scanEntity entity metrics)
        (.ok (metrics.filterMap fun metric =>
          e.fullVerdict entity metric (s.series entity metric))) ∧
      ∀ metric newest, (s.series entity metric).getLast? = some newest →
        history e.settings.anomaly.window.toNat
            (s.recent entity metric (e.settings.anomaly.window + 1).toNat) newest =
          Series.takeLast e.detector.window (s.series entity metric).dropLast := by
  refine ⟨?_, fun metric newest hn => history_recent fits hn⟩
  have hv : e.verdictOn s entity =
      fun metric => e.fullVerdict entity metric (s.series entity metric) :=
    funext (verdictOn_eq_fullVerdict fits s entity)
  rw [← hv]
  exact e.yields_scanEntity s clock entity metrics

/-- Six samples of one entity, all of one instant. -/
def tiedStore : Store where
  records :=
    let values : List Float := [10.0, 11.0, 9.0, 10.0, 10.0, 50.0]
    let samples := values.map fun v => ⟨.epoch, v⟩
    ⟨[("web", ⟨none, ⟨[(.cpu, samples)], List.pairwise_singleton _ _⟩⟩)],
      List.pairwise_singleton _ _⟩
  pinned := none

/-- An engine that looks at three samples before the newest. -/
def narrowEngine : Engine :=
  ⟨{ Settings.standard with anomaly := ⟨2.0, 3, 3, [.cpu, .memory]⟩ }, defaultLabel, []⟩

theorem scanEntity_full_history_tied :
    narrowEngine.settings.anomaly.window.toNat + 1 < UInt64.size ∧
      (tiedStore.recent "web" .cpu 4).length < (tiedStore.series "web" .cpu).length ∧
      Run.Yields (tiedStore.source .epoch) (narrowEngine.scanEntity "web" [.cpu, .memory])
        (.ok (([.cpu, .memory] : List Metric).filterMap fun metric =>
          narrowEngine.fullVerdict "web" metric (tiedStore.series "web" metric))) ∧
      history 3 (tiedStore.recent "web" .cpu 4) ⟨.epoch, 50.0⟩ =
        Series.takeLast 3 (tiedStore.series "web" .cpu).dropLast := by
  have hfits : narrowEngine.settings.anomaly.window.toNat + 1 < UInt64.size := by decide
  obtain ⟨hscan, hhistory⟩ :=
    scanEntity_full_history narrowEngine hfits tiedStore .epoch "web" [.cpu, .memory]
  exact ⟨hfits, by decide, hscan, hhistory .cpu ⟨.epoch, 50.0⟩ rfl⟩

end Engine

end FleetHealth
