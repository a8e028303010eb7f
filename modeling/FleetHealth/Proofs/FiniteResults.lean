import FleetHealth.Proofs.Binary64.Finite
import FleetHealth.Proofs.Capacity.Points
import FleetHealth.Proofs.Correlation.Pairing
import FleetHealth.Proofs.Diagnosis.Fleet
import FleetHealth.Settings

/-!
# Finite results

Which numbers of the results are finite, whatever the samples and the current values are. All are but
one: the mean of a verdict leaves the range of doubles with the sum that it is made from. Such a verdict
has no deviation and no z-score, and nothing is anomalous or elevated by it.
-/
namespace FleetHealth

namespace Baseline

open Binary64

/-- The values that a baseline of some samples is made from. -/
def windowValues (samples : List Sample) (window : Nat) : List Float :=
  (Series.finite (Series.takeLast window samples)).map (·.value)

variable {values : List Float} {b : Baseline}

theorem ofSamples?_eq (samples : List Sample) (window : Nat) :
    ofSamples? samples window = ofValues? (windowValues samples window) := rfl

theorem isFinite_mean_iff (hne : values ≠ []) :
    (sum values / Binary64.count values).isFinite = true ↔ (sum values).isFinite = true := by
  constructor
  · intro h
    by_contra hsum
    rw [isFinite_div_eq_false (Bool.not_eq_true _ ▸ hsum)] at h
    cases h
  · intro h
    obtain ⟨hn, hone⟩ := ofNat_bounds (List.length_pos_of_ne_nil hne)
    exact div_isFinite h hn hone

/-- Without a finite mean no difference from it is finite, nor the sum of their squares. -/
theorem isFinite_deviation_eq_false {mean : Float} (hne : values ≠ [])
    (hmean : mean.isFinite = false) :
    (sum (values.map fun v => (v - mean) * (v - mean)) / Binary64.count values).sqrt.isFinite =
      false := by
  obtain ⟨v, hv⟩ := List.exists_mem_of_ne_nil _ hne
  have hdiff : (v - mean).isFinite = false := isFinite_sub_eq_false (.inr hmean)
  have hsum : (sum (values.map fun v => (v - mean) * (v - mean))).isFinite = false :=
    isFinite_sumFrom_eq_false
      (.inr ⟨_, List.mem_map_of_mem hv, isFinite_mul_eq_false (.inl hdiff)⟩)
  exact isFinite_sqrt_eq_false (isFinite_div_eq_false hsum _)

theorem isFinite_of_ofValues? (h : ofValues? values = some b) :
    (b.mean.isFinite = true ↔ (sum values).isFinite = true) ∧ b.deviation.isFinite = true ∧
      (b.mean.isFinite = false → b.deviation = 0.0) := by
  have hne : values ≠ [] := by
    rintro rfl
    cases h
  rw [ofValues?, if_neg (by simpa using hne), Option.some.injEq] at h
  subst h
  refine ⟨isFinite_mean_iff hne, ?_, fun hmean => ?_⟩
  · simp only
    split
    next h => exact h
    next => decide
  · exact if_neg (by rw [isFinite_deviation_eq_false hne hmean]; exact Bool.false_ne_true)

theorem zScore_of_deviation_zero (h : b.deviation = 0.0) (x : Float) : b.zScore x = 0.0 :=
  if_pos (by rw [h]; decide)

end Baseline

/-- A threshold that is not below zero is not exceeded by a zero. -/
theorem not_abs_zero_gt {threshold : Float} (h : ¬ threshold < 0.0) :
    ¬ (0.0 : Float).abs > threshold := by
  have habs : (0.0 : Float).abs = 0.0 := rfl
  rwa [habs]

/-- Whether a detector gives a verdict: for some value, against some history. -/
def Detector.Gives (d : Detector) (v : Verdict) : Prop :=
  ∃ entity metric history current, d.judge entity metric history current = some v

/-- Every number of the diagnosis is finite. -/
structure Diagnosis.IsFinite (d : Diagnosis) : Prop where
  score : d.score.isFinite = true
  deviations : ∀ x ∈ d.deviations,
    x.current.isFinite = true ∧ x.mean.isFinite = true ∧ x.zScore.isFinite = true

namespace Detector

variable {d : Detector} {entity : String} {metric : Metric} {history : List Sample} {current : Float}
  {v : Verdict}

theorem of_judge (h : d.judge entity metric history current = some v) :
    ∃ b, Baseline.ofSamples? history d.window = some b ∧ current.isFinite = true ∧
      v = ⟨entity, metric, current, b.mean, b.deviation, Binary64.roundTo (b.zScore current) 2,
        (Binary64.roundTo (b.zScore current) 2).abs > d.threshold⟩ := by
  unfold judge at h
  simp only [Option.bind_eq_bind, Option.bind_eq_some_iff, Option.guard_eq_some', Option.pure_def,
    Option.some.injEq] at h
  obtain ⟨_, hcurrent, b, hb, _, _, rfl⟩ := h
  exact ⟨b, hb, hcurrent, rfl⟩

theorem isFinite_of_judge (h : d.judge entity metric history current = some v) :
    v.current.isFinite = true ∧ v.deviation.isFinite = true ∧ v.zScore.isFinite = true ∧
      (v.mean.isFinite = true ↔
        (Binary64.sum (Baseline.windowValues history d.window)).isFinite = true) := by
  obtain ⟨b, hb, hcurrent, rfl⟩ := of_judge h
  obtain ⟨hmean, hdeviation, _⟩ := Baseline.isFinite_of_ofValues? (Baseline.ofSamples?_eq .. ▸ hb)
  exact ⟨hcurrent, hdeviation, Binary64.isFinite_roundTo _ (by decide) (by decide), hmean⟩

/-- A baseline without a finite mean tells nothing apart. -/
theorem flat_of_judge (h : d.judge entity metric history current = some v)
    (hmean : v.mean.isFinite = false) :
    v.deviation = 0.0 ∧ v.zScore = 0.0 ∧
      v.isAnomalous = decide ((0.0 : Float).abs > d.threshold) := by
  obtain ⟨b, hb, _, rfl⟩ := of_judge h
  have hdeviation : b.deviation = 0.0 :=
    (Baseline.isFinite_of_ofValues? (Baseline.ofSamples?_eq .. ▸ hb)).2.2 hmean
  have hz : Binary64.roundTo (b.zScore current) 2 = 0.0 := by
    rw [Baseline.zScore_of_deviation_zero hdeviation]
    exact Binary64.roundTo_zero (by decide) (by decide)
  exact ⟨hdeviation, hz, by rw [hz]⟩

end Detector

namespace Scorer

variable {s : Scorer} {entity : String} {verdicts : List Verdict} {time : Instant}

variable {d : Detector}

/-- An elevated verdict has a mean: without one its z-score is zero, and no threshold that passes the
check is below that. -/
theorem isFinite_mean_of_isElevated {v : Verdict} (hs : ¬ s.elevated < 0.0) (hv : d.Gives v)
    (h : s.isElevated v = true) : v.mean.isFinite = true := by
  obtain ⟨_, _, _, _, hv⟩ := hv
  by_contra hmean
  rw [Bool.not_eq_true] at hmean
  rw [isElevated, Bool.and_eq_true, decide_eq_true_iff, (Detector.flat_of_judge hv hmean).2.1] at h
  exact not_abs_zero_gt hs h.2

theorem isFinite_of_diagnose {made : Diagnosis} (hs : ¬ s.elevated < 0.0)
    (hverdicts : ∀ v ∈ verdicts, d.Gives v) (h : s.diagnose entity verdicts time = some made) :
    made.IsFinite := by
  obtain ⟨_, hdeviations, hscore⟩ := of_diagnose h
  refine ⟨hscore ▸ Binary64.isFinite_roundTo _ (by decide) (by decide), fun x hx => ?_⟩
  obtain ⟨v, hv, helevated, rfl⟩ := mem_deviations.1 (hdeviations ▸ hx)
  have hmean := isFinite_mean_of_isElevated hs (hverdicts v hv) helevated
  obtain ⟨_, _, _, _, hjudged⟩ := hverdicts v hv
  obtain ⟨hcurrent, _, hz, _⟩ := Detector.isFinite_of_judge hjudged
  exact ⟨hcurrent, hmean, hz⟩

theorem isFinite_of_mem_diagnoseFleet {made : Diagnosis} (hs : ¬ s.elevated < 0.0)
    (hverdicts : ∀ v ∈ verdicts, d.Gives v) (h : made ∈ s.diagnoseFleet verdicts time) :
    made.IsFinite := by
  rw [diagnoseFleet, Diagnosis.sortByScore, List.mem_mergeSort, List.mem_filterMap] at h
  obtain ⟨⟨entity, vs⟩, hvs, hmade⟩ := h
  obtain ⟨_, hfilter⟩ := get?_byEntity_eq_some.1 ((Index.get?_eq_some_iff ..).2 hvs)
  refine isFinite_of_diagnose hs (fun v hv => hverdicts v ?_) hmade
  exact List.mem_of_mem_filter (hfilter ▸ hv)

end Scorer

namespace Capacity

/-- Every number of the forecast is finite. -/
structure Forecast.IsFinite (f : Forecast) : Prop where
  current : f.current.isFinite = true
  slope : f.slope.isFinite = true
  fit : f.fit.isFinite = true
  points : ∀ p ∈ f.points, p.value.isFinite = true
  hoursToThreshold : ∀ hours ∈ f.hoursToThreshold, hours.isFinite = true

namespace Forecaster

variable (f : Forecaster) {samples : List Sample}

theorem isFinite_of_forecast {entity : String} {metric : Metric} {made : Forecast}
    (h : f.forecast entity metric samples = some made) : made.IsFinite := by
  obtain ⟨last, _, hlast, rfl⟩ := exists_of_forecast h
  refine ⟨f.isFinite_of_mem_window (List.mem_of_getLast? hlast),
    Binary64.isFinite_roundTo _ (by decide) (by decide),
    Binary64.isFinite_roundTo _ (by decide) (by decide), fun p hp => ?_, fun hours hh => ?_⟩
  · rw [points, List.mem_append, List.mem_map] at hp
    rcases hp with ⟨s, hs, rfl⟩ | hp
    · exact f.isFinite_of_mem_window (List.mem_of_mem_drop hs)
    · obtain ⟨_, _, hp⟩ := mem_projection hp
      obtain ⟨_, _, x, hvalue⟩ := of_projected? hp
      rw [hvalue]
      exact (metric.roundTo_clamp x).1
  · obtain ⟨_, _, _, _, _, rfl⟩ := of_mem_hoursToThreshold hh
    exact Binary64.isFinite_roundTo _ (by decide) (by decide)

end Forecaster

theorem FleetForecaster.isFinite_of_mem_mostUrgent (f : FleetForecaster)
    {fleet : Index String EntityRecord} {limit : Nat} {made : Forecast}
    (h : made ∈ f.mostUrgent fleet limit) : made.IsFinite := by
  have hc : made ∈ f.candidates fleet := by
    rw [mostUrgent, Forecast.rank] at h
    exact List.mem_mergeSort.1 (List.mem_of_mem_take h)
  obtain ⟨record, _, _, hmade⟩ := f.mem_candidates.1 hc
  obtain ⟨samples, plain, _, _, hplain, rfl⟩ := f.candidate?_eq_some_iff.1 hmade
  -- the display name, which is not a number, is all that a fleet forecast adds
  have h := f.forecaster.isFinite_of_forecast hplain
  exact ⟨h.current, h.slope, h.fit, h.points, h.hoursToThreshold⟩

end Capacity

theorem Correlation.Correlator.isFinite_of_mem_correlate {c : Correlator} {metric : Metric}
    {series : List EntitySeries} {p : Pair} (h : p ∈ c.correlate metric series) :
    p.coefficient.isFinite = true := by
  rw [correlate, sortPairs, List.mem_mergeSort] at h
  obtain ⟨a, b, _, _, rfl⟩ := mem_related.1 h
  exact Binary64.isFinite_clamp (Binary64.isFinite_roundTo _ (by decide) (by decide)) (by decide)
    (by decide)

/-- With accepted settings every number of every result is finite, but for the mean of a verdict: that
is finite exactly where the sum of the values in the window is. A verdict without a finite mean has a
deviation and a z-score of zero and is not anomalous, so that no diagnosis takes up its mean. -/
theorem finite_results (s : Settings) (accepted : s.validate = .ok ()) :
    (∀ entity metric history current v,
      s.anomaly.detector.judge entity metric history current = some v →
        v.current.isFinite ∧ v.deviation.isFinite ∧ v.zScore.isFinite ∧
        (v.mean.isFinite ↔
          (Binary64.sum (Baseline.windowValues history s.anomaly.detector.window)).isFinite) ∧
        (v.mean.isFinite = false → v.deviation = 0.0 ∧ v.zScore = 0.0 ∧ v.isAnomalous = false)) ∧
    (∀ rules verdicts time, (∀ v ∈ verdicts, s.anomaly.detector.Gives v) →
      let scorer := { s.diagnosis.scorer with rules := rules }
      (∀ entity made, scorer.diagnose entity verdicts time = some made → made.IsFinite) ∧
        ∀ made ∈ scorer.diagnoseFleet verdicts time, made.IsFinite) ∧
    (∀ metric series, ∀ p ∈ s.correlation.correlator.correlate metric series,
      p.coefficient.isFinite) ∧
    (∀ entity metric samples made,
      s.forecast.forecaster.forecast entity metric samples = some made → made.IsFinite) ∧
    (∀ fleet limit, ∀ made ∈ s.forecast.fleetForecaster.mostUrgent fleet limit, made.IsFinite) := by
  have hreal (r : RealSetting) (hr : r ∈ RealSetting.checked) : ¬ r.get s < 0.0 := by
    have h := ((Settings.validate_ok_iff s).1 accepted).reals r hr
    rw [Settings.isRefused, Bool.or_eq_false_iff, decide_eq_false_iff_not] at h
    exact h.2
  refine ⟨fun entity metric history current v hv => ?_, fun rules verdicts time hverdicts => ?_,
    fun metric series p hp => Correlation.Correlator.isFinite_of_mem_correlate hp,
    fun entity metric samples made hmade => Capacity.Forecaster.isFinite_of_forecast _ hmade,
    fun fleet limit made hmade => Capacity.FleetForecaster.isFinite_of_mem_mostUrgent _ hmade⟩
  · obtain ⟨hcurrent, hdeviation, hz, hmean⟩ := Detector.isFinite_of_judge hv
    refine ⟨hcurrent, hdeviation, hz, hmean, fun hno => ?_⟩
    obtain ⟨hflat, hzero, hanomalous⟩ := Detector.flat_of_judge hv hno
    have hthreshold : ¬ s.anomaly.detector.threshold < 0.0 := hreal .anomalyThreshold (by decide)
    rw [hanomalous, decide_eq_false_iff_not]
    exact ⟨hflat, hzero, not_abs_zero_gt hthreshold⟩
  · intro scorer
    have hthreshold : ¬ scorer.elevated < 0.0 := hreal .elevatedThreshold (by decide)
    exact ⟨fun entity made hmade => Scorer.isFinite_of_diagnose hthreshold hverdicts hmade,
      fun made hmade => Scorer.isFinite_of_mem_diagnoseFleet hthreshold hverdicts hmade⟩

/-- Five samples, a second apart, whose values have no finite sum. -/
def highHistory : List Sample :=
  [⟨.epoch, 1e308⟩, ⟨⟨1, 0, by decide⟩, 1e308⟩, ⟨⟨2, 0, by decide⟩, 1e308⟩,
    ⟨⟨3, 0, by decide⟩, 1e308⟩, ⟨⟨4, 0, by decide⟩, 1e308⟩]

theorem judge_highHistory :
    ∃ v, Settings.standard.anomaly.detector.judge "web" .cpu highHistory 0.0 = some v ∧
      v.mean.isFinite = false := by
  have hsum : (Binary64.sum (Baseline.windowValues highHistory 30)).isFinite = false := by
    decide +kernel
  have hsome : (Settings.standard.anomaly.detector.judge "web" .cpu highHistory 0.0).isSome = true := by
    decide +kernel
  obtain ⟨v, hv⟩ := Option.isSome_iff_exists.1 hsome
  refine ⟨v, hv, ?_⟩
  rw [← Bool.not_eq_true, (Detector.isFinite_of_judge hv).2.2.2]
  exact Bool.eq_false_iff.1 hsum

theorem finite_results_standard :
    Settings.standard.validate = .ok () ∧
      ∃ v, Settings.standard.anomaly.detector.judge "web" .cpu highHistory 0.0 = some v ∧
        v.current.isFinite ∧ v.deviation = 0.0 ∧ v.zScore = 0.0 ∧ v.isAnomalous = false := by
  obtain ⟨v, hv, hmean⟩ := judge_highHistory
  obtain ⟨hcurrent, _, _, _, hflat⟩ :=
    (finite_results .standard rfl).1 "web" .cpu highHistory 0.0 v hv
  exact ⟨rfl, v, hv, hcurrent, hflat hmean⟩

/-- All samples and the value that is judged are finite, and the mean in the verdict is not. -/
theorem judge_infinite_mean :
    (∀ s ∈ highHistory, s.value.isFinite) ∧
      ∃ v, Settings.standard.anomaly.detector.judge "web" .cpu highHistory 0.0 = some v ∧
        ¬ v.mean.isFinite := by
  obtain ⟨v, hv, hmean⟩ := judge_highHistory
  exact ⟨by decide +kernel, v, hv, Bool.eq_false_iff.1 hmean⟩

end FleetHealth
