import FleetHealth.Proofs.Capacity.Thinning
import FleetHealth.Proofs.Index
import FleetHealth.Proofs.Series
import FleetHealth.Settings
import Mathlib.Data.Option.Basic

/-!
# Who gets a forecast

A forecast is made where enough finite samples lie within the lookback of the newest of them. A fleet
forecast counts what thinning left of these. As long as the newest is left, a long series can lose its
forecast by that but never gain one, and its current value is that of the whole series.
-/
namespace FleetHealth.Capacity

namespace Forecaster

variable (f : Forecaster) {samples : List Sample}

/-- The instant before which samples are left out, where the lookback stays in the calendar. -/
def cutoff? (samples : List Sample) : Option Instant :=
  (Series.finite samples).getLast?.bind fun newest => before? newest.time f.lookbackHours

/-- Whether a sample counts in a forecast of the series: finite, and recent among its samples. -/
def counts (samples : List Sample) (s : Sample) : Bool :=
  Series.isFinite s && (f.cutoff? samples).all fun cutoff => decide (cutoff ≤ s.time)

theorem window_eq (samples : List Sample) :
    f.window samples = match (ordered samples).getLast?.bind fun newest =>
        before? newest.time f.lookbackHours with
      | none => ordered samples
      | some cutoff => Series.since cutoff (ordered samples) := by
  simp only [window]
  rcases (ordered samples).getLast? with _ | newest
  · rfl
  · rfl

/-- A series that shows no disorder is left as it is, and sorting would leave it so too. -/
theorem ordered_eq (samples : List Sample) :
    ordered samples = Series.sortByTime (Series.finite samples) := by
  simp only [ordered]
  split
  next h => exact (Series.sortByTime_of_ascending (Series.ascending_of_isSorted h)).symm
  next => rfl

theorem ordered_perm (samples : List Sample) : (ordered samples).Perm (Series.finite samples) :=
  ordered_eq samples ▸ Series.sortByTime_perm _

theorem ordered_ascending (samples : List Sample) :
    (ordered samples).Pairwise fun a b => a.time ≤ b.time :=
  ordered_eq samples ▸ Series.sortByTime_ascending _

theorem getLast?_ordered (samples : List Sample) :
    (ordered samples).getLast? = (Series.newest (Series.finite samples)).getLast? := by
  rw [ordered_eq, ← Series.newest_sortByTime, Series.getLast?_newest (Series.sortByTime_ascending _)]

theorem window_sublist (samples : List Sample) :
    (f.window samples).Sublist (ordered samples) := by
  rw [window_eq]
  split
  next => exact .refl _
  next => exact List.filter_sublist

theorem length_window_le (samples : List Sample) : (f.window samples).length ≤ samples.length :=
  calc (f.window samples).length ≤ (ordered samples).length := (f.window_sublist samples).length_le
    _ = (Series.finite samples).length := (ordered_perm samples).length_eq
    _ ≤ samples.length := List.length_filter_le ..

theorem isFinite_of_mem_window {s : Sample} (h : s ∈ f.window samples) : s.value.isFinite = true :=
  (List.mem_filter.1 ((ordered_perm samples).mem_iff.1 ((f.window_sublist samples).subset h))).2

theorem ordered_of_ascending (h : samples.Pairwise fun a b => a.time ≤ b.time) :
    ordered samples = Series.finite samples :=
  (ordered_eq samples).trans (Series.sortByTime_of_ascending (h.sublist List.filter_sublist))

theorem window_of_ascending (h : samples.Pairwise fun a b => a.time ≤ b.time) :
    f.window samples = samples.filter (f.counts samples) := by
  rw [window_eq, ordered_of_ascending h]
  unfold counts cutoff? Series.finite Series.since
  split
  next hc => simp only [hc, Option.all_none, Bool.and_true]
  next hc => simp only [hc, List.filter_filter, Option.all_some, Bool.and_comm]

theorem window_ascending (samples : List Sample) :
    (f.window samples).Pairwise fun a b => a.time ≤ b.time :=
  (ordered_ascending samples).sublist (f.window_sublist samples)

theorem getLast?_window (hne : f.window samples ≠ []) :
    (f.window samples).getLast? = (ordered samples).getLast? := by
  rw [window_eq] at hne ⊢
  split at hne
  next => rfl
  next => exact Series.getLast?_since (ordered_ascending samples) hne

variable {f} {entity : String} {metric : Metric}

theorem forecast_isSome_iff (hf : 0 < f.minSamples) :
    (f.forecast entity metric samples).isSome ↔ f.minSamples ≤ (f.window samples).length := by
  simp only [forecast]
  split
  next h => simp [h]
  next h =>
    have hne : f.window samples ≠ [] := fun he => by simp [he] at h; omega
    rw [Option.isSome_map, List.getLast?_isSome]
    exact iff_of_true hne (Nat.not_lt.1 h)

theorem forecast_isSome_of_ascending (hf : 0 < f.minSamples)
    (hasc : samples.Pairwise fun a b => a.time ≤ b.time) :
    (f.forecast entity metric samples).isSome ↔
      f.minSamples ≤ (samples.filter (f.counts samples)).length := by
  rw [forecast_isSome_iff hf, f.window_of_ascending hasc]

/-- What a forecast holds: the line fitted to the window, and what is told of it. -/
theorem exists_of_forecast {made : Forecast} (h : f.forecast entity metric samples = some made) :
    let window := f.window samples
    let line := Line.through (Line.hours Sample.value window)
    ∃ last lastX, window.getLast? = some last ∧
      made = ⟨entity, none, metric, last.value, Trend.ofSlope line.slope,
        Binary64.roundTo line.slope 4, Binary64.roundTo line.fit 3,
        f.points metric window line last.time lastX, f.hoursToThreshold last.value line.slope,
        Confidence.ofFit line.fit window.length⟩ := by
  simp only [forecast] at h
  split at h
  next => cases h
  next =>
    obtain ⟨last, hl, rfl⟩ := Option.map_eq_some_iff.1 h
    exact ⟨last, _, hl, rfl⟩

theorem of_forecast {made : Forecast} (h : f.forecast entity metric samples = some made) :
    made.entity = entity ∧ made.metric = metric ∧
      (f.window samples).getLast?.map Sample.value = some made.current := by
  obtain ⟨last, _, hl, rfl⟩ := exists_of_forecast h
  exact ⟨rfl, rfl, by rw [hl]; rfl⟩

/-- A crossing is told of a rising line below the threshold, where it is neither now nor too far off. -/
theorem of_mem_hoursToThreshold {current slope hours : Float}
    (h : hours ∈ f.hoursToThreshold current slope) :
    ¬ slope ≤ 0.0 ∧ ¬ current ≥ f.threshold ∧ 0.0 < hours ∧ hours ≤ f.maxHoursToThreshold ∧
      ((f.threshold - current) / slope).isFinite = true ∧
      hours = Binary64.roundTo ((f.threshold - current) / slope) 1 := by
  simp only [hoursToThreshold, Option.mem_def] at h
  split at h
  next => cases h
  next hrising =>
    obtain ⟨hslope, hcurrent⟩ := not_or.1 hrising
    split at h
    next hfinite =>
      split at h
      next hrange =>
        cases h
        exact ⟨hslope, hcurrent, hrange.1, hrange.2, hfinite, rfl⟩
      next => cases h
    next => cases h

theorem ne_nil_of_forecast {made : Forecast} (h : f.forecast entity metric samples = some made) :
    samples ≠ [] := by
  rintro rfl
  have hw : f.window [] = [] := List.eq_nil_of_length_eq_zero (Nat.le_zero.1 (f.length_window_le []))
  have hl := (of_forecast h).2.2
  rw [hw] at hl
  cases hl

/-- The current value of a forecast is that of the newest finite sample, of several the last given. -/
theorem current_newest {made : Forecast} (h : f.forecast entity metric samples = some made) :
    (Series.newest (Series.finite samples)).getLast?.map Sample.value = some made.current := by
  obtain ⟨_, _, hc⟩ := of_forecast h
  have hne : f.window samples ≠ [] := fun he => by simp [he] at hc
  rwa [f.getLast?_window hne, getLast?_ordered] at hc

theorem current_eq {made : Forecast} (hasc : samples.Pairwise fun a b => a.time ≤ b.time)
    (h : f.forecast entity metric samples = some made) :
    (Series.finite samples).getLast?.map Sample.value = some made.current := by
  have hnewest : (Series.newest (Series.finite samples)).getLast? = (Series.finite samples).getLast? :=
    Series.getLast?_newest (hasc.sublist List.filter_sublist)
  rw [← hnewest, current_newest h]

end Forecaster

/-- The series of a metric in the records of a fleet. -/
def stored (fleet : Index String EntityRecord) (entity : String) (metric : Metric) : List Sample :=
  ((fleet.get? entity).bind fun record => record.series.get? metric).getD []

namespace FleetForecaster

variable (f : FleetForecaster) {fleet : Index String EntityRecord} {entity : String}
  {metric : Metric}

theorem candidate?_eq_some_iff {record : EntityRecord} {c : Forecast} :
    f.candidate? entity record metric = some c ↔ ∃ samples made,
      record.series.get? metric = some samples ∧ f.forecaster.minSamples ≤ samples.length ∧
      f.forecaster.forecast entity metric (thin samples f.maxPoints) = some made ∧
      c = { made with displayName := record.displayName } := by
  unfold candidate?
  simp only [Option.bind_eq_bind, Option.bind_eq_some_iff, Option.guard_eq_some', Option.pure_def,
    Option.some.injEq]
  constructor
  · rintro ⟨samples, hs, _, hlen, made, hm, rfl⟩
    exact ⟨samples, made, hs, hlen, hm, rfl⟩
  · rintro ⟨samples, made, hs, hlen, hm, rfl⟩
    exact ⟨samples, hs, (), hlen, made, hm, rfl⟩

theorem key_of_candidate? {record : EntityRecord} {c : Forecast}
    (h : f.candidate? entity record metric = some c) : c.entity = entity ∧ c.metric = metric := by
  obtain ⟨samples, made, _, _, hm, rfl⟩ := f.candidate?_eq_some_iff.1 h
  obtain ⟨he, hk, _⟩ := Forecaster.of_forecast hm
  exact ⟨he, hk⟩

theorem mem_candidates {c : Forecast} : c ∈ f.candidates fleet ↔
    ∃ record, fleet.get? c.entity = some record ∧ c.metric ∈ f.tracked ∧
      f.candidate? c.entity record c.metric = some c := by
  unfold candidates
  simp only [List.mem_flatMap, List.mem_filterMap]
  constructor
  · rintro ⟨⟨entity, record⟩, hm, metric, ht, hc⟩
    obtain ⟨rfl, rfl⟩ := f.key_of_candidate? hc
    exact ⟨record, (fleet.get?_eq_some_iff ..).2 hm, ht, hc⟩
  · rintro ⟨record, hg, ht, hc⟩
    exact ⟨(c.entity, record), (fleet.get?_eq_some_iff ..).1 hg, c.metric, ht, hc⟩

/-- With room for all candidates, the forecasts of one series are those of what thinning leaves. -/
theorem mem_mostUrgent_iff {limit : Nat} (hlimit : (f.candidates fleet).length ≤ limit)
    (hmin : 0 < f.forecaster.minSamples) (ht : metric ∈ f.tracked) (c : Forecast) :
    (c ∈ f.mostUrgent fleet limit ∧ c.entity = entity ∧ c.metric = metric) ↔
      ∃ made, f.forecaster.forecast entity metric (thin (stored fleet entity metric) f.maxPoints) =
          some made ∧
        c = { made with displayName := (fleet.get? entity).bind EntityRecord.displayName } := by
  have hperm : (f.mostUrgent fleet limit).Perm (f.candidates fleet) := by
    unfold mostUrgent Forecast.rank
    rw [List.take_of_length_le (by rwa [List.length_mergeSort])]
    exact List.mergeSort_perm ..
  rw [hperm.mem_iff, mem_candidates]
  constructor
  · rintro ⟨⟨record, hg, _, hc⟩, rfl, rfl⟩
    obtain ⟨samples, made, hs, _, hm, hmade⟩ := f.candidate?_eq_some_iff.1 hc
    have hstored : stored fleet c.entity c.metric = samples := by simp [stored, hg, hs]
    exact ⟨made, by rw [hstored, hm], by rw [hg]; exact hmade⟩
  · rintro ⟨made, hm, rfl⟩
    obtain ⟨rfl, rfl, _⟩ := Forecaster.of_forecast hm
    -- a series with a forecast is there, and long enough before it is thinned
    have hlen : f.forecaster.minSamples ≤ (stored fleet made.entity made.metric).length :=
      Nat.le_trans ((Forecaster.forecast_isSome_iff hmin).1 (Option.isSome_of_eq_some hm))
        (Nat.le_trans (f.forecaster.length_window_le _) (thin_sublist _ _).length_le)
    unfold stored at hm hlen
    rcases hg : fleet.get? made.entity with _ | record
    · simp [hg] at hlen
      omega
    · rcases hs : record.series.get? made.metric with _ | samples
      · simp [hg, hs] at hlen
        omega
      · simp only [hg, hs, Option.bind_some, Option.getD_some] at hm hlen
        exact ⟨⟨record, rfl, ht, f.candidate?_eq_some_iff.2 ⟨samples, made, hs, hlen, hm, rfl⟩⟩,
          rfl, rfl⟩

/-- With room for all candidates, a series is told of exactly where what thinning leaves of it has a
forecast. -/
theorem exists_mostUrgent_iff {limit : Nat} (hlimit : (f.candidates fleet).length ≤ limit)
    (hmin : 0 < f.forecaster.minSamples) (ht : metric ∈ f.tracked) :
    (∃ c ∈ f.mostUrgent fleet limit, c.entity = entity ∧ c.metric = metric) ↔
      (f.forecaster.forecast entity metric (thin (stored fleet entity metric) f.maxPoints)).isSome := by
  rw [Option.isSome_iff_exists]
  constructor
  · rintro ⟨c, hc⟩
    obtain ⟨made, hm, _⟩ := (f.mem_mostUrgent_iff hlimit hmin ht c).1 hc
    exact ⟨made, hm⟩
  · rintro ⟨made, hm⟩
    exact ⟨_, (f.mem_mostUrgent_iff hlimit hmin ht _).2 ⟨made, hm, rfl⟩⟩

/-- What fleet forecasts count of a series is what thinning leaves of it, less the samples that a
forecast of the whole series does not count. -/
theorem forecast_thin_isSome_iff {samples : List Sample}
    (hasc : samples.Pairwise fun a b => a.time ≤ b.time) (hkept : KeepsNewest samples f.maxPoints)
    (hmin : 0 < f.forecaster.minSamples) :
    (f.forecaster.forecast entity metric (thin samples f.maxPoints)).isSome ↔
      f.forecaster.minSamples ≤
        ((thin samples f.maxPoints).filter (f.forecaster.counts samples)).length := by
  have hcounts : f.forecaster.counts (thin samples f.maxPoints) = f.forecaster.counts samples := by
    unfold Forecaster.counts Forecaster.cutoff?
    rw [hkept]
  rw [Forecaster.forecast_isSome_of_ascending hmin (hasc.sublist (thin_sublist ..)), hcounts]

/-- A series that is thinned has the forecast of what is left only if it has one as a whole, and then
both tell of the same current value. -/
theorem current_thin {samples : List Sample} (hasc : samples.Pairwise fun a b => a.time ≤ b.time)
    (hkept : KeepsNewest samples f.maxPoints) (hmin : 0 < f.forecaster.minSamples) {made : Forecast}
    (h : f.forecaster.forecast entity metric (thin samples f.maxPoints) = some made) :
    (f.forecaster.forecast entity metric samples).map Forecast.current = some made.current := by
  have hthin := (f.forecast_thin_isSome_iff hasc hkept hmin).1 (Option.isSome_of_eq_some h)
  have hsome : (f.forecaster.forecast entity metric samples).isSome :=
    (Forecaster.forecast_isSome_of_ascending hmin hasc).2
      (Nat.le_trans hthin ((thin_sublist ..).filter _).length_le)
  obtain ⟨whole, hwhole⟩ := Option.isSome_iff_exists.1 hsome
  rw [hwhole, Option.map_some, ← Forecaster.current_eq hasc hwhole, ← hkept,
    Forecaster.current_eq (hasc.sublist (thin_sublist ..)) h]

/-- A series in time order has a forecast exactly where enough of its finite samples are within the
lookback of the newest of them. With room for all, a fleet forecast tells of it exactly where thinning
leaves enough of these, provided that the newest is left; then the whole series has a forecast too, with
the same current value. A series that is not thinned is told of exactly where it has a forecast. The
newest finite sample is left of every series that is not thinned, or that ends in it. -/
theorem mostUrgent_thinned (settings : ForecastSettings) (fleet : Index String EntityRecord)
    (limit : Nat) (entity : String) (metric : Metric)
    (hlimit : (settings.fleetForecaster.candidates fleet).length ≤ limit)
    (htracked : metric ∈ settings.tracked)
    (hasc : (stored fleet entity metric).Pairwise fun a b => a.time ≤ b.time) :
    let f := settings.fleetForecaster
    let series := stored fleet entity metric
    let whole := f.forecaster.forecast entity metric series
    let counts := f.forecaster.counts series
    let told := (f.mostUrgent fleet limit).filter fun c => c.entity = entity ∧ c.metric = metric
    (whole.isSome ↔ f.forecaster.minSamples ≤ (series.filter counts).length) ∧
      (KeepsNewest series f.maxPoints →
        (told ≠ [] ↔ f.forecaster.minSamples ≤ ((thin series f.maxPoints).filter counts).length) ∧
        ∀ c ∈ told, whole.map Forecast.current = some c.current) ∧
      (series.length ≤ f.maxPoints → (told ≠ [] ↔ whole.isSome)) ∧
      (series.length ≤ f.maxPoints ∨
          (∃ last, series.getLast? = some last ∧ last.value.isFinite) →
        KeepsNewest series f.maxPoints) := by
  intro f series whole counts told
  have hmin : 0 < f.forecaster.minSamples := Nat.lt_of_lt_of_le Nat.zero_lt_two (Nat.le_max_right ..)
  have htold : told ≠ [] ↔
      (f.forecaster.forecast entity metric (thin series f.maxPoints)).isSome := by
    rw [← f.exists_mostUrgent_iff hlimit hmin htracked, Ne, List.filter_eq_nil_iff]
    simp only [decide_eq_true_eq, not_forall, not_not, exists_prop]
  refine ⟨?_, fun hkept => ⟨?_, fun c hc => ?_⟩, fun hle => ?_, fun h => ?_⟩
  · exact Forecaster.forecast_isSome_of_ascending hmin hasc
  · rw [htold, f.forecast_thin_isSome_iff hasc hkept hmin]
  · rw [List.mem_filter, decide_eq_true_iff] at hc
    obtain ⟨made, hm, rfl⟩ := (f.mem_mostUrgent_iff hlimit hmin htracked c).1 hc
    exact (f.current_thin hasc hkept hmin hm :)
  · rw [htold, thin_of_length_le hle]
  · rcases h with hle | ⟨last, hlast, hfinite⟩
    · exact keepsNewest_of_length_le hle
    · exact keepsNewest_of_isFinite hlast hfinite _

/-- Forecast settings with room for six samples. -/
def sixPoints : ForecastSettings := { ForecastSettings.standard with maxPoints := 6 }

/-- Twelve hours with a rise over the first nine. -/
def halfDay (newest : List Float) : List Sample :=
  ([10.0, 12.0, 14.0, 16.0, 18.0, 20.0, 22.0, 24.0, 26.0] ++ newest).mapIdx fun i v =>
    ⟨(Instant.ofMillis? (3600000 * i)).get!, v⟩

/-- Two series to be thinned, the second of them without a number at its end. -/
def halfDays : Index String EntityRecord :=
  Index.empty.insert "web" ⟨none, (Index.empty.insert .cpu (halfDay [28.0, 30.0, 32.0])).insert .memory
    (halfDay [Binary64.nan, Binary64.nan, Binary64.nan])⟩

theorem mostUrgent_thinned_halfDays :
    let f := sixPoints.fleetForecaster
    let series (metric : Metric) := stored halfDays "web" metric
    let whole (metric : Metric) := f.forecaster.forecast "web" metric (series metric)
    let told (metric : Metric) := (f.mostUrgent halfDays 2).filter fun c =>
      c.entity = "web" ∧ c.metric = metric
    ((thin (series .cpu) 6).length < (series .cpu).length ∧ told .cpu ≠ [] ∧
        ∀ c ∈ told .cpu, (whole .cpu).map Forecast.current = some c.current) ∧
      (thin (series .memory) 6).length < (series .memory).length ∧ told .memory ≠ [] ∧
        ∀ c ∈ told .memory, (whole .memory).map Forecast.current = some c.current := by
  intro f series whole told
  obtain ⟨_, htold, _, hends⟩ := mostUrgent_thinned sixPoints halfDays 2 "web" .cpu
    (by decide +kernel) (by decide) (by decide +kernel)
  obtain ⟨htold, hcurrent⟩ := htold (hends (.inr ⟨_, rfl, by decide +kernel⟩))
  obtain ⟨_, htold', _, _⟩ := mostUrgent_thinned sixPoints halfDays 2 "web" .memory
    (by decide +kernel) (by decide) (by decide +kernel)
  have hdistinct : Function.Injective fun s : Sample => (s.time, s.value) := by
    rintro ⟨_, _⟩ ⟨_, _⟩ h
    cases h
    rfl
  have hkept : KeepsNewest (series .memory) f.maxPoints :=
    Option.map_injective hdistinct (by decide +kernel)
  obtain ⟨htold', hcurrent'⟩ := htold' hkept
  exact ⟨⟨by decide +kernel, htold.2 (by decide +kernel), hcurrent⟩, by decide +kernel,
    htold'.2 (by decide +kernel), hcurrent'⟩

/-- Forecast settings with room for two samples only. -/
def twoPoints : ForecastSettings := { ForecastSettings.standard with maxPoints := 2 }

/-- A rise over five hours. -/
def fiveHours : List Sample :=
  [⟨.epoch, 10.0⟩, ⟨⟨3600, 0, by decide⟩, 20.0⟩, ⟨⟨7200, 0, by decide⟩, 30.0⟩,
    ⟨⟨10800, 0, by decide⟩, 40.0⟩, ⟨⟨14400, 0, by decide⟩, 50.0⟩]

def oneSeries : Index String EntityRecord :=
  Index.empty.insert "web" ⟨none, Index.empty.insert .cpu fiveHours⟩

/-- Settings pass the check with room for two samples and five wanted, and then a series with a
forecast is not told of. -/
theorem mostUrgent_twoPoints :
    ({ Settings.standard with forecast := twoPoints } : Settings).validate = .ok () ∧
      (fiveHours.Pairwise fun a b => a.time ≤ b.time) ∧
      oneSeries.size * twoPoints.tracked.length ≤ 2 ∧ .cpu ∈ twoPoints.tracked ∧
      stored oneSeries "web" .cpu = fiveHours ∧
      (twoPoints.forecaster.forecast "web" .cpu fiveHours).isSome ∧
      twoPoints.fleetForecaster.mostUrgent oneSeries 2 = [] := by
  have hnone : twoPoints.fleetForecaster.candidates oneSeries = [] := rfl
  refine ⟨rfl, by decide +kernel, by decide +kernel, by decide, rfl, rfl, ?_⟩
  rw [mostUrgent, hnone, Forecast.rank, List.mergeSort_nil, List.take_nil]

end FleetForecaster

end FleetHealth.Capacity
