import FleetHealth.Proofs.Capacity.Window
import FleetHealth.Settings

/-!
# Forecasts that agree with themselves

Trend, confidence and crossing are decided on the numbers of the fitted line, and a forecast shows these
rounded. Every bound they are decided by is a decimal that rounding leaves alone, so what is shown is on
the side of the bound that was decided on.
-/
namespace FleetHealth.Capacity

open Binary64

/-! ### The line -/

namespace Line

variable (points : List (Float × Float))

theorem isFinite_slope : (through points).slope.isFinite = true := by
  have hzero : (0.0 : Float).isFinite = true := by decide
  rw [through]
  split
  next => exact hzero
  next =>
    simp only [coefficients]
    split
    next => exact hzero
    next =>
      split
      next h => exact (Bool.and_eq_true _ _ ▸ h).1
      next => exact hzero

theorem explained_bounds (slope intercept : Float) :
    (explained points slope intercept).isFinite = true ∧
      0.0 ≤ explained points slope intercept ∧ explained points slope intercept ≤ 1.0 := by
  have hzero : (0.0 : Float).isFinite = true ∧ (0.0 : Float) ≤ 0.0 ∧ (0.0 : Float) ≤ 1.0 := by decide
  simp only [explained]
  split
  next => exact hzero
  next =>
    split
    next h =>
      have hfinite := isFinite_clamp h hzero.1 (by decide : (1.0 : Float).isFinite = true)
      refine ⟨hfinite, (clamp_bounds hzero.2.2 _).resolve_left fun hnan => ?_⟩
      rw [isNaN_eq_false hfinite] at hnan
      cases hnan
    next => exact hzero

theorem fit_bounds : (through points).fit.isFinite = true ∧ 0.0 ≤ (through points).fit ∧
    (through points).fit ≤ 1.0 := by
  rw [through]
  split
  next => decide
  next => exact explained_bounds points _ _

end Line

/-! ### What is decided on it -/

/-- The trend by the slope that it is decided on. -/
theorem Trend.ofSlope_cases {slope : Float} (h : slope.isFinite = true) :
    ofSlope slope = .stable ∧ -0.1 ≤ slope ∧ slope ≤ 0.1 ∨
      ofSlope slope = .increasing ∧ 0.1 ≤ slope ∨ ofSlope slope = .decreasing ∧ slope ≤ -0.1 := by
  have hbound : (0.1 : Float).isFinite = true := by decide
  unfold ofSlope stableSlope
  split
  next hstable => exact .inl ⟨rfl, (abs_le_iff h hbound).1 (le_of_lt hstable)⟩
  next hsteep =>
    have hle := le_of_not_lt (isNaN_abs h) (isNaN_eq_false hbound) hsteep
    have hpos : position 0.0 = 0 ∧ position 0.1 > 0 ∧ position (-0.1) < 0 := by decide
    split
    next hrising =>
      refine .inr (.inl ⟨rfl, ((le_abs_iff h hbound (by decide)).1 hle).resolve_left fun hfall => ?_⟩)
      have := (lt_iff.1 hrising).2.2
      have := (le_iff.1 hfall).2.2
      omega
    next hfalling =>
      refine .inr (.inr ⟨rfl, ((le_abs_iff h hbound (by decide)).1 hle).resolve_right fun hrise => ?_⟩)
      refine hfalling (lt_iff.2 ⟨by decide, isNaN_eq_false h, ?_⟩)
      have := (le_iff.1 hrise).2.2
      omega

theorem Confidence.ofFit_cases (fit : Float) (n : Nat) :
    ofFit fit n = .high ∧ 20 < n ∧ 0.7 ≤ fit ∨ ofFit fit n = .medium ∧ 10 < n ∧ 0.4 ≤ fit ∨
      ofFit fit n = .low := by
  unfold ofFit
  split
  next h => exact .inl ⟨rfl, h.2, le_of_lt h.1⟩
  next =>
    split
    next h => exact .inr (.inl ⟨rfl, h.2, le_of_lt h.1⟩)
    next => exact .inr (.inr rfl)

/-- The slope that is shown, in ten-thousandths, bears out the trend. -/
theorem Trend.roundTo_slope {slope : Float} (h : slope.isFinite = true) :
    (ofSlope slope = .increasing → 0.1 ≤ roundTo slope 4) ∧
      (ofSlope slope = .decreasing → roundTo slope 4 ≤ -0.1) ∧
      (ofSlope slope = .stable → (roundTo slope 4).abs ≤ 0.1) := by
  have hup : IsDecimal 4 0.1 := by decide +kernel
  have hdown : IsDecimal 4 (-0.1) := by decide +kernel
  rcases ofSlope_cases h with ⟨ht, hlow, hhigh⟩ | ⟨ht, hrise⟩ | ⟨ht, hfall⟩
  · have hfinite := isFinite_roundTo slope hup.few.1 hup.few.2
    simpa [ht] using (abs_le_iff hfinite hup.finite).2
      ⟨hdown.le_roundTo h hlow, hup.roundTo_le h hhigh⟩
  · simpa [ht] using hup.le_roundTo h hrise
  · simpa [ht] using hdown.roundTo_le h hfall

/-- The fit that is shown, in thousandths, bears out the confidence. -/
theorem Confidence.roundTo_fit {fit : Float} (h : fit.isFinite = true) (n : Nat) :
    (ofFit fit n = .high → 20 < n ∧ 0.7 ≤ roundTo fit 3) ∧
      (ofFit fit n = .medium → 10 < n ∧ 0.4 ≤ roundTo fit 3) := by
  have hsure : IsDecimal 3 0.7 := by decide +kernel
  have hlikely : IsDecimal 3 0.4 := by decide +kernel
  rcases ofFit_cases fit n with ⟨hc, hn, hle⟩ | ⟨hc, hn, hle⟩ | hc
  · simpa [hc] using ⟨hn, hsure.le_roundTo h hle⟩
  · simpa [hc] using ⟨hn, hlikely.le_roundTo h hle⟩
  · simp [hc]

/-- What the parts of a forecast say of each other, for the samples that it was made from. -/
structure Forecast.IsConsistent (f : Forecaster) (samples : List Sample) (made : Forecast) : Prop where
  fit : 0.0 ≤ made.fit ∧ made.fit ≤ 1.0
  crossing : ∀ hours ∈ made.hoursToThreshold, made.current < f.threshold ∧ 0.0 < hours ∧
    hours ≤ f.maxHoursToThreshold ∧ 0.0 ≤ made.slope ∧ made.trend ≠ .decreasing
  increasing : made.trend = .increasing → 0.1 ≤ made.slope
  decreasing : made.trend = .decreasing → made.slope ≤ -0.1
  stable : made.trend = .stable → made.slope.abs ≤ 0.1
  high : made.confidence = .high → 20 < (f.window samples).length ∧ 0.7 ≤ made.fit
  medium : made.confidence = .medium → 10 < (f.window samples).length ∧ 0.4 ≤ made.fit
  current : (Series.newest (Series.finite samples)).getLast?.map Sample.value = some made.current

namespace Forecaster

variable {f : Forecaster} {entity : String} {metric : Metric} {samples : List Sample}

/-- A crossing is told only of a line that rises, which rounding does not turn. -/
theorem of_crossing {current slope hours : Float} (hthreshold : f.threshold.isFinite = true)
    (hcurrent : current.isFinite = true) (hslope : slope.isFinite = true)
    (h : hours ∈ f.hoursToThreshold current slope) :
    current < f.threshold ∧ 0.0 < hours ∧ hours ≤ f.maxHoursToThreshold ∧ 0.0 ≤ roundTo slope 4 ∧
      Trend.ofSlope slope ≠ .decreasing := by
  obtain ⟨hrising, hbelow, hpos, hmax, _⟩ := of_mem_hoursToThreshold h
  have hzero : IsDecimal 4 0.0 := by decide +kernel
  have hup : 0.0 < slope :=
    lt_of_not_le (isNaN_eq_false hslope) (isNaN_eq_false hzero.finite) hrising
  refine ⟨lt_of_not_le (isNaN_eq_false hthreshold) (isNaN_eq_false hcurrent) hbelow, hpos, hmax,
    hzero.le_roundTo hslope (le_of_lt hup), fun hdown => ?_⟩
  rcases Trend.ofSlope_cases hslope with ⟨ht, _⟩ | ⟨ht, _⟩ | ⟨_, hfall⟩
  · cases hdown.symm.trans ht
  · cases hdown.symm.trans ht
  · have hbounds : position 0.0 = 0 ∧ position (-0.1) < 0 := by decide
    have := (lt_iff.1 hup).2.2
    have := (le_iff.1 hfall).2.2
    omega

theorem isConsistent_of_forecast {made : Forecast} (hthreshold : f.threshold.isFinite = true)
    (h : f.forecast entity metric samples = some made) : made.IsConsistent f samples := by
  have hcurrent := current_newest h
  obtain ⟨last, lastX, hlast, rfl⟩ := exists_of_forecast h
  have hlastFinite := f.isFinite_of_mem_window (List.mem_of_getLast? hlast)
  have hslope := Line.isFinite_slope (Line.hours Sample.value (f.window samples))
  obtain ⟨hfit, hlow, hhigh⟩ := Line.fit_bounds (Line.hours Sample.value (f.window samples))
  have hzero : IsDecimal 3 0.0 := by decide +kernel
  have hone : IsDecimal 3 1.0 := by decide +kernel
  obtain ⟨hincreasing, hdecreasing, hstable⟩ := Trend.roundTo_slope hslope
  obtain ⟨hsure, hmedium⟩ := Confidence.roundTo_fit hfit (f.window samples).length
  exact {
    fit := ⟨hzero.le_roundTo hfit hlow, hone.roundTo_le hfit hhigh⟩
    crossing := fun hours hh => of_crossing hthreshold hlastFinite hslope hh
    increasing := hincreasing
    decreasing := hdecreasing
    stable := hstable
    high := hsure
    medium := hmedium
    current := hcurrent }

/-- With accepted settings a forecast agrees with itself, in what it shows and not only in what it was
decided on. -/
theorem forecast_consistent (s : Settings) (accepted : s.validate = .ok ()) (entity : String)
    (metric : Metric) (samples : List Sample) (made : Forecast)
    (hmade : s.forecast.forecaster.forecast entity metric samples = some made) :
    made.IsConsistent s.forecast.forecaster samples := by
  have hchecked := ((Settings.validate_ok_iff s).1 accepted).reals .forecastThreshold (by decide)
  rw [Settings.isRefused, Bool.or_eq_false_iff, Bool.not_eq_false'] at hchecked
  exact isConsistent_of_forecast hchecked.1 hmade

theorem forecast_consistent_fiveHours :
    Settings.standard.validate = .ok () ∧ ∃ made,
      Settings.standard.forecast.forecaster.forecast "web" .cpu FleetForecaster.fiveHours = some made ∧
        made.IsConsistent Settings.standard.forecast.forecaster FleetForecaster.fiveHours := by
  have hsome : (Settings.standard.forecast.forecaster.forecast "web" .cpu
      FleetForecaster.fiveHours).isSome := by decide +kernel
  obtain ⟨made, hmade⟩ := Option.isSome_iff_exists.1 hsome
  exact ⟨rfl, made, hmade, forecast_consistent .standard rfl "web" .cpu _ made hmade⟩

end Forecaster

end FleetHealth.Capacity
