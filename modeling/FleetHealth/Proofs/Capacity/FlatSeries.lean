import FleetHealth.Proofs.Binary64.Ranks
import FleetHealth.Proofs.Capacity.Consistency
import FleetHealth.Proofs.Capacity.Crossing
import FleetHealth.Proofs.Capacity.Drift
import FleetHealth.Proofs.Words

/-!
# Forecasts of one value

A series that holds one value over and over has a flat forecast where nothing is rounded on the way to the
slope, or there is no sum of the values. Elsewhere rounding tilts the line, and every decision of the
forecast has a bound of its own on how far: the trend and the slope that is shown a tenth and half of the
last place, the part explained what counts as variation, the crossing the distance of the threshold.
-/
namespace FleetHealth.Capacity

open Binary64

/-! ### Hours -/

namespace Line

variable {samples : List Sample} {v : Float}

/-- Hours are finite, and no milliseconds but none make less than a small part of one. -/
theorem isFinite_hoursSince (first time : Instant) :
    (hoursSince first time : Float).isFinite = true ∧
      Coarse (-22) |real (hoursSince first time : Float)| := by
  have heq : (hoursSince first time : Float) =
    Float.ofInt (time.millisSince first) / Float.ofNat 3600000 := rfl
  obtain ⟨hfinite, hmillis⟩ := nearest_ofInt (n := time.millisSince first) (by
    have hfits := time.millisSince_fits first
    rw [FitsWord] at hfits
    omega)
  obtain ⟨hnan, hone⟩ := ofNat_bounds (n := 3600000) (by norm_num)
  obtain ⟨hunit, _⟩ := ofNat_exact (n := 3600000) (by norm_num)
  have hhour := div_isFinite hfinite hnan hone
  have hnearest := nearest_div hfinite hunit (by rw [real_ofNat (by norm_num)]; norm_num)
  rw [real_ofNat (by norm_num)] at hnearest
  rw [heq]
  refine ⟨hhour, ?_⟩
  by_cases hzero : time.millisSince first = 0
  · have hnothing : IsZero (Float.ofInt 0) := by unfold IsZero; decide
    rw [← hzero] at hnothing
    exact .inl (by rw [isZero_iff.1 (hnothing.div hhour), abs_zero])
  · have hone : (1 : ℝ) ≤ |(time.millisSince first : ℝ)| := by exact_mod_cast Int.one_le_abs hzero
    have hge := hmillis.two_zpow_le (e := 0) hfinite (by norm_num) (by rwa [zpow_zero])
    rw [zpow_zero] at hge
    refine .inr (hnearest.two_zpow_le hhour (by norm_num) ?_)
    have hleast : (2 : ℝ) ^ (-22 : ℤ) ≤ 1 / 3600000 := by norm_num
    rw [abs_div, Nat.abs_cast]
    exact hleast.trans (by push_cast; gcongr)

theorem hoursSince_self (t : Instant) : (hoursSince t t : Float) = 0.0 := by
  rw [hoursSince, Instant.millisSince_self]
  decide

theorem length_hours (read : Sample → Float) (samples : List Sample) :
    (hours read samples).length = samples.length := by
  cases samples with
  | nil => rfl
  | cons first rest => exact List.length_map _

theorem hours_snd (read : Sample → Float) (samples : List Sample) :
    (hours read samples).map (·.2) = samples.map read := by
  cases samples with
  | nil => rfl
  | cons first rest => simp only [hours, List.map_map, Function.comp_def]

theorem snd_of_mem_hours (hv : ∀ s ∈ samples, s.value = v) :
    ∀ p ∈ hours Sample.value samples, p.2 = v := by
  intro p hp
  have hmem : p.2 ∈ (hours Sample.value samples).map (·.2) := List.mem_map_of_mem hp
  rw [hours_snd] at hmem
  obtain ⟨s, hs, heq⟩ := List.mem_map.1 hmem
  rw [← heq, hv s hs]

theorem areHours_hours (read : Sample → Float) (samples : List Sample) :
    AreHours (hours read samples) := by
  cases samples with
  | nil => exact ⟨by simp [hours], by simp [hours], by simp [hours]⟩
  | cons first rest =>
    refine ⟨fun p hp => ?_, fun p hp => ?_, fun p hp => ?_⟩
    · obtain ⟨s, _, rfl⟩ := List.mem_map.1 hp
      exact (isFinite_hoursSince first.time s.time).1
    · obtain ⟨s, _, rfl⟩ := List.mem_map.1 hp
      exact (isFinite_hoursSince first.time s.time).2
    · simp only [hours, List.map_cons, List.head?_cons, Option.mem_def, Option.some.injEq] at hp
      rw [← hp, hoursSince_self, real_zero]

theorem drift_of_times (htimes : ∀ s ∈ samples, ∀ u ∈ samples, s.time = u.time) (v : Float) :
    drift (hours Sample.value samples) v = 0 := by
  have hzero : ∀ t ∈ (hours Sample.value samples).map fun p => |real p.1|, t = 0 := by
    cases samples with
    | nil => simp [hours]
    | cons first rest =>
      rw [List.forall_mem_map]
      intro p hp
      obtain ⟨s, hs, rfl⟩ := List.mem_map.1 hp
      simp only [htimes s hs first List.mem_cons_self, hoursSince_self, real_zero, abs_zero]
  rw [drift, List.sum_eq_zero hzero, mul_zero, zero_mul, zero_div]

end Line

/-! ### What is decided on the slope -/

variable {slope : Float}

/-- A slope this small is shown as zero. -/
theorem roundTo_eq_zero_of_lt (hfinite : slope.isFinite = true) (h : |real slope| < 2 ^ (-15 : ℤ)) :
    roundTo slope 4 = 0.0 := by
  have hsign : sign 0.000030517578125 = .positive := rfl
  have hbits : magnitudeBits 0.000030517578125 = 1007 * 2 ^ 52 + 2 ^ 52 := by decide
  have hbound : slope.abs ≤ 0.000030517578125 := by
    rw [le_iff_real_le (isFinite_abs hfinite) (by decide), real_abs hfinite, real_of_sign hsign, hbits,
      value_two_zpow (e := -15) (by norm_num)]
    exact h.le
  obtain ⟨hlow, hhigh⟩ := (abs_le_iff hfinite (by decide)).1 hbound
  have hbelow : roundTo (-0.000030517578125) 4 ≤ roundTo slope 4 :=
    roundTo_mono (by norm_num) (by norm_num) (by decide) hfinite hlow
  have habove : roundTo slope 4 ≤ roundTo 0.000030517578125 4 :=
    roundTo_mono (by norm_num) (by norm_num) hfinite (by decide) hhigh
  rw [show roundTo (-0.000030517578125) 4 = 0.0 by decide +kernel] at hbelow
  rw [show roundTo 0.000030517578125 4 = 0.0 by decide +kernel] at habove
  have hposition : position 0.0 = 0 := by decide
  have hlow := (le_iff.1 hbelow).2.2
  have hhigh := (le_iff.1 habove).2.2
  exact roundTo_eq_zero (by norm_num) le_rfl (by omega)

/-- A slope that is shown as zero is stable. -/
theorem Trend.ofSlope_of_roundTo (hfinite : slope.isFinite = true) (h : roundTo slope 4 = 0.0) :
    ofSlope slope = .stable := by
  obtain ⟨hrise, hfall, _⟩ := Trend.roundTo_slope hfinite
  rw [h] at hrise hfall
  cases ht : ofSlope slope with
  | increasing => exact absurd (hrise ht) (by decide)
  | decreasing => exact absurd (hfall ht) (by decide)
  | stable => rfl

namespace Forecaster

variable {f : Forecaster} {v : Float}

/-- Rounding takes less than half off the hours to a crossing. -/
theorem lt_of_distance {most drift slope gap distance quotient shown : ℝ} (hslope : 0 < slope)
    (hdrift : slope ≤ drift) (hmost : 0 < most) (hdistance : |distance - gap| ≤ roundoff * |gap|)
    (hquotient : |quotient - distance / slope| ≤
      max (roundoff * |distance / slope|) (2 ^ (-1075 : ℤ)))
    (hshown : |shown - quotient| ≤ 5 * roundoff * |quotient| + 3 / 5 / 10)
    (hfar : 2 * (most + 1) * drift ≤ gap) : most < shown := by
  have hu := roundoff_le
  have hgap : 0 < gap := by nlinarith
  rw [abs_of_pos hgap] at hdistance
  have hlow : 99 / 100 * gap ≤ distance := by
    linarith [(abs_le.1 hdistance).1, mul_le_mul_of_nonneg_right hu hgap.le]
  have hexact : 198 / 100 * (most + 1) ≤ distance / slope := by
    rw [le_div_iff₀ hslope]
    nlinarith
  have hexact0 : 0 < distance / slope := by linarith
  generalize distance / slope = exact at *
  have hrounded : 99 / 100 * exact - 1 / 100 ≤ quotient := by
    have htiny : (2 : ℝ) ^ (-1075 : ℤ) ≤ 1 / 100 := least_le.trans (by norm_num)
    rw [abs_of_pos hexact0] at hquotient
    have hmax : max (roundoff * exact) (2 ^ (-1075 : ℤ)) ≤ 1 / 100 * exact + 1 / 100 :=
      max_le (by linarith [mul_le_mul_of_nonneg_right hu hexact0.le]) (by linarith)
    linarith [(abs_le.1 hquotient).1]
  have hquotient0 : 0 < quotient := by linarith
  rw [abs_of_pos hquotient0] at hshown
  linarith [(abs_le.1 hshown).1, mul_le_mul_of_nonneg_right hu hquotient0.le]

/-- No crossing is told of a threshold that the drift stays off for all hours that are told of. -/
theorem hoursToThreshold_eq_none {drift : ℝ} (hslope : |real slope| ≤ drift)
    (hfar : real f.threshold ≤ real v ∨
      2 * (real f.maxHoursToThreshold + 1) * drift ≤ real f.threshold - real v) :
    f.hoursToThreshold v slope = none := by
  rw [Option.eq_none_iff_forall_not_mem]
  intro hours hmem
  have hrise := approaches hmem
  obtain ⟨_, _, hpos, hmax, hquot, rfl⟩ := of_mem_hoursToThreshold hmem
  have hmax' := real_le_iff.2 (le_iff.1 hmax).2.2
  have hpos' : 0 < real (roundTo ((f.threshold - v) / slope) 1) := by
    rwa [lt_iff_real_lt (by decide) (isFinite_roundTo _ (by norm_num) (by norm_num)), real_zero] at hpos
  have hround := roundTo_error (show (1 : ℤ) ≤ 1 by norm_num) (by norm_num) hquot
  have hdivide := (nearest_div hrise.isFinite_distance hrise.isFinite_slope hrise.rising).error hquot
  have hsubtract := sub_error hrise.isFinite_distance
  rw [zpow_one] at hround
  refine absurd hmax' (not_le.2 ?_)
  exact lt_of_distance hrise.rising ((le_abs_self _).trans hslope) (hpos'.trans_le hmax') hsubtract hdivide
    hround (hfar.resolve_left (not_le.2 hrise.below))

end Forecaster

/-! ### Flat forecasts -/

/-- Whether a forecast tells of no change and of no crossing. -/
structure Forecast.IsFlat (c : Forecast) : Prop where
  trend : c.trend = .stable
  slope : c.slope = 0.0
  fit : c.fit = 0.0
  hoursToThreshold : c.hoursToThreshold = none

namespace Forecaster

variable {f : Forecaster} {entity : String} {metric : Metric} {samples : List Sample} {v : Float}

theorem isSome_forecast (hn : max f.minSamples 1 ≤ (f.window samples).length) :
    (f.forecast entity metric samples).isSome := by
  have hne : f.window samples ≠ [] := List.ne_nil_of_length_pos (by omega)
  simp only [forecast]
  rw [if_neg (by omega), Option.isSome_map, List.getLast?_isSome]
  exact hne

/-- A slope of zero, of either sign, makes the whole forecast flat. -/
theorem isFlat_of_isZero {made : Forecast} (h : f.forecast entity metric samples = some made)
    (hzero : IsZero (Line.through (Line.hours Sample.value (f.window samples))).slope) :
    made.IsFlat := by
  obtain ⟨last, lastX, hlast, rfl⟩ := exists_of_forecast h
  have hne : Line.hours Sample.value (f.window samples) ≠ [] := by
    have hwindow : f.window samples ≠ [] := fun hnil => by simp [hnil] at hlast
    rw [← List.length_pos_iff, Line.length_hours]
    exact List.length_pos_of_ne_nil hwindow
  have hfit := Line.fit_eq_zero (Line.areHours_hours _ _).finite hne hzero
  generalize Line.through (Line.hours Sample.value (f.window samples)) = line at *
  have hslope := hzero.eq_or
  refine ⟨?_, ?_, ?_, ?_⟩
  · rcases hslope with hslope | hslope <;> simp only [hslope] <;> decide
  · rcases hslope with hslope | hslope <;> simp only [hslope] <;> decide +kernel
  · simp only [hfit]
    exact roundTo_zero (by norm_num) (by norm_num)
  · refine if_pos (.inl ?_)
    rcases hslope with hslope | hslope <;> rw [hslope] <;> decide

/-- A window that holds one value only gets a forecast with that value. It is flat where the values have
no sum, where nothing is rounded on the way to the slope, and where all samples are of one instant.
Elsewhere the slope is at most the drift, and each part of the forecast is flat as long as it does not
show that: none of the variation is explained where the squares of the roundings are negligible, the
trend is stable and the slope zero where the drift is less than half of the last place, and there is no
crossing of a threshold that the drift does not reach within the hours that are told of. -/
theorem forecast_constant (f : Forecaster) (entity : String) (metric : Metric) {samples : List Sample}
    {v : Float} (hv : ∀ s ∈ f.window samples, s.value = v)
    (hn : max f.minSamples 1 ≤ (f.window samples).length) :
    let window := f.window samples
    let points := Line.hours Sample.value window
    ∃ made, f.forecast entity metric samples = some made ∧ made.current = v ∧
      ((sumFrom 0.0 (window.map Sample.value)).isFinite = false → made.IsFlat) ∧
      (∀ m e unit d, Line.Unrounded points v m e unit d → made.IsFlat) ∧
      (window.length * ((window.length + 3) * max |real v| 1) ^ 2 ≤ 2 ^ 49 → made.fit = 0.0) ∧
      (window.length ≤ 2 ^ 23 →
        ((∀ s ∈ window, ∀ u ∈ window, s.time = u.time) → made.IsFlat) ∧
        (Line.drift points v < 2 ^ (-15 : ℤ) → made.trend = .stable ∧ made.slope = 0.0) ∧
        (real f.threshold ≤ real v ∨
            2 * (real f.maxHoursToThreshold + 1) * Line.drift points v ≤ real f.threshold - real v →
          made.hoursToThreshold = none)) := by
  intro window points
  obtain ⟨made, hmade⟩ := Option.isSome_iff_exists.1 (isSome_forecast hn)
  have hflat := isFlat_of_isZero hmade
  obtain ⟨last, lastX, hlast, rfl⟩ := exists_of_forecast hmade
  have hmem : last ∈ window := List.mem_of_getLast? hlast
  have hcurrent : last.value = v := hv last hmem
  have hfinite : v.isFinite = true := hcurrent ▸ f.isFinite_of_mem_window hmem
  have hlength : points.length = window.length := Line.length_hours _ _
  have hne : points ≠ [] := by
    rw [← List.length_pos_iff, hlength]
    exact List.length_pos_of_mem hmem
  have hhours : Line.AreHours points := Line.areHours_hours _ _
  have hvalues : ∀ p ∈ points, p.2 = v := Line.snd_of_mem_hours hv
  have hslope := Line.isFinite_slope points
  have hline := Line.through_eq hne
  have hdrift (hfew : window.length ≤ 2 ^ 23) :
      |real (Line.through points).slope| ≤ Line.drift points v := by
    rw [hline]
    exact Line.abs_slope_le (hlength ▸ hfew) hhours hvalues
  refine ⟨_, hmade, hcurrent, fun hsum => hflat ?_, fun m e unit d h => hflat ?_, fun hsize => ?_,
    fun hfew => ⟨fun htimes => hflat ?_, fun hsmall => ?_, fun hfar => ?_⟩⟩
  · rw [hline]
    exact Line.isZero_slope_of_sum (Line.hours_snd _ _ ▸ hsum)
  · rw [hline]
    exact Line.isZero_slope (h.isZero_rise hne hvalues)
  · have hfit : (Line.through points).fit = 0.0 := by
      rw [hline, Line.explained_eq]
      exact if_pos (Line.variation_lt hne hvalues hfinite (hlength ▸ hsize))
    change roundTo (Line.through points).fit 3 = 0.0
    rw [hfit]
    exact roundTo_zero (by norm_num) (by norm_num)
  · have hzero := hdrift hfew
    rw [Line.drift_of_times htimes v] at hzero
    exact isZero_iff.2 (abs_nonpos_iff.1 hzero)
  · have hzero := roundTo_eq_zero_of_lt hslope ((hdrift hfew).trans_lt hsmall)
    exact ⟨Trend.ofSlope_of_roundTo hslope hzero, hzero⟩
  · change f.hoursToThreshold last.value (Line.through points).slope = none
    rw [hcurrent]
    exact hoursToThreshold_eq_none (hdrift hfew) hfar

/-- Six samples of one value, an hour apart. -/
def hourlySamples (v : Float) : List Sample :=
  (List.range 6).map fun i => ⟨(Instant.ofMillis? (3600000 * i)).get!, v⟩

/-- The points of six hours. -/
def hourlyPoints (v : Float) : List (Float × Float) := (List.range 6).map fun i => (Float.ofNat i, v)

theorem unrounded_hourlyPoints :
    Line.Unrounded (hourlyPoints 50.0) 50.0 50 0 (fun p => truncate p.1) 0 := by
  rw [show (50.0 : Float) = Float.ofNat 50 by decide]
  have hunit : ∀ i ∈ List.range 6, truncate (Float.ofNat i) = i := by decide +kernel
  have hsum : ((hourlyPoints (Float.ofNat 50)).map fun p => |truncate p.1|).sum = 15 := by
    decide +kernel
  have hlength : (hourlyPoints (Float.ofNat 50)).length = 6 := rfl
  refine ⟨multiple_ofNat (by norm_num), ?_, by norm_num, by rw [hlength]; norm_num, ?_, ?_, ?_⟩
  · unfold hourlyPoints
    rw [List.forall_mem_map]
    intro i hi
    rw [hunit i hi]
    exact multiple_ofNat ((List.mem_range.1 hi).trans (by norm_num))
  · rw [hsum]; norm_num
  · rw [hlength]; norm_num
  · rw [hsum, hlength]; norm_num

theorem drift_hourlyPoints (v : Float) :
    Line.drift (hourlyPoints v) v = 36 / 7 * max |real v| 1 / 2 ^ 46 := by
  have hpoints : hourlyPoints v = [(Float.ofNat 0, v), (Float.ofNat 1, v), (Float.ofNat 2, v),
    (Float.ofNat 3, v), (Float.ofNat 4, v), (Float.ofNat 5, v)] := rfl
  rw [hpoints, Line.drift, Line.hourSpread]
  simp (disch := norm_num) only [List.map_cons, List.map_nil, List.sum_cons, List.sum_nil,
    List.length_cons, List.length_nil, real_ofNat]
  norm_num
  ring

/-- Percentages up to 50 are far from any bound. -/
theorem bounds_hourlyPoints {v : Float} (hlow : 0 ≤ real v) (hhigh : real v ≤ 50) :
    Line.drift (hourlyPoints v) v < 2 ^ (-15 : ℤ) ∧
      ((6 : ℕ) : ℝ) * (((6 : ℕ) + 3) * max |real v| 1) ^ 2 ≤ 2 ^ 49 ∧
      2 * (real standard.maxHoursToThreshold + 1) * Line.drift (hourlyPoints v) v ≤
        real standard.threshold - real v := by
  have hsize : max |real v| 1 ≤ 50 := max_le ((abs_of_nonneg hlow).trans_le hhigh) (by norm_num)
  have hsize0 : 0 ≤ max |real v| 1 := le_max_of_le_right zero_le_one
  have hthreshold : real standard.threshold = 90 := by
    rw [show standard.threshold = Float.ofNat 90 by decide, real_ofNat (by norm_num)]
    norm_num
  have hmost : real standard.maxHoursToThreshold = 168 := by
    rw [show standard.maxHoursToThreshold = Float.ofNat 168 by decide, real_ofNat (by norm_num)]
    norm_num
  rw [drift_hourlyPoints, hthreshold, hmost]
  generalize max |real v| 1 = size at *
  refine ⟨?_, ?_, ?_⟩
  · norm_num
    linarith
  · push_cast
    nlinarith
  · norm_num
    linarith

/-- Nothing is rounded over the value 50, and little enough over 33.3. -/
theorem forecast_constant_hourly :
    ((∀ s ∈ standard.window (hourlySamples 50.0), s.value = 50.0) ∧
      max standard.minSamples 1 ≤ (standard.window (hourlySamples 50.0)).length ∧
      ∃ made, standard.forecast "web" .cpu (hourlySamples 50.0) = some made ∧ made.IsFlat) ∧
    (∀ s ∈ standard.window (hourlySamples 33.3), s.value = 33.3) ∧
      max standard.minSamples 1 ≤ (standard.window (hourlySamples 33.3)).length ∧
      ∃ made, standard.forecast "web" .cpu (hourlySamples 33.3) = some made ∧ made.IsFlat := by
  have hexact : (∀ s ∈ standard.window (hourlySamples 50.0), s.value = 50.0) ∧
      max standard.minSamples 1 ≤ (standard.window (hourlySamples 50.0)).length ∧
      Line.hours Sample.value (standard.window (hourlySamples 50.0)) = hourlyPoints 50.0 := by
    decide +kernel
  have hrounded : (∀ s ∈ standard.window (hourlySamples 33.3), s.value = 33.3) ∧
      (standard.window (hourlySamples 33.3)).length = 6 ∧
      Line.hours Sample.value (standard.window (hourlySamples 33.3)) = hourlyPoints 33.3 := by
    decide +kernel
  constructor
  · obtain ⟨hv, hn, hpoints⟩ := hexact
    obtain ⟨made, hmade, _, _, hflat, _⟩ := forecast_constant standard "web" .cpu hv hn
    rw [hpoints] at hflat
    exact ⟨hv, hn, made, hmade, hflat _ _ _ _ unrounded_hourlyPoints⟩
  · obtain ⟨hv, hlength, hpoints⟩ := hrounded
    have hn : max standard.minSamples 1 ≤ (standard.window (hourlySamples 33.3)).length := by
      rw [hlength]
      decide
    obtain ⟨made, hmade, _, _, _, hfit, hfew⟩ := forecast_constant standard "web" .cpu hv hn
    rw [hlength] at hfit
    rw [hpoints] at hfew
    have hhigh := (le_iff_real_le (by decide) (by decide)).1
      (show (33.3 : Float) ≤ Float.ofNat 50 by decide)
    rw [real_ofNat (by norm_num)] at hhigh
    have hlow := real_nonneg (show (0.0 : Float) ≤ 33.3 by decide)
    obtain ⟨hdrift, hsize, hfar⟩ := bounds_hourlyPoints hlow (by exact_mod_cast hhigh)
    obtain ⟨_, hslope, hcrossing⟩ := hfew (by rw [hlength]; norm_num)
    obtain ⟨htrend, hslope⟩ := hslope hdrift
    exact ⟨hv, hn, made, hmade, htrend, hslope, hfit hsize, hcrossing (.inr hfar)⟩

/-- Five samples of one value, a minute apart, with products that are rounded. -/
def roundedSamples : List Sample :=
  (List.range 5).map fun i => ⟨(Instant.ofMillis? (60000 * i)).get!, 123456789012345.0⟩

/-- All values are the same, and the forecast tells of a fall. -/
theorem forecast_roundedSamples :
    (∀ s ∈ standard.window roundedSamples, s.value = 123456789012345.0) ∧
      max standard.minSamples 1 ≤ (standard.window roundedSamples).length ∧
      ∃ made, standard.forecast "web" .memoryBytes roundedSamples = some made ∧
        made.trend = .decreasing ∧ made.slope = -1.125 := by
  have hforecast : (standard.forecast "web" .memoryBytes roundedSamples).map
      (fun made => (made.trend, made.slope)) = some (.decreasing, -1.125) := by
    decide +kernel
  obtain ⟨made, hmade, heq⟩ := Option.map_eq_some_iff.1 hforecast
  obtain ⟨htrend, hslope⟩ := Prod.mk.inj heq
  exact ⟨by decide +kernel, by decide +kernel, made, hmade, htrend, hslope⟩

end Forecaster

end FleetHealth.Capacity
