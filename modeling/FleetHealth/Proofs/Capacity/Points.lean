import FleetHealth.Proofs.Capacity.Window

/-!
# The points of a forecast

The last samples of the window come first, then one projected point for every step of the horizon. A
later step is no earlier an instant, so the projection stops only where the calendar does, and whatever
a line predicts, the projected value lies in the range of the metric.
-/
namespace FleetHealth

open Binary64

/-- Whatever is predicted, NaN included, is clamped and rounded into the range of the metric. -/
theorem Metric.roundTo_clamp (m : Metric) (x : Float) :
    (roundTo (m.clamp x) 2).isFinite = true ∧ 0.0 ≤ roundTo (m.clamp x) 2 ∧
      roundTo (m.clamp x) 2 ≤ m.greatest := by
  have hleast : IsDecimal 2 0.0 := by decide +kernel
  obtain ⟨hgreatest, hrange⟩ : IsDecimal 2 m.greatest ∧ 0.0 ≤ m.greatest := by
    unfold Metric.greatest
    split <;> decide +kernel
  refine ⟨isFinite_roundTo _ hleast.few.1 hleast.few.2, ?_⟩
  rcases clamp_bounds hrange x with hnan | ⟨hlow, hhigh⟩
  · have hzero : roundTo (m.clamp x) 2 = 0.0 := by
      refine if_neg fun h => ?_
      have hnot := isNaN_eq_false h
      rw [Metric.clamp, Metric.least, hnan] at hnot
      cases hnot
    rw [hzero]
    exact ⟨by decide, hrange⟩
  · have hclamp : (m.clamp x).isFinite = true :=
      isFinite_of_between hleast.finite hgreatest.finite hlow hhigh
    exact ⟨hleast.le_roundTo hclamp hlow, hgreatest.roundTo_le hclamp hhigh⟩

namespace Capacity.Forecaster

variable (f : Forecaster) {metric : Metric} {line : Line Float} {t u v : Instant} {lastX : Float}
  {i j : Nat}

/-! ### Steps of the horizon -/

/-- The instant of a step of the horizon, in whole milliseconds after the newest sample, if the
calendar has it. -/
def step? (newest : Instant) (i : Nat) : Option Instant :=
  newest.shift? (millis (f.horizonHours * Float.ofNat i / Float.ofNat f.projectedPoints) * 1000000)

theorem after?_offset (hi : 1 ≤ i) (hle : i ≤ f.projectedPoints) :
    after? t (f.offset i) = f.step? t i := by
  rw [after?_eq, offset, Nat.max_eq_left (hi.trans hle), step?]

variable {f}

theorem isFinite_of_after? {hours : Float} (h : (after? t hours).isSome) : hours.isFinite = true := by
  refine isFinite_of_imp (fun h => isFinite_mul_eq_false (.inl h)) (y := hours * 3600000.0) ?_
  by_contra hfinite
  simp [after?, hoursToMillis?, hfinite] at h

/-- A step before one with a finite offset has one too, and no greater. -/
theorem offset_mono (hfinite : f.horizonHours.isFinite = true) (hhorizon : 0.0 ≤ f.horizonHours)
    (hij : i ≤ j) (hj : (f.offset j).isFinite = true) :
    (f.offset i).isFinite = true ∧ 0.0 ≤ f.offset i ∧ f.offset i ≤ f.offset j := by
  have hproduct : (f.horizonHours * Float.ofNat j).isFinite = true :=
    isFinite_of_imp (fun h => isFinite_div_eq_false h _) hj
  have hcount : (Float.ofNat j).isFinite = true :=
    isFinite_of_imp (fun h => isFinite_mul_eq_false (.inr h)) hproduct
  have hscaled (x : Float) (hx : x.isFinite = true) :
      Nearest (real x * real f.horizonHours) (f.horizonHours * x) := by
    rw [mul_comm]
    exact nearest_mul hfinite hx
  obtain ⟨c, hc, hdivided⟩ := exists_nearest_div_ofNat (Nat.le_max_right f.projectedPoints 1)
  have hcounts : 0.0 ≤ Float.ofNat i ∧ Float.ofNat i ≤ Float.ofNat j :=
    ⟨nearest_zero.mono (nearest_ofNat i) (Nat.cast_nonneg i),
      (nearest_ofNat i).mono (nearest_ofNat j) (Nat.cast_le.2 hij)⟩
  have hproducts := scaled_mono (real_nonneg hhorizon) hscaled hcount hcounts.1 hcounts.2
  have hoffsets := scaled_mono hc hdivided hproduct hproducts.1 hproducts.2
  exact ⟨isFinite_of_between (by decide) hj hoffsets.1 hoffsets.2, hoffsets⟩

variable (hfinite : f.horizonHours.isFinite = true) (hhorizon : 0.0 ≤ f.horizonHours)
include hfinite hhorizon

theorem millis_offset (hij : i ≤ j) (h : (after? t (f.offset j)).isSome) :
    0 ≤ millis (f.offset i) ∧ millis (f.offset i) ≤ millis (f.offset j) := by
  have hj := isFinite_of_after? h
  obtain ⟨hi, hzero, hle⟩ := offset_mono hfinite hhorizon hij hj
  exact ⟨millis_nonneg hi hzero, millis_mono hi hj hle⟩

theorem isSome_after?_of_le (hij : i ≤ j) (h : (after? t (f.offset j)).isSome) :
    (after? t (f.offset i)).isSome := by
  obtain ⟨hzero, hle⟩ := millis_offset hfinite hhorizon hij h
  rw [after?_eq] at *
  exact Instant.shift?_isSome_of_le (by omega) (by omega) h

theorem after?_mono (hij : i ≤ j) (hu : after? t (f.offset i) = some u)
    (hv : after? t (f.offset j) = some v) : u ≤ v := by
  obtain ⟨hzero, hle⟩ := millis_offset hfinite hhorizon hij (Option.isSome_of_eq_some hv)
  rw [after?_eq] at *
  exact Instant.shift?_mono (by omega) hu hv

theorem le_after? (hu : after? t (f.offset i) = some u) : t ≤ u := by
  obtain ⟨hzero, _⟩ := millis_offset hfinite hhorizon le_rfl (Option.isSome_of_eq_some hu)
  rw [after?_eq] at hu
  exact Instant.shift?_mono (by omega) t.shift?_zero hu

omit hfinite hhorizon

/-! ### The projection -/

variable (f metric line t lastX)

theorem length_projection_le (left i : Nat) :
    (f.projection metric line t lastX left i).length ≤ left := by
  induction left generalizing i with
  | zero => simp [projection]
  | succ left ih =>
    rw [projection]
    split
    · simp
    · simpa using ih (i + 1)

variable {f metric line t lastX}

theorem mem_projection {left : Nat} {p : Point} (h : p ∈ f.projection metric line t lastX left i) :
    ∃ j, i ≤ j ∧ f.projected? metric line t lastX j = some p := by
  induction left generalizing i with
  | zero => simp [projection] at h
  | succ left ih =>
    rw [projection] at h
    split at h
    next => cases h
    next q hq =>
      rcases List.mem_cons.1 h with rfl | h
      · exact ⟨i, le_rfl, hq⟩
      · obtain ⟨j, hj, hp⟩ := ih h
        exact ⟨j, by omega, hp⟩

theorem of_projected? {p : Point} (h : f.projected? metric line t lastX i = some p) :
    after? t (f.offset i) = some p.time ∧ p.isProjected = true ∧
      ∃ x, p.value = roundTo (metric.clamp x) 2 := by
  obtain ⟨time, htime, rfl⟩ := Option.map_eq_some_iff.1 h
  exact ⟨htime, rfl, _, rfl⟩

theorem isSome_projected? :
    (f.projected? metric line t lastX i).isSome = (after? t (f.offset i)).isSome :=
  Option.isSome_map

include hfinite hhorizon

/-- The loop ends at the first step past the calendar, and there is no step in it after that. -/
theorem getElem?_projection {left k : Nat} (hk : k < left) :
    (f.projection metric line t lastX left i)[k]? = f.projected? metric line t lastX (i + k) := by
  induction left generalizing i k with
  | zero => cases hk
  | succ left ih =>
    rw [projection]
    split
    next hnone =>
      rw [List.getElem?_nil, eq_comm, ← Option.not_isSome_iff_eq_none, isSome_projected?]
      intro hlater
      have hearlier := isSome_after?_of_le hfinite hhorizon (Nat.le_add_right i k) hlater
      rw [← isSome_projected?, hnone] at hearlier
      cases hearlier
    next p hp =>
      cases k with
      | zero => exact hp.symm
      | succ k =>
        rw [List.getElem?_cons_succ, ih (by omega)]
        congr 1
        omega

theorem projection_ascending (left : Nat) :
    (f.projection metric line t lastX left i).Pairwise fun p q => p.time ≤ q.time := by
  induction left generalizing i with
  | zero => exact .nil
  | succ left ih =>
    rw [projection]
    split
    next => exact .nil
    next p hp =>
      refine List.pairwise_cons.2 ⟨fun q hq => ?_, ih⟩
      obtain ⟨j, hj, hq⟩ := mem_projection hq
      exact after?_mono hfinite hhorizon (by omega) (of_projected? hp).1 (of_projected? hq).1

omit hfinite hhorizon

/-! ### All points -/

/-- The points of a forecast from a window with its newest sample at some instant: the last actual
samples, then a projected point for each step that has an instant, in time order and in the range of the
metric. -/
structure IsLaidOut (f : Forecaster) (metric : Metric) (window : List Sample) (newest : Instant)
    (points : List Point) : Prop where
  parts : ∃ projected,
    points = (window.drop (window.length - min f.actualPoints window.length)).map
        (fun s => ⟨s.time, s.value, false⟩) ++ projected ∧
      projected.length ≤ f.projectedPoints ∧ (∀ p ∈ projected, p.isProjected) ∧
      ∀ i, 1 ≤ i → i ≤ f.projectedPoints → (projected[i - 1]?).map Point.time = f.step? newest i
  ascending : points.Pairwise fun p q => p.time ≤ q.time
  inRange : ∀ p ∈ points, p.isProjected → p.value.isFinite ∧ 0.0 ≤ p.value ∧
    p.value ≤ if metric.isPercentage then 100.0 else greatest

theorem isLaidOut_points (hfinite : f.horizonHours.isFinite = true) (hhorizon : 0.0 ≤ f.horizonHours)
    {window : List Sample} {newest : Sample} (hasc : window.Pairwise fun a b => a.time ≤ b.time)
    (hnewest : window.getLast? = some newest) (metric : Metric) (line : Line Float) (lastX : Float) :
    f.IsLaidOut metric window newest.time (f.points metric window line newest.time lastX) where
  parts := by
    refine ⟨f.projection metric line newest.time lastX f.projectedPoints 1, ?_,
      f.length_projection_le .., fun p hp => ?_, fun i hi hle => ?_⟩
    · have hcount : window.length - f.actualPoints =
          window.length - min f.actualPoints window.length := by omega
      rw [points, Series.takeLast, hcount]
    · obtain ⟨j, _, hp⟩ := mem_projection hp
      exact (of_projected? hp).2.1
    · rw [getElem?_projection hfinite hhorizon (by omega), Nat.add_sub_cancel' hi, projected?,
        Option.map_map, ← f.after?_offset hi hle]
      exact Option.map_id'
  ascending := by
    refine List.pairwise_append.2 ⟨?_, projection_ascending hfinite hhorizon _, fun p hp q hq => ?_⟩
    · exact List.pairwise_map.2 (hasc.sublist (List.drop_sublist _ _))
    · obtain ⟨s, hs, rfl⟩ := List.mem_map.1 hp
      obtain ⟨j, _, hq⟩ := mem_projection hq
      exact Instant.le_trans (Series.le_getLast? hasc hnewest s (List.mem_of_mem_drop hs))
        (le_after? hfinite hhorizon (of_projected? hq).1)
  inRange := by
    intro p hp hprojected
    rcases List.mem_append.1 hp with hp | hp
    · obtain ⟨s, _, rfl⟩ := List.mem_map.1 hp
      cases hprojected
    · obtain ⟨j, _, hp⟩ := mem_projection hp
      obtain ⟨_, _, x, hvalue⟩ := of_projected? hp
      rw [hvalue]
      exact metric.roundTo_clamp x

/-- The points of a forecast lie as they should in its window, and they would whatever line had been
fitted. -/
theorem forecast_points (f : Forecaster) (hfinite : f.horizonHours.isFinite)
    (hhorizon : 0.0 ≤ f.horizonHours) (entity : String) (metric : Metric) (samples : List Sample)
    (made : Forecast) (hmade : f.forecast entity metric samples = some made) :
    ∃ newest, (f.window samples).getLast? = some newest ∧
      f.IsLaidOut metric (f.window samples) newest.time made.points ∧
      ∀ line lastX, f.IsLaidOut metric (f.window samples) newest.time
        (f.points metric (f.window samples) line newest.time lastX) := by
  obtain ⟨newest, _, hnewest, rfl⟩ := exists_of_forecast hmade
  have hlaid := isLaidOut_points hfinite hhorizon (f.window_ascending samples) hnewest metric
  exact ⟨newest, hnewest, hlaid _ _, hlaid⟩

theorem forecast_points_fiveHours :
    ∃ made newest, Forecaster.standard.forecast "web" .cpu FleetForecaster.fiveHours = some made ∧
      Forecaster.standard.IsLaidOut .cpu
        (Forecaster.standard.window FleetForecaster.fiveHours) newest made.points := by
  have hsome : (Forecaster.standard.forecast "web" .cpu FleetForecaster.fiveHours).isSome := by
    decide +kernel
  obtain ⟨made, hmade⟩ := Option.isSome_iff_exists.1 hsome
  obtain ⟨newest, _, hlaid, _⟩ :=
    forecast_points .standard (by decide) (by decide) "web" .cpu FleetForecaster.fiveHours made hmade
  exact ⟨made, newest.time, hmade, hlaid⟩

end Capacity.Forecaster

end FleetHealth
