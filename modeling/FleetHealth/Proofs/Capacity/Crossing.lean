import FleetHealth.Proofs.Binary64.Zeros
import FleetHealth.Proofs.Capacity.Eligibility

/-!
# Crossings in order

A series that is nearer to its ceiling, or that rises more steeply, is told to reach it no later. The
distance to the ceiling, its quotient by the slope and the rounding of that each keep the order, so it
holds of the rounded hours. Of two series with one slope the nearer one is left untold only where it has
reached the ceiling or its crossing rounds to now.
-/
namespace FleetHealth

open Binary64

/-- Rounding to decimal places tells one zero only. -/
theorem Binary64.roundTo_eq_zero {places : ℤ} (h : 1 ≤ places) (h' : places ≤ 4) {x : Float}
    (hx : position (roundTo x places) = 0) : roundTo x places = 0.0 := by
  have hzero : IsZero (roundTo x places) := by
    rw [IsZero, ← position_natAbs, hx]
    rfl
  refine hzero.eq_or.resolve_right fun heq => not_isNegativeZero_roundTo x h h' ?_
  rw [heq]
  unfold IsNegativeZero
  decide

namespace Capacity.Forecaster

variable {f : Forecaster} {current current' slope slope' hours hours' : Float}

/-- What the hours to a crossing are made from: a rise toward a ceiling above, in finite numbers. -/
structure Approaches (f : Forecaster) (current slope : Float) : Prop where
  isFinite_threshold : f.threshold.isFinite = true
  isFinite_current : current.isFinite = true
  isFinite_slope : slope.isFinite = true
  isFinite_distance : (f.threshold - current).isFinite = true
  isFinite_quotient : ((f.threshold - current) / slope).isFinite = true
  below : real current < real f.threshold
  rising : 0 < real slope

theorem approaches (h : hours ∈ f.hoursToThreshold current slope) : f.Approaches current slope := by
  obtain ⟨hrising, hbelow, hpos, _, hquotient, rfl⟩ := of_mem_hoursToThreshold h
  have hdistance : (f.threshold - current).isFinite = true :=
    isFinite_of_imp (fun h => isFinite_div_eq_false h slope) hquotient
  have hthreshold : f.threshold.isFinite = true :=
    isFinite_of_imp (fun h => isFinite_sub_eq_false (.inl h)) hdistance
  have hcurrent : current.isFinite = true :=
    isFinite_of_imp (fun h => isFinite_sub_eq_false (.inr h)) hdistance
  -- a quotient by what is not finite is a zero, and is not told
  have hslope : slope.isFinite = true := by
    by_contra hinfinite
    have hzero := isZero_div_of_infinite hdistance (Bool.not_eq_true _ ▸ hinfinite) hquotient
    have hle : (f.threshold - current) / slope ≤ 0.0 := by
      rw [le_iff_real_le hquotient (by decide), isZero_iff.1 hzero, real_zero]
    have hround := (show IsDecimal 1 0.0 by decide +kernel).roundTo_le hquotient hle
    exact absurd (lt_iff.1 hpos).2.2 (not_lt.2 (le_iff.1 hround).2.2)
  refine ⟨hthreshold, hcurrent, hslope, hdistance, hquotient, ?_, ?_⟩
  · have hge : ¬ f.threshold ≤ current := hbelow
    rwa [le_iff_real_le hthreshold hcurrent, not_le] at hge
  · rwa [le_iff_real_le hslope (by decide), real_zero, not_le] at hrising

namespace Approaches

/-- Nearer to the ceiling the distance to it is no greater, down to none. -/
theorem distance_le (h : f.Approaches current slope) (hle : current ≤ current')
    (hbelow : current' ≤ f.threshold) :
    0.0 ≤ f.threshold - current' ∧ f.threshold - current' ≤ f.threshold - current := by
  have hfinite := isFinite_of_between h.isFinite_current h.isFinite_threshold hle hbelow
  have hsub := nearest_sub h.isFinite_threshold hfinite
  rw [le_iff_real_le h.isFinite_current hfinite] at hle
  rw [le_iff_real_le hfinite h.isFinite_threshold] at hbelow
  exact ⟨nearest_zero.mono hsub (by linarith),
    hsub.mono (nearest_sub h.isFinite_threshold h.isFinite_current) (by linarith)⟩

theorem distance_nonneg (h : f.Approaches current slope) : 0 ≤ real (f.threshold - current) := by
  have hsub := nearest_sub h.isFinite_threshold h.isFinite_current
  exact real_nonneg (nearest_zero.mono hsub (by linarith [h.below]))

/-- A smaller distance over the slope is a smaller quotient. -/
theorem quotient_le (h : f.Approaches current slope) (hle : current ≤ current')
    (hbelow : current' ≤ f.threshold) :
    0.0 ≤ (f.threshold - current') / slope ∧
      (f.threshold - current') / slope ≤ (f.threshold - current) / slope := by
  obtain ⟨hnonneg, hdistance⟩ := h.distance_le hle hbelow
  have hscaled (x : Float) (hx : x.isFinite = true) : Nearest (real x * (real slope)⁻¹) (x / slope) := by
    rw [← div_eq_mul_inv]
    exact nearest_div hx h.isFinite_slope h.rising
  -- the operation is read off `hscaled`, not off the goal
  have hquotients := scaled_mono (inv_nonneg.2 h.rising.le) hscaled h.isFinite_distance hnonneg hdistance
  exact hquotients

/-- A steeper rise makes a smaller quotient. -/
theorem quotient_le_of_steeper (h : f.Approaches current slope) (h' : f.Approaches current slope')
    (hle : slope ≤ slope') :
    (f.threshold - current) / slope' ≤ (f.threshold - current) / slope := by
  rw [le_iff_real_le h.isFinite_slope h'.isFinite_slope] at hle
  have hquotient := nearest_div h.isFinite_distance h.isFinite_slope h.rising
  have hquotient' := nearest_div h.isFinite_distance h'.isFinite_slope h'.rising
  exact hquotient'.mono hquotient (div_le_div_of_nonneg_left h.distance_nonneg h.rising hle)

/-- On the way to the ceiling, crossings not further off than one that is told are left untold only for
being rounded to now. -/
theorem eq_none_iff (h : f.Approaches current slope) (hle : current ≤ current')
    (hbelow : ¬ current' ≥ f.threshold)
    (hmax : roundTo ((f.threshold - current) / slope) 1 ≤ f.maxHoursToThreshold) :
    f.hoursToThreshold current' slope = none ↔
      roundTo ((f.threshold - current') / slope) 1 = 0.0 := by
  have hnumber : current'.isNaN = false := (le_iff.1 hle).2.1
  have hunder : current' ≤ f.threshold :=
    le_of_lt (lt_of_not_le (isNaN_eq_false h.isFinite_threshold) hnumber hbelow)
  have hrising : ¬ slope ≤ 0.0 := by
    rw [le_iff_real_le h.isFinite_slope (by decide), real_zero, not_le]
    exact h.rising
  obtain ⟨hnonneg, hquotient⟩ := h.quotient_le hle hunder
  have hfinite := isFinite_of_between (by decide) h.isFinite_quotient hnonneg hquotient
  have hround := roundTo_mono le_rfl (by norm_num) hfinite h.isFinite_quotient hquotient
  have hlow := (show IsDecimal 1 0.0 by decide +kernel).le_roundTo hfinite hnonneg
  simp only [hoursToThreshold, if_neg (not_or.2 ⟨hrising, hbelow⟩), hfinite, if_true,
    ite_eq_right_iff, reduceCtorEq, imp_false, not_and]
  constructor
  · intro hnone
    have hnot : ¬ 0.0 < roundTo ((f.threshold - current') / slope) 1 :=
      fun hpos => hnone hpos (le_trans hround hmax)
    have hzero : position 0.0 = 0 := by decide
    have hdown := (le_iff.1 hlow).2.2
    have hup := (le_iff.1 (le_of_not_lt (by decide) (le_iff.1 hlow).2.1 hnot)).2.2
    exact roundTo_eq_zero le_rfl (by norm_num) (by omega)
  · intro hzero hpos
    rw [hzero] at hpos
    exact absurd hpos (by decide)

end Approaches

/-- The hours that are told to a crossing grow neither toward the ceiling nor with the slope, and toward
the ceiling they stop being told only where it is reached or they round to none. -/
theorem hoursToThreshold_antitone (f : Forecaster) :
    (∀ slope current current' hours hours' : Float, 0.0 < slope → current ≤ current' →
      f.hoursToThreshold current slope = some hours →
      f.hoursToThreshold current' slope = some hours' → hours' ≤ hours) ∧
    (∀ current slope slope' hours hours' : Float, 0.0 < slope → slope ≤ slope' →
      f.hoursToThreshold current slope = some hours →
      f.hoursToThreshold current slope' = some hours' → hours' ≤ hours) ∧
    ∀ slope current current' hours : Float, current ≤ current' →
      f.hoursToThreshold current slope = some hours →
      (f.hoursToThreshold current' slope = none ↔
        current' ≥ f.threshold ∨ roundTo ((f.threshold - current') / slope) 1 = 0.0) := by
  refine ⟨fun slope current current' hours hours' _ hle h h' => ?_,
    fun current slope slope' hours hours' _ hle h h' => ?_, fun slope current current' hours hle h => ?_⟩
  · have hrise := approaches h
    have hrise' := approaches h'
    obtain ⟨_, _, _, _, _, rfl⟩ := of_mem_hoursToThreshold h
    obtain ⟨_, _, _, _, _, rfl⟩ := of_mem_hoursToThreshold h'
    have hbelow : current' ≤ f.threshold :=
      (le_iff_real_le hrise'.isFinite_current hrise'.isFinite_threshold).2 hrise'.below.le
    exact roundTo_mono le_rfl (by norm_num) hrise'.isFinite_quotient hrise.isFinite_quotient
      (hrise.quotient_le hle hbelow).2
  · have hrise := approaches h
    have hrise' := approaches h'
    obtain ⟨_, _, _, _, _, rfl⟩ := of_mem_hoursToThreshold h
    obtain ⟨_, _, _, _, _, rfl⟩ := of_mem_hoursToThreshold h'
    exact roundTo_mono le_rfl (by norm_num) hrise'.isFinite_quotient hrise.isFinite_quotient
      (hrise.quotient_le_of_steeper hrise' hle)
  · have hrise := approaches h
    obtain ⟨_, _, _, hmax, _, rfl⟩ := of_mem_hoursToThreshold h
    by_cases hreached : current' ≥ f.threshold
    · exact iff_of_true (by rw [hoursToThreshold, if_pos (.inr hreached)]) (.inl hreached)
    · rw [hrise.eq_none_iff hle hreached hmax, or_iff_right hreached]

/-- Nearer and steeper, the same ceiling is reached sooner, and at a distance of a hundredth of an hour
it is reached now. -/
theorem hoursToThreshold_antitone_standard :
    let f := Forecaster.standard
    (f.hoursToThreshold 80.0 2.0 = some 5.0 ∧ f.hoursToThreshold 85.0 2.0 = some 2.5 ∧
      (2.5 : Float) ≤ 5.0) ∧
    (f.hoursToThreshold 80.0 4.0 = some 2.5 ∧ (2.5 : Float) ≤ 5.0) ∧
    f.hoursToThreshold 89.99 2.0 = none ∧
      (89.99 ≥ f.threshold ∨ roundTo ((f.threshold - 89.99) / 2.0) 1 = 0.0) := by
  intro f
  have hfar : f.hoursToThreshold 80.0 2.0 = some 5.0 := by decide +kernel
  have hnear : f.hoursToThreshold 85.0 2.0 = some 2.5 := by decide +kernel
  have hsteep : f.hoursToThreshold 80.0 4.0 = some 2.5 := by decide +kernel
  have hnow : f.hoursToThreshold 89.99 2.0 = none := by decide +kernel
  obtain ⟨htoward, hrising, huntold⟩ := hoursToThreshold_antitone f
  exact ⟨⟨hfar, hnear, htoward 2.0 80.0 85.0 5.0 2.5 (by decide) (by decide) hfar hnear⟩,
    ⟨hsteep, hrising 80.0 2.0 4.0 5.0 2.5 (by decide) (by decide) hfar hsteep⟩, hnow,
    (huntold 2.0 80.0 89.99 5.0 (by decide) hfar).1 hnow⟩

end Capacity.Forecaster

end FleetHealth
