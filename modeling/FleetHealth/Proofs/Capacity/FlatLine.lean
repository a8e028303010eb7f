import FleetHealth.Capacity.Line
import FleetHealth.Proofs.Binary64.Exact
import FleetHealth.Proofs.Binary64.Zeros

/-!
# Lines of slope zero

A line of slope zero runs through the mean, give or take the sign of a zero, and then what it leaves over
is all the variation there is: it explains nothing. The slope is zero where the codeviation of hours and
values is, and it is where there is no sum of the values.
-/
namespace FleetHealth.Capacity.Line

open Binary64 Quantity

variable {points : List (Float × Float)} {slope intercept v : Float}

/-! ### What the line explains -/

def mean (points : List (Float × Float)) : Float :=
  sumFrom 0.0 (points.map (·.2)) / Float.ofNat points.length

def residual (points : List (Float × Float)) (slope intercept : Float) : Float :=
  sumFrom 0.0 (points.map fun p =>
    (p.2 - (slope * p.1 + intercept)) * (p.2 - (slope * p.1 + intercept)))

def variation (points : List (Float × Float)) : Float :=
  sumFrom 0.0 (points.map fun p => (p.2 - mean points) * (p.2 - mean points))

theorem explained_eq : explained points slope intercept =
    if (variation points).abs < epsilon then 0.0
    else if (1.0 - residual points slope intercept / variation points).isFinite then
      clamp 0.0 1.0 (1.0 - residual points slope intercept / variation points)
    else 0.0 := by
  have h : explained points slope intercept =
      if decide ((variation points).abs < epsilon) then 0.0
      else if (1.0 - residual points slope intercept / variation points).isFinite then
        clamp 0.0 1.0 (1.0 - residual points slope intercept / variation points)
      else 0.0 := rfl
  simpa only [decide_eq_true_eq] using h

theorem real_one : real 1.0 = 1 := by
  rw [show (1.0 : Float) = Float.ofNat 1 by decide, real_ofNat (by norm_num), Nat.cast_one]

/-- A variation that is all left over is not explained at all. -/
theorem part_eq_zero {w : Float} (h0 : 0 ≤ real w) (hw : ¬ IsZero w) (h : (w / w).isFinite = true) :
    1.0 - w / w = 0.0 := by
  have hfinite : w.isFinite = true := isFinite_of_imp (fun h => isFinite_div_eq_false h w) h
  have hpos : 0 < real w := lt_of_le_of_ne h0 (Ne.symm (mt isZero_iff.2 hw))
  have hquot := nearest_div hfinite hfinite hpos
  rw [div_self hpos.ne', ← real_one] at hquot
  have hone := (hquot.sameUpToZero (nearest_real (by decide))).resolve_right
    fun hzero => absurd hzero.2 (by unfold IsZero; decide)
  rw [hone]
  decide

theorem residual_eq (hx : ∀ p ∈ points, p.1.isFinite = true) (hslope : IsZero slope)
    (hmean : SameUpToZero intercept (mean points)) :
    residual points slope intercept = variation points := by
  unfold residual variation
  congr 1
  refine List.map_congr_left fun p hp => ?_
  exact ((((hslope.mul (hx p hp)).add intercept).trans hmean).sub_left p.2).mul_self

theorem variation_nonneg (h : (variation points).isFinite = true) : 0 ≤ real (variation points) :=
  sumFrom_nonneg (List.forall_mem_map.2 fun _ hp =>
    real_square_nonneg (isFinite_of_sumFrom h _ (List.mem_map_of_mem hp))) h

theorem explained_eq_zero (hx : ∀ p ∈ points, p.1.isFinite = true) (hslope : IsZero slope)
    (hmean : SameUpToZero intercept (mean points)) : explained points slope intercept = 0.0 := by
  rw [explained_eq, residual_eq hx hslope hmean]
  split
  next => rfl
  next hlarge =>
    split
    next hpart =>
      have hratio : (variation points / variation points).isFinite = true :=
        isFinite_of_imp (fun h => isFinite_sub_eq_false (.inr h)) hpart
      have hfinite := isFinite_of_imp (fun h => isFinite_div_eq_false h (variation points)) hratio
      have hne : ¬ IsZero (variation points) := fun hzero => hlarge <| by
        rw [abs_lt_epsilon_iff hfinite, isZero_iff.1 hzero, abs_zero]
        positivity
      rw [part_eq_zero (variation_nonneg hfinite) hne hratio]
      decide
    next => rfl

/-! ### The coefficients -/

/-- How two readings of the points vary together, times the square of their number. -/
def codeviation (f g : Float × Float → Float) (points : List (Float × Float)) : Float :=
  Float.ofNat points.length * sumFrom 0.0 (points.map fun p => f p * g p) -
    sumFrom 0.0 (points.map f) * sumFrom 0.0 (points.map g)

theorem isFinite_of_codeviation {f g : Float × Float → Float}
    (h : (codeviation f g points).isFinite = true) :
    (sumFrom 0.0 (points.map f)).isFinite = true ∧ (sumFrom 0.0 (points.map g)).isFinite = true ∧
      (sumFrom 0.0 (points.map fun p => f p * g p)).isFinite = true ∧
      (Float.ofNat points.length * sumFrom 0.0 (points.map fun p => f p * g p)).isFinite = true ∧
      (sumFrom 0.0 (points.map f) * sumFrom 0.0 (points.map g)).isFinite = true := by
  have hleft := isFinite_of_imp (fun hinf => isFinite_sub_eq_false (.inl hinf)) h
  have hright := isFinite_of_imp (fun hinf => isFinite_sub_eq_false (.inr hinf)) h
  exact ⟨isFinite_of_imp (fun hinf => isFinite_mul_eq_false (.inl hinf)) hright,
    isFinite_of_imp (fun hinf => isFinite_mul_eq_false (.inr hinf)) hright,
    isFinite_of_imp (fun hinf => isFinite_mul_eq_false (.inr hinf)) hleft, hleft, hright⟩

def rise (points : List (Float × Float)) : Float := codeviation (·.1) (·.2) points

def spread (points : List (Float × Float)) : Float := codeviation (·.1) (·.1) points

/-- Either the line is flat through the mean, or it is the closed form with finite coefficients. -/
theorem coefficients_cases (points : List (Float × Float)) :
    coefficients points = (0.0, mean points) ∨
      ∃ slope intercept, coefficients points = (slope, intercept) ∧
        slope = rise points / spread points ∧
        intercept = (sumFrom 0.0 (points.map (·.2)) - slope * sumFrom 0.0 (points.map (·.1))) /
          Float.ofNat points.length ∧
        slope.isFinite = true ∧ intercept.isFinite = true ∧ ¬ (spread points).abs < epsilon := by
  have h : coefficients points =
      let slope := rise points / spread points
      let intercept := (sumFrom 0.0 (points.map (·.2)) - slope * sumFrom 0.0 (points.map (·.1))) /
        Float.ofNat points.length
      if decide ((spread points).abs < epsilon) then (0.0, mean points)
      else if slope.isFinite && intercept.isFinite then (slope, intercept)
      else (0.0, mean points) := rfl
  rw [h]
  simp only [decide_eq_true_eq, Bool.and_eq_true]
  split
  next => exact .inl rfl
  next hspread =>
    split
    next hfinite => exact .inr ⟨_, _, rfl, rfl, rfl, hfinite.1, hfinite.2, hspread⟩
    next => exact .inl rfl

/-- With a slope of zero the intercept is the mean. -/
theorem intercept_of_isZero (h : IsZero (coefficients points).1) :
    SameUpToZero (coefficients points).2 (mean points) := by
  obtain heq | ⟨slope, intercept, heq, _, hintercept, _, hfinite, _⟩ := coefficients_cases points
  · rw [heq]
    exact .inl rfl
  · rw [heq] at h ⊢
    rw [hintercept] at hfinite ⊢
    have hdifference := isFinite_of_imp (fun hinf => isFinite_div_eq_false hinf _) hfinite
    have hproduct := isFinite_of_imp (fun hinf => isFinite_sub_eq_false (.inr hinf)) hdifference
    have hsum := isFinite_of_imp (fun hinf => isFinite_mul_eq_false (.inr hinf)) hproduct
    exact ((h.mul hsum).sub _).div hfinite

theorem isZero_slope (h : (rise points).isFinite = true → IsZero (rise points)) :
    IsZero (coefficients points).1 := by
  obtain heq | ⟨slope, intercept, heq, hslope, _, hfinite, _⟩ := coefficients_cases points
  · rw [heq]
    exact isZero_iff.2 real_zero
  · rw [heq]
    rw [hslope] at hfinite ⊢
    exact (h (isFinite_of_imp (fun hinf => isFinite_div_eq_false hinf _) hfinite)).div hfinite

/-- Without a sum of the values there is no intercept, and the line is flat. -/
theorem isZero_slope_of_sum (h : (sumFrom 0.0 (points.map (·.2))).isFinite = false) :
    IsZero (coefficients points).1 := by
  obtain heq | ⟨slope, intercept, heq, _, hintercept, _, hfinite, _⟩ := coefficients_cases points
  · rw [heq]
    exact isZero_iff.2 real_zero
  · rw [hintercept] at hfinite
    have hdifference := isFinite_of_imp (fun hinf => isFinite_div_eq_false hinf _) hfinite
    rw [isFinite_sub_eq_false (.inl h)] at hdifference
    cases hdifference

theorem fit_eq_zero (hx : ∀ p ∈ points, p.1.isFinite = true) (hne : points ≠ [])
    (h : IsZero (through points).slope) : (through points).fit = 0.0 := by
  rw [through_eq hne] at h ⊢
  exact explained_eq_zero hx h (intercept_of_isZero h)

/-! ### One value -/

/-- Value and hours are multiples of powers of two, and so small ones that their sums and products need no
more digits than a double holds. -/
structure Unrounded (points : List (Float × Float)) (v : Float) (m e : ℤ)
    (unit : Float × Float → ℤ) (d : ℤ) : Prop where
  value : Multiple m e v
  hours : ∀ p ∈ points, Multiple (unit p) d p.1
  exponents : -1074 ≤ d ∧ -1074 ≤ e ∧ -1074 ≤ d + e
  count : points.length < 2 ^ 53
  sum_hours : (points.map fun p => |unit p|).sum ≤ 2 ^ 53
  sum_values : points.length * |m| ≤ 2 ^ 53
  product : points.length * |m| * (points.map fun p => |unit p|).sum ≤ 2 ^ 53

theorem Unrounded.isZero_rise {m e d : ℤ} {unit : Float × Float → ℤ} (h : Unrounded points v m e unit d)
    (hne : points ≠ []) (hv : ∀ p ∈ points, p.2 = v) (hfinite : (rise points).isFinite = true) :
    IsZero (rise points) := by
  obtain ⟨hsumX, hsumY, hsumXY, hleft, hright⟩ := isFinite_of_codeviation hfinite
  obtain ⟨hd, he, hde⟩ := h.exponents
  have hn : (1 : ℤ) ≤ points.length := by exact_mod_cast List.length_pos_of_ne_nil hne
  have hnonneg : ∀ k ∈ points.map fun p => |unit p|, 0 ≤ k :=
    List.forall_mem_map.2 fun p _ => abs_nonneg (unit p)
  have hproduct : (points.map fun p => |unit p|).sum * |m| ≤ 2 ^ 53 := by
    nlinarith [h.product, mul_nonneg (List.sum_nonneg hnonneg) (abs_nonneg m)]
  have hterm : ∀ p ∈ points, Multiple (unit p * m) (d + e) (p.1 * p.2) := fun p hp => by
    refine (h.hours p hp).mul ((hv p hp).symm ▸ h.value)
      (isFinite_of_sumFrom hsumXY _ (List.mem_map_of_mem hp)) ?_ hde
    rw [abs_mul]
    exact (mul_le_mul_of_nonneg_right (List.single_le_sum hnonneg _ (List.mem_map_of_mem hp))
      (abs_nonneg m)).trans hproduct
  have hX := Multiple.sum h.hours hsumX h.sum_hours hd
  have hY := Multiple.sum (fun p hp => (hv p hp).symm ▸ h.value) hsumY
    (by simpa only [List.map_const', List.sum_replicate, nsmul_eq_mul] using h.sum_values) he
  have hXY := Multiple.sum hterm hsumXY
    (by simpa only [abs_mul, List.sum_map_mul_right] using hproduct) hde
  simp only [List.map_const', List.sum_replicate, nsmul_eq_mul] at hY
  rw [List.sum_map_mul_right] at hXY
  -- the count times one product is the other, and both are exact
  have hscaled : points.length * ((points.map unit).sum * m) =
      (points.map unit).sum * (points.length * m) := by ring
  have hdigits : |(points.map unit).sum * (points.length * m)| ≤ 2 ^ 53 := by
    rw [abs_mul, abs_mul, Nat.abs_cast, mul_comm]
    exact (mul_le_mul_of_nonneg_left (abs_sum_le unit points) (by positivity)).trans h.product
  have hL := (multiple_ofNat h.count).mul hXY hleft (hscaled ▸ hdigits) (by omega)
  have hR := hX.mul hY hright hdigits hde
  rw [zero_add, hscaled] at hL
  have hzero := hL.sub hR hfinite (by rw [sub_self]; norm_num) hde
  rw [sub_self, Multiple, Int.cast_zero, zero_mul] at hzero
  exact isZero_iff.2 hzero

end FleetHealth.Capacity.Line
