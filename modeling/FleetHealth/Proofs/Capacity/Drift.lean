import FleetHealth.Proofs.Capacity.FlatLine
import FleetHealth.Proofs.Capacity.LeastSquares

/-!
# How far rounding tilts a flat line

The codeviation of the hours with one value is zero, but it is the difference of two sums that are
rounded, and each rounding is in proportion to these, not to the difference. Divided by the spread of the
hours, that bounds the slope.
-/
namespace FleetHealth.Capacity.Line

open Binary64

variable {points : List (Float × Float)} {v : Float}

/-! ### Codeviations -/

theorem within_codeviation {f g : Float × Float → Float} {F G : Float × Float → ℝ} {e : ℤ}
    (hf : ∀ p ∈ points, |real (f p)| ≤ F p) (hg : ∀ p ∈ points, |real (g p)| ≤ G p)
    (hF : ∀ p ∈ points, Coarse e (F p)) (hG : ∀ p ∈ points, Coarse e (G p)) (he : -500 ≤ e)
    (hn : points.length < 2 ^ 53) (h : (codeviation f g points).isFinite = true) :
    Within (2 * points.length + 3)
      (points.length * (points.map fun p => F p * G p).sum + (points.map F).sum * (points.map G).sum)
      (points.length * (points.map fun p => real (f p) * real (g p)).sum -
        (points.map fun p => real (f p)).sum * (points.map fun p => real (g p)).sum)
      (real (codeviation f g points)) := by
  obtain ⟨hsumF, hsumG, hcross, hleft, hright⟩ := isFinite_of_codeviation h
  have hX := within_sum (fun p hp => (Within.exact (real (f p))).mono_scale (hf p hp)) hsumF
  have hY := within_sum (fun p hp => (Within.exact (real (g p))).mono_scale (hg p hp)) hsumG
  have hproducts : ∀ p ∈ points, Coarse (e + e) (F p * G p) := fun p hp =>
    (hF p hp).mul (hG p hp)
  have hXY := within_sum (fun p hp => Within.product
    (isFinite_of_sumFrom hcross _ (List.mem_map_of_mem hp))
    (abs_mul (real (f p)) (real (g p)) ▸
      mul_le_mul (hf p hp) (hg p hp) (abs_nonneg _) (hF p hp).nonneg)
    ((hproducts p hp).covers (by omega))) hcross
  have hcount := Within.exact (real (Float.ofNat points.length))
  have hscale := (Coarse.natCast points.length).mul (Coarse.sum (List.forall_mem_map.2 hproducts))
  have hscale' := (Coarse.sum (List.forall_mem_map.2 hF)).mul (Coarse.sum (List.forall_mem_map.2 hG))
  have hL := (hcount.mul hXY).round_nearest (nearest_mul (ofNat_exact hn).1 hcross) hleft
    (by rw [real_ofNat hn, Nat.abs_cast]; exact hscale.covers (by omega))
  have hR := (hX.mul hY).round_nearest (nearest_mul hsumF hsumG) hright (hscale'.covers (by omega))
  rw [real_ofNat hn, Nat.abs_cast] at hL
  exact ((hL.mono (by omega : _ ≤ 2 * points.length + 2)).sub (hR.mono (by omega))).round_relative
    (sub_error h)

/-! ### The spread of the hours -/

/-- The squared deviations of the hours, times their number. -/
noncomputable def hourSpread (points : List (Float × Float)) : ℝ :=
  points.length * (points.map fun p => real p.1 * real p.1).sum -
    (points.map fun p => real p.1).sum * (points.map fun p => real p.1).sum

/-- Hours since the first of some samples. None but zero is less than a millisecond. -/
structure AreHours (points : List (Float × Float)) : Prop where
  finite : ∀ p ∈ points, p.1.isFinite = true
  coarse : ∀ p ∈ points, Coarse (-22) |real p.1|
  first : ∀ p ∈ points.head?, real p.1 = 0

/-- The sum of the hours takes at most as much off the spread as there are hours that are not zero. -/
theorem AreHours.squares_le (h : AreHours points) :
    (points.map fun p => real p.1 * real p.1).sum ≤ hourSpread points := by
  cases points with
  | nil => simp [hourSpread]
  | cons first rest =>
    have hfirst : real first.1 = 0 := h.first first rfl
    rw [hourSpread]
    exact LeastSquares.squares_le_spread (fun p : Float × Float => real p.1) hfirst rest

theorem squares_nonneg (points : List (Float × Float)) :
    0 ≤ (points.map fun p => real p.1 * real p.1).sum :=
  List.sum_nonneg (List.forall_mem_map.2 fun _ _ => mul_self_nonneg _)

theorem sum_abs_nonneg (points : List (Float × Float)) : 0 ≤ (points.map fun p => |real p.1|).sum :=
  List.sum_nonneg (List.forall_mem_map.2 fun _ _ => abs_nonneg _)

theorem AreHours.hourSpread_nonneg (h : AreHours points) : 0 ≤ hourSpread points :=
  (squares_nonneg points).trans h.squares_le

/-! ### The slope -/

/-- How far rounding may take the slope through one value. -/
noncomputable def drift (points : List (Float × Float)) (v : Float) : ℝ :=
  points.length ^ 2 * (points.map fun p => |real p.1|).sum * max |real v| 1 /
    ((2 : ℕ) ^ 46 * hourSpread points)

theorem quotient_le_drift {n : ℕ} {total size D : ℝ} (htotal : 0 ≤ total) (hsize : 0 ≤ size)
    (hD : 0 < D) :
    2 * (2 * ((2 * n + 3) * roundoff) * (2 * n * total * size) / (D / 2)) ≤
      n ^ 2 * total * size / (2 ^ 46 * D) := by
  have hn : (n : ℝ) ≤ n ^ 2 := by exact_mod_cast Nat.le_self_pow two_ne_zero n
  have hu : roundoff = 1 / (128 * 2 ^ 46) := by norm_num [roundoff]
  have hproduct := mul_nonneg htotal hsize
  calc 2 * (2 * ((2 * n + 3) * roundoff) * (2 * n * total * size) / (D / 2))
      = (2 * n ^ 2 + 3 * n) * (total * size) / 8 / (2 ^ 46 * D) := by
        rw [hu]
        field_simp
        ring
    _ ≤ n ^ 2 * total * size / (2 ^ 46 * D) := by
        gcongr
        nlinarith

theorem AreHours.drift_nonneg (h : AreHours points) (v : Float) : 0 ≤ drift points v := by
  have hspread := h.hourSpread_nonneg
  have hhours := sum_abs_nonneg points
  rw [drift]
  positivity

section FewPoints

variable (hn : points.length ≤ 2 ^ 23) (hx : AreHours points)
include hn

theorem roundings_le : 4 * points.length * ((2 * points.length + 3) * roundoff) ≤ 1 / 2 := by
  have hcount : (points.length : ℝ) ≤ 2 ^ 23 := by exact_mod_cast hn
  have hu := roundoff_pos
  calc 4 * points.length * ((2 * points.length + 3) * roundoff)
      ≤ 4 * 2 ^ 23 * ((2 * 2 ^ 23 + 3) * roundoff) := by gcongr
    _ ≤ 1 / 2 := by norm_num [roundoff]

theorem growth_codeviation :
    growth (2 * points.length + 3) - 1 ≤ 2 * ((2 * points.length + 3) * roundoff) := by
  have hcount : (points.length : ℝ) ≤ 2 ^ 23 := by exact_mod_cast hn
  have hu := roundoff_pos
  have hfew : 2 * ((2 * points.length + 3) * roundoff) ≤ 1 := by
    calc 2 * ((2 * points.length + 3) * roundoff) ≤ 2 * ((2 * 2 ^ 23 + 3) * roundoff) := by gcongr
      _ ≤ 1 := by norm_num [roundoff]
  have h := growth_le (k := 2 * points.length + 3) (by push_cast; exact hfew)
  push_cast at h
  linarith

include hx

theorem spread_error (h : (spread points).isFinite = true) :
    |real (spread points) - hourSpread points| ≤ hourSpread points / 2 := by
  have hwithin := within_codeviation (fun p _ => le_rfl) (fun p _ => le_rfl) hx.coarse hx.coarse
    (by norm_num) (by omega) h
  have hsquares := LeastSquares.sum_mul_self_le (fun p => |real p.1|) points
  have hnonneg := squares_nonneg points
  have hscale := hwithin.nonneg
  have herror := hwithin.error
  simp only [abs_mul_abs_self] at hsquares hscale herror
  generalize (points.map fun p => |real p.1|).sum = total at *
  calc |real (spread points) - hourSpread points|
      ≤ 2 * ((2 * points.length + 3) * roundoff) *
          (2 * points.length * (points.map fun p => real p.1 * real p.1).sum) :=
        herror.trans (mul_le_mul (growth_codeviation hn) (by linarith) hscale (by
          have := roundoff_pos
          positivity))
    _ = 4 * points.length * ((2 * points.length + 3) * roundoff) *
          (points.map fun p => real p.1 * real p.1).sum := by ring
    _ ≤ 1 / 2 * hourSpread points :=
        mul_le_mul (roundings_le hn) hx.squares_le hnonneg (by norm_num)
    _ = hourSpread points / 2 := by ring

theorem abs_rise_le (hv : ∀ p ∈ points, p.2 = v) (h : (rise points).isFinite = true) :
    |real (rise points)| ≤ 2 * ((2 * points.length + 3) * roundoff) *
      (2 * points.length * (points.map fun p => |real p.1|).sum * max |real v| 1) := by
  have hwithin := within_codeviation (G := fun _ => max |real v| 1) (fun p _ => le_rfl)
    (fun p hp => (hv p hp).symm ▸ le_max_left _ _) hx.coarse
    (fun _ _ => .inr (le_max_of_le_right (by norm_num))) (by norm_num) (by omega) h
  have hcross : (points.map fun p => real p.1 * real p.2) =
      points.map fun p => real p.1 * real v :=
    List.map_congr_left fun p hp => by rw [hv p hp]
  have hvalues : (points.map fun p => real p.2) = points.map fun _ => real v :=
    List.map_congr_left fun p hp => by rw [hv p hp]
  rw [hcross, hvalues] at hwithin
  simp only [List.sum_map_mul_right, List.map_const', List.sum_replicate, nsmul_eq_mul] at hwithin
  have herror := hwithin.error.trans
    (mul_le_mul_of_nonneg_right (growth_codeviation hn) hwithin.nonneg)
  have hzero (a b c : ℝ) : a * (b * c) - b * (a * c) = 0 := by ring
  rw [hzero, sub_zero] at herror
  exact herror.trans_eq (by ring)

theorem abs_slope_le (hv : ∀ p ∈ points, p.2 = v) :
    |real (coefficients points).1| ≤ drift points v := by
  obtain heq | ⟨slope, intercept, heq, hslope, _, hfinite, _, hspread⟩ := coefficients_cases points
  · rw [heq, real_zero, abs_zero]
    exact hx.drift_nonneg v
  rw [heq, hslope]
  rw [hslope] at hfinite
  have hrise := isFinite_of_imp (fun hinf => isFinite_div_eq_false hinf _) hfinite
  by_cases hS : (spread points).isFinite = true
  · have herror := spread_error hn hx hS
    have hpos : 0 < hourSpread points := by
      by_contra hzero
      refine hspread ((abs_lt_epsilon_iff hS).2 ?_)
      have hz : hourSpread points = 0 := le_antisymm (not_lt.1 hzero) hx.hourSpread_nonneg
      rw [hz, sub_zero, zero_div] at herror
      exact herror.trans_lt (by positivity)
    have hhalf : hourSpread points / 2 ≤ real (spread points) := by linarith [(abs_le.1 herror).1]
    have hle := (nearest_div hrise hS (by linarith)).abs_le_two_mul hfinite
    have habs := abs_rise_le hn hx hv hrise
    rw [abs_div, abs_of_pos (by linarith : 0 < real (spread points))] at hle
    calc |real (rise points / spread points)|
        ≤ 2 * (|real (rise points)| / real (spread points)) := hle
      _ ≤ 2 * (2 * ((2 * points.length + 3) * roundoff) *
            (2 * points.length * (points.map fun p => |real p.1|).sum * max |real v| 1) /
              (hourSpread points / 2)) := by
          have := (abs_nonneg _).trans habs
          gcongr
      _ ≤ drift points v := quotient_le_drift (sum_abs_nonneg points) (le_max_of_le_right zero_le_one) hpos
  · rw [isZero_iff.1 (isZero_div_of_infinite hrise (Bool.eq_false_iff.2 hS) hfinite), abs_zero]
    exact hx.drift_nonneg v

end FewPoints

/-! ### The variation -/

section OneValue

variable (hne : points ≠ []) (hv : ∀ p ∈ points, p.2 = v) (hfinite : v.isFinite = true)
include hne hv hfinite

theorem mean_error (hsize : (points.length + 3) * max |real v| 1 ≤ 2 ^ 25) :
    (mean points).isFinite = true ∧
      |real (mean points) - real v| ≤ 2 * ((points.length + 3) * roundoff) * max |real v| 1 := by
  have hlength := List.length_pos_of_ne_nil hne
  have hpos : (0 : ℝ) < points.length := Nat.cast_pos.2 hlength
  have hV : 1 ≤ max |real v| 1 := le_max_right _ _
  have hvV : |real v| ≤ max |real v| 1 := le_max_left _ _
  rw [mean, List.map_eq_replicate_iff.2 hv]
  generalize max |real v| 1 = V at *
  generalize points.length = n at *
  have hsum : (sumFrom 0.0 (List.replicate n v)).isFinite = true := by
    refine isFinite_sumFrom (e := 26) (fun x hx => ?_) (by norm_num) ?_
    · rw [List.eq_of_mem_replicate hx]
      exact hfinite
    · rw [List.map_replicate, List.sum_replicate, nsmul_eq_mul]
      norm_num
      nlinarith
  have hquot := (within_replicate hvV hsum).div_count hlength le_rfl hsum
    (by
      rw [mul_div_cancel_left₀ _ hpos.ne']
      exact Coarse.covers (e := 0) (.inr (by rwa [zpow_zero])) (by norm_num))
  rw [mul_div_cancel_left₀ _ hpos.ne', mul_div_cancel_left₀ _ hpos.ne'] at hquot
  obtain ⟨hnan, hone⟩ := ofNat_bounds hlength
  refine ⟨div_isFinite hsum hnan hone, hquot.error.trans (mul_le_mul_of_nonneg_right ?_ hquot.nonneg)⟩
  have hfew : 2 * ((n + 3 : ℕ) * roundoff) ≤ 1 := by
    push_cast
    norm_num [roundoff]
    nlinarith
  have hgrowth := growth_le hfew
  push_cast at hgrowth
  linarith

/-- The computed variation of one value is negligible as long as the squares of its roundings are. -/
theorem variation_lt (hsize : points.length * ((points.length + 3) * max |real v| 1) ^ 2 ≤ 2 ^ 49) :
    (variation points).abs < epsilon := by
  have hlength := List.length_pos_of_ne_nil hne
  have hn : (1 : ℝ) ≤ points.length := Nat.one_le_cast.2 hlength
  have hsquare : ((points.length + 3) * max |real v| 1) ^ 2 ≤ (2 ^ 25) ^ 2 :=
    (le_mul_of_one_le_left (sq_nonneg _) hn).trans (hsize.trans (by norm_num))
  have hle := le_of_sq_le_sq hsquare (by positivity)
  obtain ⟨hmean, herror⟩ := mean_error hne hv hfinite hle
  have hmap : (points.map fun p => (p.2 - mean points) * (p.2 - mean points)) =
      List.replicate points.length ((v - mean points) * (v - mean points)) :=
    List.map_eq_replicate_iff.2 fun p hp => by rw [hv p hp]
  rw [variation, hmap]
  rw [mul_assoc 2, mul_right_comm _ roundoff, abs_sub_comm] at herror
  have hw0 : 0 ≤ (points.length + 3) * max |real v| 1 := by positivity
  generalize (points.length + 3) * max |real v| 1 = w at *
  have hsmall : w * roundoff ≤ 1 / 4 := by
    calc w * roundoff ≤ 2 ^ 25 * roundoff := mul_le_mul_of_nonneg_right hle roundoff_pos.le
      _ ≤ 1 / 4 := by norm_num [roundoff]
  have hd : (v - mean points).isFinite = true :=
    (nearest_sub hfinite hmean).isFinite_of_abs_le_one (by linarith)
  refine sum_squares_lt hlength hd (?_ : |real (v - mean points)| ≤ 2.02 * (w * roundoff)) ?_
  · have hround := sub_error hd
    have hside := abs_sub_abs_le_abs_sub (real (v - mean points)) (real v - real (mean points))
    nlinarith [roundoff_le, abs_nonneg (real v - real (mean points))]
  · calc 4 * (points.length * (2.02 * (w * roundoff)) ^ 2)
        = 16.3216 * (points.length * w ^ 2) * roundoff ^ 2 := by ring
      _ ≤ 16.3216 * 2 ^ 49 * roundoff ^ 2 := by gcongr
      _ < 2 ^ (-52 : ℤ) := by norm_num [roundoff]

end OneValue

end FleetHealth.Capacity.Line
