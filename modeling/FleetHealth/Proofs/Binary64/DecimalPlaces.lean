import FleetHealth.Proofs.Binary64.Zeros

/-!
# Rounding to decimal places

A double is rounded by scaling, rounding to an integer and scaling back; one that is too large to be
scaled stays as it is, and a zero is made positive. Across all of these, rounding to one to four places
keeps the order of finite doubles, gives a finite double that is no negative zero, and turns the sign
with the sign of what it rounds, up to the sign of a zero.
-/
namespace FleetHealth.Binary64

open Float.Model Float.Model.UnpackedFloat

variable {x y : Float} {places : ℤ}

/-! ### Opposite doubles -/

/-- The product of an opposite leaves the range of doubles where the product does. -/
theorem isFinite_neg_mul (hx : x.isFinite = true) (hy : y.isFinite = true) :
    (-x * y).isFinite = (x * y).isFinite := by
  have hneg : (-x).isFinite = true := (isFinite_neg x).trans hx
  obtain ⟨b, hb, hbits⟩ := magnitudeBits_mul hx hy
  obtain ⟨c, hc, hcbits⟩ := magnitudeBits_mul hneg hy
  rw [magnitudeBits_neg hx] at hc
  rw [Bool.eq_iff_iff, isFinite_iff, isFinite_iff, hbits, hcbits, hb.unique hc]

theorem real_neg_mul (hx : x.isFinite = true) (hy : y.isFinite = true)
    (hfinite : (x * y).isFinite = true) : real (-x * y) = -real (x * y) := by
  have hproduct := nearest_mul ((isFinite_neg x).trans hx) hy
  rw [real_neg hx, neg_mul] at hproduct
  rw [← real_neg hfinite]
  exact (hproduct.sameUpToZero ((nearest_mul hx hy).neg hfinite)).real_eq

theorem withSign_neg {f : ℝ → ℕ} (hf : f 0 = 0) (v : ℝ) : withSign f (-v) = -withSign f v := by
  unfold withSign
  rcases lt_trichotomy v 0 with hv | rfl | hv
  · rw [if_neg (by linarith), if_pos hv, neg_neg]
  · simp [hf]
  · rw [if_pos (by linarith), if_neg (by linarith), neg_neg]

/-- Rounding to an integer goes by the magnitude alone. -/
theorem real_roundHalfAway_of_neg (hx : x.isFinite = true) (hy : y.isFinite = true)
    (h : real y = -real x) : real (roundHalfAway y) = -real (roundHalfAway x) := by
  have hfinite := isFinite_roundHalfAway hx
  have hround := nearest_roundHalfAway hy
  rw [h, withSign_neg (by norm_num), Int.cast_neg] at hround
  rw [← real_neg hfinite]
  exact (hround.sameUpToZero ((nearest_roundHalfAway hx).neg hfinite)).real_eq

/-! ### Rounding opposites -/

theorem decimal_neg (h : 1 ≤ places) (h' : places ≤ 4) (hx : x.isFinite = true) :
    decimal places (-x) = -decimal places x := by
  obtain ⟨hp, _⟩ := powerOfTen_pos h h'
  have hscale := isFinite_neg_mul hx hp
  unfold decimal
  rw [hscale]
  split
  next hscaled =>
    rw [real_roundHalfAway_of_neg hscaled (hscale.trans hscaled) (real_neg_mul hx hp hscaled), neg_div]
  next => exact real_neg hx

theorem roundTo_of_not_isFinite (hx : x.isFinite = false) (places : ℤ) : roundTo x places = 0.0 := by
  simp only [roundTo, hx, Bool.false_eq_true, if_false]

/-- The opposite rounds to the opposite, but for the sign of a zero. -/
theorem roundTo_neg (h : 1 ≤ places) (h' : places ≤ 4) (x : Float) :
    SameUpToZero (roundTo (-x) places) (-(roundTo x places)) := by
  have hneg := isFinite_neg x
  cases hx : x.isFinite with
  | true =>
    have hround := nearest_roundTo h h' (hneg.trans hx)
    rw [decimal_neg h h' hx] at hround
    exact hround.sameUpToZero ((nearest_roundTo h h' hx).neg (isFinite_roundTo x h h'))
  | false =>
    rw [roundTo_of_not_isFinite hx, roundTo_of_not_isFinite (hneg.trans hx)]
    exact .inr ⟨by unfold IsZero; decide, by unfold IsZero; decide⟩

/-! ### All regimes together -/

/-- Rounding to one to four places keeps the order of finite doubles, whether they are scaled or too
large for it. What it gives is finite and no negative zero, opposite for an opposite up to the sign of a
zero, and zero for what is not finite. -/
theorem roundTo_monotone_odd (h : 1 ≤ places) (h' : places ≤ 4) :
    (∀ v w : Float, v.isFinite = true → w.isFinite = true → v ≤ w →
      roundTo v places ≤ roundTo w places) ∧
    (∀ v : Float, (roundTo v places).isFinite = true ∧ ¬ IsNegativeZero (roundTo v places) ∧
      SameUpToZero (roundTo (-v) places) (-(roundTo v places))) ∧
    ∀ v : Float, v.isFinite = false → roundTo v places = 0.0 := by
  refine ⟨fun v w hv hw hle => roundTo_mono h h' hv hw hle, fun v => ⟨?_, ?_, ?_⟩, fun v hv => ?_⟩
  · exact isFinite_roundTo v h h'
  · exact not_isNegativeZero_roundTo v h h'
  · exact roundTo_neg h h' v
  · exact roundTo_of_not_isFinite hv places

/-- The greatest double that is scaled to four places and the next one, which is kept as it is; a value
that rounds to zero from below; and an infinity. -/
theorem roundTo_monotone_odd_overflow :
    ((1.7976931348623158e304 * powerOfTen 4).isFinite = true ∧
      (1.797693134862316e304 * powerOfTen 4).isFinite = false ∧
      roundTo 1.7976931348623158e304 4 ≤ roundTo 1.797693134862316e304 4) ∧
    (¬ IsNegativeZero (roundTo (-0.00001) 4) ∧
      SameUpToZero (roundTo (-0.00001) 4) (-(roundTo 0.00001 4))) ∧
    infinity.isFinite = false ∧ roundTo infinity 4 = 0.0 := by
  obtain ⟨hmono, hodd, hzero⟩ := @roundTo_monotone_odd 4 (by norm_num) le_rfl
  exact ⟨⟨by decide +kernel, by decide +kernel,
      hmono 1.7976931348623158e304 1.797693134862316e304 (by decide +kernel) (by decide +kernel)
        (by decide +kernel)⟩,
    ⟨(hodd (-0.00001)).2.1, (hodd 0.00001).2.2⟩, by decide, hzero infinity (by decide)⟩

end FleetHealth.Binary64
