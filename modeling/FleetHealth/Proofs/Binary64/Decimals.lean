import FleetHealth.Binary64
import FleetHealth.Proofs.Binary64.Ranks
import FleetHealth.Proofs.Binary64.Signed

/-!
# Order through rounding

Taking the integer part, rounding to an integer and rounding to decimal places keep the order of finite
doubles, also where one of two is too large to scale. Clamping puts every double but NaN between its
bounds.
-/
namespace FleetHealth.Binary64

open Float.Model Float.Model.UnpackedFloat

variable {x y : Float}

/-! ### Integers -/

/-- A function of magnitudes that goes by the sign of its argument. -/
noncomputable def withSign (f : ℝ → ℕ) (v : ℝ) : ℤ := if v < 0 then -(f (-v) : ℤ) else f v

theorem withSign_mono {f : ℝ → ℕ} (hf : Monotone f) : Monotone (withSign f) := by
  intro v w h
  unfold withSign
  split
  next hv =>
    split
    next hw =>
      have := hf (neg_le_neg h)
      omega
    next hw => omega
  next hv =>
    rw [if_neg (by linarith)]
    exact_mod_cast hf h

theorem withSign_real {f : ℝ → ℕ} (hf : f 0 = 0) (x : Float) :
    withSign f (real x) = (sign x).apply (f (value (magnitudeBits x))) := by
  have hvalue := value_nonneg (magnitudeBits x)
  rw [real]
  generalize value (magnitudeBits x) = m at hvalue
  cases sign x with
  | positive => exact if_neg (not_lt.2 hvalue)
  | negative =>
    simp only [signed, withSign, Sign.apply, neg_neg]
    split
    next => rfl
    next hm =>
      obtain rfl : m = 0 := by linarith
      simp [hf]

theorem floor_eq (x : Float) : (Scaled.ofFloat x).floor = ⌊value (magnitudeBits x)⌋₊ := by
  rw [value_magnitudeBits]
  generalize Scaled.ofFloat x = s
  obtain ⟨negative, m, e⟩ := s
  cases e with
  | ofNat k =>
    have hexact : (m * 2 ^ (k : ℤ) : ℝ) = (m * 2 ^ k : ℕ) := by push_cast; rfl
    simp only [Scaled.floor, Int.ofNat_eq_natCast, hexact, Nat.floor_natCast, Nat.pow_eq]
  | negSucc k =>
    have hexact : (m * 2 ^ (Int.negSucc k) : ℝ) = (m : ℝ) / (2 ^ (k + 1) : ℕ) := by
      rw [zpow_negSucc, ← div_eq_mul_inv]
      push_cast
      rfl
    simp only [Scaled.floor, hexact, Nat.floor_div_eq_div, Nat.pow_eq]

theorem nearest_eq (x : Float) :
    (Scaled.ofFloat x).nearest = ⌊value (magnitudeBits x) + 1 / 2⌋₊ := by
  rw [value_magnitudeBits]
  generalize Scaled.ofFloat x = s
  obtain ⟨negative, m, e⟩ := s
  cases e with
  | ofNat k =>
    have hexact : (m * 2 ^ (k : ℤ) : ℝ) = (m * 2 ^ k : ℕ) := by push_cast; rfl
    have hhalf : ⌊((m * 2 ^ k : ℕ) : ℝ) + 1 / 2⌋₊ = m * 2 ^ k :=
      (Nat.floor_eq_iff (by positivity)).2 ⟨by linarith, by linarith⟩
    simp only [Scaled.nearest, Int.ofNat_eq_natCast, hexact, hhalf, Nat.pow_eq]
  | negSucc k =>
    have hexact : (m * 2 ^ (Int.negSucc k) + 1 / 2 : ℝ) =
        ((m + 2 ^ k : ℕ) : ℝ) / (2 ^ (k + 1) : ℕ) := by
      rw [zpow_negSucc, ← div_eq_mul_inv, pow_succ]
      push_cast
      field_simp
      ring
    simp only [Scaled.nearest, hexact, Nat.floor_div_eq_div, Nat.pow_eq]

theorem negative_ofFloat (x : Float) : (Scaled.ofFloat x).negative = signBit x := by
  simp only [Scaled.ofFloat]
  split <;> rfl

theorem truncate_eq (x : Float) : truncate x = withSign Nat.floor (real x) := by
  rw [withSign_real Nat.floor_zero, truncate, floor_eq, negative_ofFloat, sign]
  cases signBit x <;> rfl

theorem truncate_mono (h : x ≤ y) : truncate x ≤ truncate y := by
  rw [truncate_eq, truncate_eq]
  exact withSign_mono Nat.floor_mono (real_le_iff.2 (le_iff.1 h).2.2)

theorem natAbs_truncate (x : Float) : (truncate x).natAbs = ⌊value (magnitudeBits x)⌋₊ := by
  simp only [truncate, floor_eq]
  split
  · exact (Int.natAbs_neg _).trans (Int.natAbs_natCast _)
  · exact Int.natAbs_natCast _

/-- What is not finite has no integer part that a word could hold. -/
theorem two_pow_le_natAbs_truncate (hx : x.isFinite = false) : 2 ^ 64 ≤ (truncate x).natAbs := by
  have hbits : infinityBits ≤ magnitudeBits x := by
    rw [← Bool.not_eq_true, isFinite_iff] at hx
    omega
  have hvalue := value_strictMono.monotone hbits
  rw [value_infinityBits] at hvalue
  have hword : (2 : ℝ) ^ (64 : ℤ) ≤ 2 ^ (1024 : ℤ) :=
    zpow_le_zpow_right₀ (by norm_num) (by norm_num)
  rw [natAbs_truncate]
  refine Nat.le_floor ((le_of_eq ?_).trans (hword.trans hvalue))
  norm_num

theorem position_neg (hx : x.isFinite = true) : position (-x) = -position x := by
  rw [position_eq, position_eq, sign_neg x hx, magnitudeBits_neg hx]
  cases sign x with
  | negative => exact (neg_neg _).symm
  | positive => rfl

theorem position_abs (hx : x.isFinite = true) : position x.abs = (position x).natAbs := by
  rw [position_natAbs, position, signBit_abs, magnitudeBits_abs hx]
  rfl

theorem isNaN_abs (hx : x.isFinite = true) : x.abs.isNaN = false := by
  refine isNaN_eq_false ((isFinite_iff _).2 ?_)
  rw [magnitudeBits_abs hx]
  exact (isFinite_iff x).1 hx

theorem isNaN_neg (hx : x.isFinite = true) : (-x).isNaN = false :=
  isNaN_eq_false ((isFinite_neg x).trans hx)

theorem abs_le_iff (hx : x.isFinite = true) (hy : y.isFinite = true) :
    x.abs ≤ y ↔ -y ≤ x ∧ x ≤ y := by
  simp only [le_iff, isNaN_abs hx, isNaN_neg hy, isNaN_eq_false hx, isNaN_eq_false hy,
    position_abs hx, position_neg hy, true_and]
  omega

theorem le_abs_iff (hx : x.isFinite = true) (hy : y.isFinite = true) (h0 : 0.0 ≤ y) :
    y ≤ x.abs ↔ x ≤ -y ∨ y ≤ x := by
  have hpos := (le_iff.1 h0).2.2
  rw [show position 0.0 = 0 by decide] at hpos
  simp only [le_iff, isNaN_abs hx, isNaN_neg hy, isNaN_eq_false hx, isNaN_eq_false hy,
    position_abs hx, position_neg hy, true_and]
  omega

/-- A number above a threshold that is not negative is its own magnitude. -/
theorem lt_abs_of_lt {x low high : Float} (hx : x.isFinite = true) (h0 : 0.0 ≤ low) (hle : low ≤ high)
    (h : high < x) : low < x.abs := by
  have hzero : position 0.0 = 0 := by decide
  have hpos := (le_iff.1 h0).2.2
  have hup := (le_iff.1 hle).2.2
  have hover := (lt_iff.1 h).2.2
  refine lt_iff.2 ⟨(le_iff.1 hle).1, isNaN_abs hx, ?_⟩
  rw [position_abs hx]
  omega

/-- Rounding to an integer goes to the nearest one, a half away from zero, and then to the double made
from it. -/
theorem nearest_roundHalfAway (hx : x.isFinite = true) :
    Nearest (withSign (fun v => ⌊v + 1 / 2⌋₊) (real x)) (roundHalfAway x) := by
  rw [withSign_real (by norm_num), ← nearest_eq]
  have hnat := nearest_ofNat (Scaled.ofFloat x).nearest
  simp only [roundHalfAway, hx, if_true, negative_ofFloat]
  rw [sign]
  cases signBit x with
  | false => simpa [Sign.apply] using hnat
  | true =>
    obtain ⟨s, m, b, hm, hv, hb, hposition⟩ := hnat
    refine ⟨-s, m, b, hm, ?_, hb, ?_⟩
    · simp only [if_true, Sign.apply, Int.cast_neg, Int.cast_natCast, hv]
      cases s with
      | negative => exact neg_neg m
      | positive => rfl
    · simp only [if_true, position_neg (isFinite_ofNat_nearest hx), hposition]
      cases s with
      | negative => exact neg_neg _
      | positive => rfl

theorem roundHalfAway_position_le (hx : x.isFinite = true) (hy : y.isFinite = true)
    (h : position x ≤ position y) : position (roundHalfAway x) ≤ position (roundHalfAway y) := by
  refine (nearest_roundHalfAway hx).position_le (nearest_roundHalfAway hy) (Int.cast_le.2 ?_)
  refine withSign_mono (fun v w hvw => Nat.floor_mono ?_) (real_le_iff.2 h)
  linarith

/-! ### Decimal places -/

variable {places : ℤ}

/-- The number whose nearest double rounding to decimal places gives. -/
noncomputable def decimal (places : ℤ) (x : Float) : ℝ :=
  if (x * powerOfTen places).isFinite then
    real (roundHalfAway (x * powerOfTen places)) / real (powerOfTen places)
  else real x

theorem powerOfTen_pos (h : 1 ≤ places) (h' : places ≤ 4) :
    (powerOfTen places).isFinite = true ∧ 0 < real (powerOfTen places) := by
  have hall : ∀ x ∈ ([10.0, 100.0, 1000.0, 10000.0] : List Float),
      x.isFinite = true ∧ signBit x = false := by decide
  obtain ⟨hfinite, hsign⟩ := hall _ (powerOfTen_mem h h')
  obtain ⟨_, hone⟩ := powerOfTen_bounds h h'
  refine ⟨hfinite, ?_⟩
  rw [real_of_sign (by rw [sign, hsign]; rfl)]
  linarith

theorem nearest_roundTo (h : 1 ≤ places) (h' : places ≤ 4) (hx : x.isFinite = true) :
    Nearest (decimal places x) (roundTo x places) := by
  obtain ⟨hp, hpos⟩ := powerOfTen_pos h h'
  rw [decimal]
  simp only [roundTo, hx, if_true]
  split
  next hscaled =>
    have hquot := nearest_div (isFinite_roundHalfAway hscaled) hp hpos
    split
    next hzero =>
      -- either zero is the nearest double
      obtain ⟨s, m, b, hm, hv, hb, hposition⟩ := hquot
      exact ⟨s, m, b, hm, hv, hb, (beq_iff.1 hzero).2.2.symm.trans hposition⟩
    next => exact hquot
  next => exact nearest_real hx

/-- A number too large to scale is not passed by a smaller one that is scaled, rounded and scaled
back. -/
theorem decimal_mono (h : 1 ≤ places) (h' : places ≤ 4) (hx : x.isFinite = true)
    (hy : y.isFinite = true) (hle : x ≤ y) : decimal places x ≤ decimal places y := by
  obtain ⟨hp, hpos⟩ := powerOfTen_pos h h'
  unfold decimal
  generalize powerOfTen places = p at hp hpos
  have hreal : real x ≤ real y := real_le_iff.2 (le_iff.1 hle).2.2
  have hsx := nearest_mul hx hp
  have hsy := nearest_mul hy hp
  have hscaled := hsx.mono hsy (mul_le_mul_of_nonneg_right hreal hpos.le)
  split
  next hfx =>
    have hrx := nearest_real (isFinite_roundHalfAway hfx)
    split
    next hfy =>
      exact div_le_div_of_nonneg_right
        (real_le_iff.2 (roundHalfAway_position_le hfx hfy (le_iff.1 hscaled).2.2)) hpos.le
    next hfy =>
      rw [div_le_iff₀ hpos]
      by_contra hlt
      exact hfy (isFinite_of_between hfx (isFinite_roundHalfAway hfx) hscaled
        (hsy.mono hrx (not_le.1 hlt).le))
  next hfx =>
    split
    next hfy =>
      have hry := nearest_real (isFinite_roundHalfAway hfy)
      rw [le_div_iff₀ hpos]
      by_contra hlt
      exact hfx (isFinite_of_between (isFinite_roundHalfAway hfy) hfy
        (hry.mono hsx (not_le.1 hlt).le) hscaled)
    next => exact hreal

/-- Rounding to decimal places keeps the order of finite doubles. -/
theorem roundTo_mono (h : 1 ≤ places) (h' : places ≤ 4) (hx : x.isFinite = true)
    (hy : y.isFinite = true) (hle : x ≤ y) : roundTo x places ≤ roundTo y places :=
  (nearest_roundTo h h' hx).mono (nearest_roundTo h h' hy) (decimal_mono h h' hx hy hle)

/-! ### Bounds -/

/-- A finite double that rounding to decimal places leaves alone. -/
structure IsDecimal (places : ℤ) (x : Float) : Prop where
  few : 1 ≤ places ∧ places ≤ 4
  finite : x.isFinite = true
  fixed : roundTo x places = x

instance : Decidable (IsDecimal places x) :=
  decidable_of_iff ((1 ≤ places ∧ places ≤ 4) ∧ x.isFinite = true ∧ roundTo x places = x)
    ⟨fun h => ⟨h.1, h.2.1, h.2.2⟩, fun h => ⟨h.few, h.finite, h.fixed⟩⟩

namespace IsDecimal

variable {bound : Float} (h : IsDecimal places bound) (hx : x.isFinite = true)
include h hx

theorem le_roundTo (hle : bound ≤ x) : bound ≤ roundTo x places := by
  have hround := roundTo_mono h.few.1 h.few.2 h.finite hx hle
  rwa [h.fixed] at hround

theorem roundTo_le (hle : x ≤ bound) : roundTo x places ≤ bound := by
  have hround := roundTo_mono h.few.1 h.few.2 hx h.finite hle
  rwa [h.fixed] at hround

end IsDecimal

/-- Clamping leaves NaN alone and puts everything else between the bounds. -/
theorem clamp_bounds {low high : Float} (h : low ≤ high) (x : Float) :
    (clamp low high x).isNaN = true ∨ low ≤ clamp low high x ∧ clamp low high x ≤ high := by
  obtain ⟨hl, hh, _⟩ := le_iff.1 h
  have hraised : (if x < low then low else x).isNaN = true ∨ low ≤ (if x < low then low else x) := by
    split
    next => exact .inr (le_iff.2 ⟨hl, hl, le_rfl⟩)
    next hlt =>
      rcases not_lt_iff.1 hlt with hnan | hnan | hle
      · exact .inl hnan
      · rw [hl] at hnan
        cases hnan
      · exact .inr hle
  simp only [clamp]
  generalize (if x < low then low else x) = raised at hraised
  split
  next => exact .inr ⟨h, le_iff.2 ⟨hh, hh, le_rfl⟩⟩
  next hgt =>
    refine hraised.imp id fun hle => ⟨hle, ?_⟩
    rcases not_lt_iff.1 hgt with hnan | hnan | hle'
    · rw [hh] at hnan
      cases hnan
    · rw [(le_iff.1 hle).2.1] at hnan
      cases hnan
    · exact hle'

end FleetHealth.Binary64
