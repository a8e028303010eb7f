import FleetHealth.Proofs.Binary64.Bounds

/-!
# Doubles as real numbers

A finite double stands for a real number, and doubles compare as these numbers do. A product, a
quotient by a positive number and a double made from a natural number are nearest to the exact result,
an infinity where that is past the greatest double. What is nearest keeps the order of numbers.
-/
namespace FleetHealth.Binary64

open Float.Model Float.Model.UnpackedFloat

variable {x y z : Float} {v w : ℝ}

/-- A magnitude with its sign. -/
noncomputable def signed : Sign → ℝ → ℝ
  | .negative, v => -v
  | .positive, v => v

/-- The number that a finite double stands for. -/
noncomputable def real (x : Float) : ℝ := signed (sign x) (value (magnitudeBits x))

theorem signed_mul (s s' : Sign) (v w : ℝ) : signed s v * signed s' w = signed (s * s') (v * w) := by
  cases s <;> cases s' <;> simp [signed]

theorem signed_div (s : Sign) (v w : ℝ) : signed s v / w = signed s (v / w) := by
  cases s <;> simp [signed, neg_div]

theorem position_eq (x : Float) : position x = (sign x).apply (magnitudeBits x) := by
  unfold position sign
  cases signBit x <;> rfl

theorem value_eq_zero_iff {b : ℕ} : value b = 0 ↔ b = 0 := by
  rw [← value_zero, value_strictMono.injective.eq_iff]

theorem real_le_iff : real x ≤ real y ↔ position x ≤ position y := by
  rw [position_eq, position_eq, real, real]
  generalize magnitudeBits x = a
  generalize magnitudeBits y = b
  have ha := value_nonneg a
  have hb := value_nonneg b
  cases sign x with
  | negative =>
    cases sign y with
    | negative =>
      simp only [signed, Sign.apply, neg_le_neg_iff, value_strictMono.le_iff_le, Nat.cast_le]
    | positive =>
      simp only [signed, Sign.apply]
      exact iff_of_true (by linarith) (by omega)
  | positive =>
    cases sign y with
    | negative =>
      simp only [signed, Sign.apply]
      constructor
      · intro h
        have ha0 := value_eq_zero_iff.1 (le_antisymm (by linarith) ha)
        have hb0 := value_eq_zero_iff.1 (le_antisymm (by linarith) hb)
        omega
      · intro h
        obtain ⟨rfl, rfl⟩ : a = 0 ∧ b = 0 := by omega
        simp [value_zero]
    | positive => simp only [signed, Sign.apply, value_strictMono.le_iff_le, Nat.cast_le]

theorem real_zero : real 0.0 = 0 := by
  have hbits : magnitudeBits 0.0 = 0 := by decide
  have hsign : signBit 0.0 = false := by decide
  simp [real, sign, hsign, hbits, signed, value_zero]

theorem real_nonneg (h : 0.0 ≤ x) : 0 ≤ real x :=
  real_zero ▸ real_le_iff.2 (le_iff.1 h).2.2

/-- The double `x` is the one nearest to `v`, or an infinity if that is past the greatest double. -/
def Nearest (v : ℝ) (x : Float) : Prop :=
  ∃ s m b, 0 ≤ m ∧ v = signed s m ∧ Rounds m b ∧ position x = s.apply (min b infinityBits : ℕ)

theorem nearest_of_sign {m : ℝ} (hm : 0 ≤ m)
    (h : ∃ b, Rounds m b ∧ magnitudeBits x = min b infinityBits) : Nearest (signed (sign x) m) x := by
  obtain ⟨b, hb, hbits⟩ := h
  exact ⟨sign x, m, b, hm, rfl, hb, by rw [position_eq, hbits]⟩

theorem nearest_real (hx : x.isFinite = true) : Nearest (real x) x :=
  nearest_of_sign (value_nonneg _) ⟨_, rounds_value _, (min_eq_left ((isFinite_iff x).1 hx).le).symm⟩

theorem Nearest.isNaN (h : Nearest v x) : x.isNaN = false := by
  obtain ⟨s, m, b, _, _, _, hposition⟩ := h
  have habs := congrArg Int.natAbs hposition
  rw [position_natAbs, sign_apply_natAbs, Int.natAbs_natCast] at habs
  rw [← Bool.not_eq_true, isNaN_iff, habs]
  omega

theorem Nearest.position_le (hx : Nearest v x) (hy : Nearest w y) (h : v ≤ w) :
    position x ≤ position y := by
  obtain ⟨s, m, b, hm, rfl, hb, hx⟩ := hx
  obtain ⟨s', m', b', hm', rfl, hb', hy⟩ := hy
  have hzero {m : ℝ} {b : ℕ} (hb : Rounds m b) (hm : m = 0) : b = 0 :=
    hb.unique (hm ▸ value_zero ▸ rounds_value 0)
  rw [hx, hy]
  cases s with
  | negative =>
    cases s' with
    | negative =>
      have := hb'.mono hb (neg_le_neg_iff.1 h)
      simp only [Sign.apply]
      omega
    | positive =>
      simp only [Sign.apply]
      omega
  | positive =>
    cases s' with
    | negative =>
      simp only [signed] at h
      have hb0 := hzero hb (by linarith)
      have hb0' := hzero hb' (by linarith)
      simp only [Sign.apply]
      omega
    | positive =>
      have := hb.mono hb' h
      simp only [Sign.apply]
      omega

/-- What is nearest to a number is at most what is nearest to a greater one. -/
theorem Nearest.mono (hx : Nearest v x) (hy : Nearest w y) (h : v ≤ w) : x ≤ y :=
  le_iff.2 ⟨hx.isNaN, hy.isNaN, hx.position_le hy h⟩

/-- What stands between finite doubles is finite. -/
theorem isFinite_of_between (hx : x.isFinite = true) (hz : z.isFinite = true) (hxy : x ≤ y)
    (hyz : y ≤ z) : y.isFinite = true := by
  have hlow := (le_iff.1 hxy).2.2
  have hhigh := (le_iff.1 hyz).2.2
  rw [isFinite_iff, ← position_natAbs] at *
  omega

theorem nearest_zero : Nearest 0 0.0 := real_zero ▸ nearest_real (by decide)

/-- Scaling up or down, with rounding, keeps the order of doubles that are not negative. -/
theorem scaled_mono {op : Float → Float} {c : ℝ} (hc : 0 ≤ c)
    (hop : ∀ x : Float, x.isFinite = true → Nearest (real x * c) (op x)) (hy : y.isFinite = true)
    (h0 : 0.0 ≤ x) (hxy : x ≤ y) : 0.0 ≤ op x ∧ op x ≤ op y := by
  have hx := isFinite_of_between (by decide) hy h0 hxy
  have hreal : real x ≤ real y := real_le_iff.2 (le_iff.1 hxy).2.2
  exact ⟨nearest_zero.mono (hop x hx) (mul_nonneg (real_nonneg h0) hc),
    (hop x hx).mono (hop y hy) (mul_le_mul_of_nonneg_right hreal hc)⟩

/-! ### Operations -/

theorem nearest_mul (hx : x.isFinite = true) (hy : y.isFinite = true) :
    Nearest (real x * real y) (x * y) := by
  rw [real, real, signed_mul, ← sign_mul hx hy]
  exact nearest_of_sign (mul_nonneg (value_nonneg _) (value_nonneg _)) (magnitudeBits_mul hx hy)

theorem sign_of_real_pos (h : 0 < real x) : sign x = .positive := by
  cases hs : sign x with
  | negative =>
    rw [real, hs, signed] at h
    linarith [value_nonneg (magnitudeBits x)]
  | positive => rfl

theorem real_of_sign (h : sign x = .positive) : real x = value (magnitudeBits x) := by
  rw [real, h, signed]

theorem nearest_div (hx : x.isFinite = true) (hy : y.isFinite = true) (hpos : 0 < real y) :
    Nearest (real x / real y) (x / y) := by
  have hs := sign_of_real_pos hpos
  rw [real_of_sign hs] at hpos ⊢
  rw [real, signed_div, ← sign_div hx hy (magnitudeBits_pos hpos) hs]
  exact nearest_of_sign (div_nonneg (value_nonneg _) (value_nonneg _))
    (magnitudeBits_div hx hy (magnitudeBits_pos hpos))

theorem signOf_mul_finite {s s' : Sign} {m m' : ℕ} {e e' : ℤ} {hm : 0 < m} {hm' : 0 < m'} :
    signOf (UnpackedFloat.mul .binary64 (.finite s m e hm) (.finite s' m' e' hm')) = s * s' :=
  signOf_roundWithAccuracy ..

theorem sign_ofNat (n : ℕ) : sign (Float.ofNat n) = .positive := by
  by_cases hn : n < 2 ^ 53
  · exact (ofNat_exact hn).2.2
  · have hpos : n ≠ 0 := by omega
    have hlow : ¬ (0 : ℤ) < -((2 ^ Format.binary64.exponentBits : ℤ) + n.log2) := by
      have : (0 : ℤ) ≤ 2 ^ Format.binary64.exponentBits + n.log2 := by positivity
      linarith
    change sign (Float.ofScientific n false 0) = _
    unfold Float.ofScientific
    rw [dif_neg fun h => hn h.1]
    change sign (.ofModel (.pack (UnpackedFloat.ofScientific .binary64 n 0))) = _
    rw [sign_ofModel, UnpackedFloat.ofScientific, dif_neg hpos, if_neg (by decide), if_neg hlow,
      if_pos le_rfl]
    exact signOf_mul_finite

theorem nearest_ofNat (n : ℕ) : Nearest n (Float.ofNat n) := by
  have h := nearest_of_sign (x := Float.ofNat n) (Nat.cast_nonneg n) (magnitudeBits_ofNat n)
  rwa [sign_ofNat] at h

/-- Division by a count scales, if only by nothing where the count is past the greatest double. -/
theorem exists_nearest_div_ofNat {n : ℕ} (hn : 1 ≤ n) :
    ∃ c : ℝ, 0 ≤ c ∧ ∀ x : Float, x.isFinite = true → Nearest (real x * c) (x / Float.ofNat n) := by
  obtain ⟨hnan, hone⟩ := ofNat_bounds hn
  by_cases hfinite : (Float.ofNat n).isFinite = true
  · have hpos : 0 < real (Float.ofNat n) := by
      rw [real_of_sign (sign_ofNat n)]
      linarith
    refine ⟨(real (Float.ofNat n))⁻¹, by positivity, fun x hx => ?_⟩
    rw [← div_eq_mul_inv]
    exact nearest_div hx hfinite hpos
  · have hinfinity : magnitudeBits (Float.ofNat n) = infinityBits := by
      have := magnitudeBits_le hnan
      rw [isFinite_iff] at hfinite
      omega
    refine ⟨0, le_rfl, fun x hx => ?_⟩
    have h := nearest_of_sign (x := x / Float.ofNat n) le_rfl
      ⟨0, value_zero ▸ rounds_value 0, by simp [magnitudeBits_div_infinity hx hinfinity]⟩
    rw [mul_zero]
    cases hs : sign (x / Float.ofNat n) with
    | positive => simpa [hs, signed] using h
    | negative => simpa [hs, signed] using h

theorem sign_neg (x : Float) (hx : x.isFinite = true) : sign (-x) = -sign x := by
  change sign (.ofModel (.pack x.toModel.unpack.neg)) = _
  rw [sign_ofModel, ← signOf_unpack hx]
  have hu : x.toModel.unpack.isFinite = true := hx
  generalize x.toModel.unpack = u at hu
  cases u with
  | notANumber => cases hu
  | infinity s => cases hu
  | zero s => rfl
  | finite s m e hm => rfl

end FleetHealth.Binary64
