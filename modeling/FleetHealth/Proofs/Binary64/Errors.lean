import FleetHealth.Proofs.Binary64.Decimals

/-!
# Rounding errors

No double is nearer to a number than the one it rounds to. The error is at most `roundoff` of the
number, or half the smallest double where that is more. A sum or a difference of doubles is a multiple
of the smallest double, so that its error is relative throughout.
-/
namespace FleetHealth.Binary64

open Float.Model Float.Model.UnpackedFloat

variable {x y : Float} {v w : ℝ} {b : ℕ}

/-- Half the distance from 1 to the next larger double. -/
noncomputable def roundoff : ℝ := (2 : ℕ) ^ (-53 : ℤ)

theorem roundoff_eq : roundoff = 2 ^ (-53 : ℤ) := by rw [roundoff, Nat.cast_ofNat]

theorem roundoff_pos : 0 < roundoff := by unfold roundoff; positivity

/-! ### One rounding -/

theorem RoundsBetween.error {k : ℕ} (h : RoundsBetween v k b) :
    |value b - v| ≤ v - value k ∧ |value b - v| ≤ value (k + 1) - v := by
  have hle := h.le
  have hlt := h.lt
  have hdown (hb : b = k) : |value b - v| = v - value k := by
    rw [hb, abs_sub_comm, abs_of_nonneg (by linarith)]
  have hup (hb : b = k + 1) : |value b - v| = value (k + 1) - v := by
    rw [hb, abs_of_nonneg (by linarith)]
  rcases lt_trichotomy (2 * v) (value k + value (k + 1)) with hside | hside | hside
  · rw [hdown (h.down hside)]
    exact ⟨le_rfl, by linarith⟩
  · have hb : b = k ∨ b = k + 1 := by
      have := h.bounds
      omega
    rcases hb with hb | hb
    · rw [hdown hb]
      exact ⟨le_rfl, by linarith⟩
    · rw [hup hb]
      exact ⟨by linarith, le_rfl⟩
  · rw [hup (h.up hside)]
    exact ⟨by linarith, le_rfl⟩

/-- No double is nearer. -/
theorem Rounds.abs_sub_le (h : Rounds v b) (c : ℕ) : |value b - v| ≤ |value c - v| := by
  obtain ⟨k, hk⟩ := h
  obtain ⟨hdown, hup⟩ := hk.error
  rcases Nat.lt_or_ge k c with hc | hc
  · have hvalue : value (k + 1) ≤ value c := value_strictMono.monotone hc
    linarith [le_abs_self (value c - v)]
  · have hvalue : value c ≤ value k := value_strictMono.monotone hc
    linarith [neg_abs_le (value c - v)]

/-- Neighbours are apart by a unit of their last digit. -/
theorem value_succ_sub (k : ℕ) :
    value (k + 1) - value k ≤ max (2 ^ (-52 : ℤ) * value k) (2 ^ (-1074 : ℤ)) := by
  obtain ⟨m, j, rfl, hm, hj⟩ := exists_significand k
  have hunit : (0 : ℝ) < 2 ^ ((j : ℤ) - 1074) := by positivity
  have hsucc := value_eq (m := m + 1) hm (hj.imp_left Nat.le_succ_of_le)
  rw [← Nat.add_assoc] at hsucc
  rw [hsucc, value_eq hm.le hj]
  push_cast
  rcases hj with hnormal | rfl
  · refine le_max_of_le_left ?_
    have hdigits : (2 : ℝ) ^ (52 : ℤ) ≤ m := by exact_mod_cast hnormal
    have hone : (1 : ℝ) ≤ 2 ^ (-52 : ℤ) * m := by
      rw [zpow_neg, inv_mul_eq_div, one_le_div (by positivity)]
      exact hdigits
    nlinarith
  · rw [Nat.cast_zero, zero_sub]
    exact le_max_of_le_right (by linarith)

theorem Rounds.error (h : Rounds v b) :
    |value b - v| ≤ max (roundoff * v) (2 ^ (-1075 : ℤ)) := by
  obtain ⟨k, hk⟩ := h
  obtain ⟨hdown, hup⟩ := hk.error
  have hgap := value_succ_sub k
  have hhalf : (2 : ℝ) ^ (-52 : ℤ) = 2 * roundoff := by
    rw [roundoff_eq, ← zpow_one_add₀ two_ne_zero]
    norm_num
  have hleast : (2 : ℝ) ^ (-1074 : ℤ) = 2 * 2 ^ (-1075 : ℤ) := by
    rw [← zpow_one_add₀ two_ne_zero]
    norm_num
  rw [hhalf, hleast, mul_assoc, ← mul_max_of_nonneg _ _ two_pos.le] at hgap
  have hscale : max (roundoff * value k) (2 ^ (-1075 : ℤ)) ≤ max (roundoff * v) (2 ^ (-1075 : ℤ)) :=
    max_le_max_right _ (mul_le_mul_of_nonneg_left hk.le roundoff_pos.le)
  linarith

theorem abs_signed (s : Sign) (v : ℝ) : |signed s v| = |v| := by
  cases s with
  | negative => exact abs_neg v
  | positive => rfl

theorem signed_sub (s : Sign) (v w : ℝ) : signed s v - signed s w = signed s (v - w) := by
  cases s <;> simp only [signed]
  ring

/-- The two zeros stand for one number. -/
theorem real_of_position {s : Sign} (h : position x = s.apply b) : real x = signed s (value b) := by
  have habs := congrArg Int.natAbs h
  rw [position_natAbs, sign_apply_natAbs, Int.natAbs_natCast] at habs
  rw [position_eq, habs] at h
  rw [real, habs]
  rcases Nat.eq_zero_or_pos b with rfl | hb
  · cases sign x <;> cases s <;> simp [signed, value_zero]
  · cases hs : sign x <;> cases s <;> simp only [hs, Sign.apply] at h ⊢ <;> omega

/-- A finite double that is nearest to a number has the magnitude that the number's rounds to. -/
theorem Nearest.exists_rounds (h : Nearest v x) (hx : x.isFinite = true) :
    ∃ b, Rounds |v| b ∧ |real x| = value b ∧ |real x - v| = |value b - (|v|)| := by
  obtain ⟨s, m, b, hm, rfl, hb, hposition⟩ := h
  have habs := congrArg Int.natAbs hposition
  rw [position_natAbs, sign_apply_natAbs, Int.natAbs_natCast] at habs
  rw [isFinite_iff] at hx
  rw [min_eq_left (by omega)] at hposition
  rw [real_of_position hposition, signed_sub, abs_signed, abs_signed, abs_signed, abs_of_nonneg hm,
    abs_of_nonneg (value_nonneg b)]
  exact ⟨b, hb, rfl, rfl⟩

theorem abs_real (x : Float) : |real x| = value (magnitudeBits x) := by
  rw [real, abs_signed, abs_of_nonneg (value_nonneg _)]

theorem real_neg (hx : x.isFinite = true) : real (-x) = -real x := by
  rw [real, real, sign_neg x hx, magnitudeBits_neg hx]
  cases sign x with
  | negative => exact (neg_neg _).symm
  | positive => rfl

theorem real_abs (hx : x.isFinite = true) : real x.abs = |real x| := by
  rw [abs_real, real_of_sign (by rw [sign, signBit_abs]; rfl), magnitudeBits_abs hx]

theorem isFinite_abs (hx : x.isFinite = true) : x.abs.isFinite = true := by
  rw [isFinite_iff, magnitudeBits_abs hx]
  exact (isFinite_iff x).1 hx

theorem le_iff_real_le (hx : x.isFinite = true) (hy : y.isFinite = true) :
    x ≤ y ↔ real x ≤ real y := by
  rw [le_iff, real_le_iff]
  simp only [isNaN_eq_false hx, isNaN_eq_false hy, true_and]

theorem lt_iff_real_lt (hx : x.isFinite = true) (hy : y.isFinite = true) :
    x < y ↔ real x < real y := by
  rw [lt_iff, ← not_le, ← real_le_iff, not_le]
  simp only [isNaN_eq_false hx, isNaN_eq_false hy, true_and]

theorem abs_lt_epsilon_iff (hx : x.isFinite = true) : x.abs < epsilon ↔ |real x| < 2 ^ (-52 : ℤ) := by
  have hsign : sign epsilon = .positive := rfl
  rw [lt_iff_real_lt (isFinite_abs hx) (by decide), real_abs hx, real_of_sign hsign, value_epsilon]

/-- No double is nearer, with its sign. -/
theorem Nearest.abs_sub_le (h : Nearest v x) (hx : x.isFinite = true) (y : Float) :
    |real x - v| ≤ |real y - v| := by
  obtain ⟨b, hb, _, heq⟩ := h.exists_rounds hx
  calc |real x - v| = |value b - (|v|)| := heq
    _ ≤ |(|real y|) - (|v|)| := abs_real y ▸ hb.abs_sub_le _
    _ ≤ |real y - v| := abs_abs_sub_abs_le _ _

/-- Rounding does not go below a power of two. -/
theorem Nearest.two_zpow_le {e : ℤ} (h : Nearest v x) (hx : x.isFinite = true) (he : -1022 ≤ e)
    (hv : 2 ^ e ≤ |v|) : 2 ^ e ≤ |real x| := by
  obtain ⟨b, hb, habs, _⟩ := h.exists_rounds hx
  obtain ⟨k, hk⟩ : ∃ k : ℕ, (k : ℤ) = e + 1022 := ⟨(e + 1022).toNat, by omega⟩
  rw [← value_two_zpow hk] at hv ⊢
  rw [habs]
  exact value_strictMono.monotone (hb.le_value hv)

/-- Zero is no nearer. -/
theorem Nearest.abs_le_two_mul (h : Nearest v x) (hx : x.isFinite = true) : |real x| ≤ 2 * |v| := by
  have hside := h.abs_sub_le hx 0.0
  rw [real_zero, zero_sub, abs_neg] at hside
  linarith [abs_sub_abs_le_abs_sub (real x) v]

theorem Nearest.error (h : Nearest v x) (hx : x.isFinite = true) :
    |real x - v| ≤ max (roundoff * |v|) (2 ^ (-1075 : ℤ)) := by
  obtain ⟨b, hb, _, heq⟩ := h.exists_rounds hx
  exact heq ▸ hb.error

theorem Nearest.eq_of_digits {m e : ℤ} (h : Nearest (m * 2 ^ e) x) (hx : x.isFinite = true)
    (hm : |m| ≤ 2 ^ 53) (he : -1074 ≤ e) : real x = m * 2 ^ e := by
  obtain ⟨b, hb, _, heq⟩ := h.exists_rounds hx
  obtain ⟨c, hc⟩ := exists_value_eq (m := m.natAbs) (by rw [Int.abs_eq_natAbs] at hm; omega) he
  have habs : |(m : ℝ) * 2 ^ e| = value c := by
    rw [hc, abs_mul, abs_of_pos (show (0 : ℝ) < 2 ^ e by positivity), Nat.cast_natAbs, Int.cast_abs]
  have hzero := hb.abs_sub_le c
  rw [← heq, habs, sub_self, abs_zero] at hzero
  exact sub_eq_zero.1 (abs_nonpos_iff.1 hzero)

theorem Nearest.neg (h : Nearest v x) (hx : x.isFinite = true) : Nearest (-v) (-x) := by
  obtain ⟨s, m, b, hm, rfl, hb, hposition⟩ := h
  refine ⟨-s, m, b, hm, ?_, hb, ?_⟩
  · cases s with
    | negative => exact neg_neg m
    | positive => rfl
  · rw [position_neg hx, hposition]
    cases s with
    | negative => exact neg_neg _
    | positive => rfl

theorem real_ofNat {n : ℕ} (hn : n < 2 ^ 53) : real (Float.ofNat n) = n := by
  obtain ⟨_, hvalue, hsign⟩ := ofNat_exact hn
  rw [real_of_sign hsign, hvalue]

/-- What is nearest to a number in the range of doubles is finite. -/
theorem Nearest.isFinite {e : ℤ} (h : Nearest v x) (he : e ≤ 1023) (hv : |v| ≤ 2 ^ e) :
    x.isFinite = true := by
  obtain ⟨s, m, b, hm, rfl, hb, hposition⟩ := h
  have habs := congrArg Int.natAbs hposition
  rw [position_natAbs, sign_apply_natAbs, Int.natAbs_natCast] at habs
  rw [abs_signed, abs_of_nonneg hm] at hv
  refine isFinite_of_rounds hb habs (show 2045 * 2 ^ 52 + 2 ^ 52 < infinityBits by decide) (hv.trans ?_)
  rw [value_two_zpow (e := 1023) (by norm_num)]
  exact zpow_le_zpow_right₀ (by norm_num) he

theorem Nearest.isFinite_of_abs_le_one (h : Nearest v x) (hv : |v| ≤ 1) : x.isFinite = true :=
  h.isFinite (e := 0) (by norm_num) (by rwa [zpow_zero])

/-- The conversion of an integer of a machine word. -/
theorem nearest_ofInt {n : ℤ} (hn : n.natAbs ≤ 2 ^ 63) :
    (Float.ofInt n).isFinite = true ∧ Nearest n (Float.ofInt n) := by
  have hnat {m : ℕ} (hm : m ≤ 2 ^ 63) : (Float.ofNat m).isFinite = true := by
    refine (nearest_ofNat m).isFinite (e := 63) (by norm_num) ?_
    rw [Nat.abs_cast]
    exact_mod_cast hm
  cases n with
  | ofNat m => exact ⟨hnat hn, by exact_mod_cast nearest_ofNat m⟩
  | negSucc m =>
    have hfinite : (Float.ofNat (m + 1)).isFinite = true := hnat hn
    have hneg := (nearest_ofNat (m + 1)).neg hfinite
    exact ⟨(isFinite_neg _).trans hfinite, by exact_mod_cast hneg⟩

theorem real_square_nonneg (h : (x * x).isFinite = true) : 0 ≤ real (x * x) := by
  have hx : x.isFinite = true := isFinite_of_imp (fun hinf => isFinite_mul_eq_false (.inl hinf)) h
  exact real_nonneg (nearest_zero.mono (nearest_mul hx hx) (mul_self_nonneg _))

theorem abs_square_le (h : (x * x).isFinite = true) : |real (x * x)| ≤ 2 * (real x * real x) := by
  have hx : x.isFinite = true := isFinite_of_imp (fun hinf => isFinite_mul_eq_false (.inl hinf)) h
  rw [← abs_mul_self (real x)]
  exact (nearest_mul hx hx).abs_le_two_mul h

/-! ### Sums and differences -/

/-- The unpacked doubles that are finite. -/
inductive Regular : UnpackedFloat → Prop where
  | zero (s : Sign) : Regular (.zero s)
  | finite (s : Sign) {m : ℕ} {e : ℤ} (hm : 0 < m) (fits : Fits m e) : Regular (.finite s m e hm)

/-- The number that a finite unpacked double stands for. -/
noncomputable def unpackedReal : UnpackedFloat → ℝ
  | .finite s m e _ => signed s (m * (2 : ℕ) ^ e)
  | _ => 0

theorem unpackedReal_finite {s : Sign} {m : ℕ} {e : ℤ} (hm : 0 < m) :
    unpackedReal (.finite s m e hm) = signed s (m * 2 ^ e) := by
  rw [unpackedReal, Nat.cast_ofNat]

theorem regular_unpack (hx : x.isFinite = true) : Regular x.toModel.unpack := by
  rw [isFinite_iff] at hx
  have h := unpacks x
  generalize x.toModel.unpack = u at h
  cases h with
  | nan bits => omega
  | infinity s bits => omega
  | zero s bits => exact .zero s
  | finite s m e hm fits bits bound => exact .finite s hm fits

theorem real_eq_unpackedReal (hx : x.isFinite = true) : real x = unpackedReal x.toModel.unpack := by
  rw [real, ← signOf_unpack hx]
  rw [isFinite_iff] at hx
  have h := unpacks x
  generalize x.toModel.unpack = u at h
  cases h with
  | nan bits => omega
  | infinity s bits => omega
  | zero s bits => cases s <;> simp [bits, value_zero, signed, signOf, unpackedReal]
  | finite s m e hm fits bits bound => rw [bits, fits.value_eq, signOf, unpackedReal_finite]

theorem Regular.neg {u : UnpackedFloat} (h : Regular u) : Regular u.neg := by
  cases h with
  | zero s => exact .zero (-s)
  | finite s hm fits => exact .finite (-s) hm fits

theorem unpackedReal_neg (u : UnpackedFloat) : unpackedReal u.neg = -unpackedReal u := by
  cases u with
  | finite s m e hm =>
    cases s with
    | negative => exact (neg_neg _).symm
    | positive => rfl
  | _ => exact neg_zero.symm

theorem sub_eq_add_neg_unpacked (u v : UnpackedFloat) :
    UnpackedFloat.sub .binary64 u v = UnpackedFloat.add .binary64 u v.neg := by
  cases u with
  | finite s m e hm =>
    cases v with
    | finite s' m' e' hm' =>
      have hneg (n : ℕ) : (-s').apply (n : ℤ) = -s'.apply n := by
        cases s' with
        | negative => exact (neg_neg _).symm
        | positive => rfl
      simp only [UnpackedFloat.sub, UnpackedFloat.neg, UnpackedFloat.add, hneg, sub_eq_add_neg]
    | _ => rfl
  | _ => cases v <;> rfl

theorem Regular.nearest_pack {u : UnpackedFloat} (h : Regular u) :
    Nearest (unpackedReal u) (.ofModel (.pack u)) := by
  cases h with
  | zero s =>
    have hzero := nearest_of_sign (x := .ofModel (.pack (.zero s))) le_rfl
      ⟨0, value_zero ▸ rounds_value 0, by rw [magnitudeBits_ofModel]; exact packedBits_zero s⟩
    rw [sign_ofModel] at hzero
    cases s <;> simpa [signed, signOf, unpackedReal] using hzero
  | finite s hm fits =>
    have hfinite := nearest_of_sign (x := .ofModel (.pack (.finite s _ _ hm))) (value_nonneg _)
      ⟨_, rounds_value _, by rw [magnitudeBits_ofModel]; exact packedBits_finite hm fits⟩
    rwa [sign_ofModel, fits.value_eq] at hfinite

theorem nearest_normalize (m e : ℤ) :
    Nearest (m * 2 ^ e) (.ofModel (.pack (UnpackedFloat.normalize .binary64 m e .positive))) := by
  have hside (s : Sign) {n : ℕ} (hn : 0 < n) : Nearest (signed s (n * 2 ^ e))
      (.ofModel (.pack (UnpackedFloat.normalize .binary64 (s.apply n) e .positive))) := by
    obtain ⟨hsign, b, hb, hbits⟩ := signOf_normalize s hn e
    have h := nearest_of_sign (by positivity) ⟨b, hb, (magnitudeBits_ofModel _).trans hbits⟩
    rwa [sign_ofModel, hsign] at h
  rcases lt_trichotomy m 0 with hm | rfl | hm
  · obtain ⟨n, rfl⟩ : ∃ n : ℕ, m = -n := ⟨m.natAbs, by omega⟩
    have h := hside .negative (n := n) (by omega)
    simpa only [signed, Sign.apply, Int.cast_neg, Int.cast_natCast, neg_mul] using h
  · rw [Int.cast_zero, zero_mul]
    exact (Regular.zero .positive).nearest_pack
  · obtain ⟨n, rfl⟩ : ∃ n : ℕ, m = n := ⟨m.natAbs, by omega⟩
    exact_mod_cast hside .positive (n := n) (by omega)

theorem nearest_add_unpacked {u v : UnpackedFloat} (hu : Regular u) (hv : Regular v) :
    Nearest (unpackedReal u + unpackedReal v)
      (.ofModel (.pack (UnpackedFloat.add .binary64 u v))) := by
  cases hu with
  | zero s =>
    cases hv with
    | zero s' =>
      have hadd : ∃ t, UnpackedFloat.add .binary64 (.zero s) (.zero s') = .zero t := by
        cases s <;> cases s' <;> exact ⟨_, rfl⟩
      obtain ⟨t, hadd⟩ := hadd
      rw [hadd]
      simpa only [unpackedReal, add_zero] using (Regular.zero t).nearest_pack
    | finite s' hm' fits' =>
      have h := (Regular.finite s' hm' fits').nearest_pack
      rw [← zero_add (unpackedReal _)] at h
      exact h
  | @finite s m e hm fits =>
    cases hv with
    | zero s' =>
      have h := (Regular.finite s hm fits).nearest_pack
      rw [← add_zero (unpackedReal _)] at h
      exact h
    | @finite s' m' e' hm' fits' =>
      -- both significands are brought to the smaller exponent, where they add as integers
      simp only [UnpackedFloat.add, decreaseExponent, unpackedReal_finite]
      generalize ht : min e e' = t
      have hscale (s : Sign) (m : ℕ) {e : ℤ} (he : t ≤ e) :
          signed s (m * 2 ^ e) = (s.apply (m <<< (e - t).toNat : ℕ) : ℤ) * 2 ^ t := by
        have hexp : (m : ℝ) * 2 ^ e = (m * 2 ^ (e - t).toNat : ℕ) * 2 ^ t := by
          have hsum : e = (e - t).toNat + t := by omega
          conv_lhs => rw [hsum, zpow_add₀ two_ne_zero, zpow_natCast, ← mul_assoc]
          push_cast
          rfl
        rw [hexp, Nat.shiftLeft_eq]
        cases s with
        | negative => simp only [signed, Sign.apply, Int.cast_neg, Int.cast_natCast, neg_mul]
        | positive => simp only [signed, Sign.apply, Int.cast_natCast]
      rw [hscale s m (by omega), hscale s' m' (by omega), ← add_mul, ← Int.cast_add]
      exact nearest_normalize _ t

theorem nearest_add (hx : x.isFinite = true) (hy : y.isFinite = true) :
    Nearest (real x + real y) (x + y) := by
  rw [real_eq_unpackedReal hx, real_eq_unpackedReal hy]
  exact nearest_add_unpacked (regular_unpack hx) (regular_unpack hy)

theorem nearest_sub (hx : x.isFinite = true) (hy : y.isFinite = true) :
    Nearest (real x - real y) (x - y) := by
  rw [real_eq_unpackedReal hx, real_eq_unpackedReal hy, sub_eq_add_neg, ← unpackedReal_neg]
  change Nearest _ (.ofModel (.pack (UnpackedFloat.sub .binary64 x.toModel.unpack y.toModel.unpack)))
  rw [sub_eq_add_neg_unpacked]
  exact nearest_add_unpacked (regular_unpack hx) (regular_unpack hy).neg

/-- Every double is a multiple of the smallest one. -/
theorem exists_real_eq (x : Float) : ∃ m : ℤ, real x = m * 2 ^ (-1074 : ℤ) := by
  have hvalue : value (magnitudeBits x) = (units (magnitudeBits x) : ℤ) * 2 ^ (-1074 : ℤ) := by
    rw [value, zpow_neg, div_eq_mul_inv]
    norm_cast
  rw [real, hvalue]
  cases sign x with
  | negative => exact ⟨-units (magnitudeBits x), by push_cast [signed]; ring⟩
  | positive => exact ⟨units (magnitudeBits x), rfl⟩

/-- Rounding a multiple of the smallest double has a relative error only. -/
theorem Nearest.relative_error {m e : ℤ} (h : Nearest v x) (hx : x.isFinite = true)
    (hv : v = m * 2 ^ e) (he : -1074 ≤ e) : |real x - v| ≤ roundoff * |v| := by
  have hscaled := mul_nonneg roundoff_pos.le (abs_nonneg v)
  by_cases hm : |m| ≤ 2 ^ 53
  · subst hv
    rwa [h.eq_of_digits hx hm he, sub_self, abs_zero]
  · refine (h.error hx).trans (max_le le_rfl ?_)
    have hdigits : (2 : ℝ) ^ (53 : ℤ) ≤ |(m : ℝ)| := by
      have hlt : (2 : ℤ) ^ 53 ≤ |m| := by omega
      exact_mod_cast hlt
    have hunit : (2 : ℝ) ^ (-1075 : ℤ) ≤ 2 ^ e := zpow_le_zpow_right₀ (by norm_num) (by omega)
    calc (2 : ℝ) ^ (-1075 : ℤ) ≤ roundoff * 2 ^ (53 : ℤ) * 2 ^ e := by
          rw [roundoff_eq, ← zpow_add₀ two_ne_zero, neg_add_cancel, zpow_zero, one_mul]
          exact hunit
      _ = roundoff * (2 ^ (53 : ℤ) * 2 ^ e) := mul_assoc ..
      _ ≤ roundoff * |v| := by
        rw [hv, abs_mul, abs_of_pos (show (0 : ℝ) < 2 ^ e by positivity)]
        exact mul_le_mul_of_nonneg_left (mul_le_mul_of_nonneg_right hdigits (by positivity))
          roundoff_pos.le

theorem add_error (h : (x + y).isFinite = true) :
    |real (x + y) - (real x + real y)| ≤ roundoff * |real x + real y| := by
  have hx : x.isFinite = true := isFinite_of_imp (fun h => isFinite_add_eq_false (.inl h)) h
  have hy : y.isFinite = true := isFinite_of_imp (fun h => isFinite_add_eq_false (.inr h)) h
  obtain ⟨m, hm⟩ := exists_real_eq x
  obtain ⟨n, hn⟩ := exists_real_eq y
  exact (nearest_add hx hy).relative_error h (m := m + n) (by rw [hm, hn]; push_cast; ring) le_rfl

theorem sub_error (h : (x - y).isFinite = true) :
    |real (x - y) - (real x - real y)| ≤ roundoff * |real x - real y| := by
  have hx : x.isFinite = true := isFinite_of_imp (fun h => isFinite_sub_eq_false (.inl h)) h
  have hy : y.isFinite = true := isFinite_of_imp (fun h => isFinite_sub_eq_false (.inr h)) h
  obtain ⟨m, hm⟩ := exists_real_eq x
  obtain ⟨n, hn⟩ := exists_real_eq y
  exact (nearest_sub hx hy).relative_error h (m := m - n) (by rw [hm, hn]; push_cast; ring) le_rfl

/-! ### Square roots -/

theorem nearest_sqrt (hx : x.isFinite = true) (h0 : 0 ≤ real x) : Nearest √(real x) x.sqrt := by
  rw [real_eq_unpackedReal hx] at h0 ⊢
  change Nearest _ (.ofModel (.pack (UnpackedFloat.sqrt .binary64 x.toModel.unpack)))
  have h := regular_unpack hx
  generalize x.toModel.unpack = u at h h0
  cases h with
  | zero s =>
    have hzero := (Regular.zero s).nearest_pack
    change Nearest √0 _
    rwa [Real.sqrt_zero]
  | @finite s m e hm fits =>
    cases s with
    | negative =>
      have hpos : (0 : ℝ) < m * 2 ^ e := mul_pos (Nat.cast_pos.2 hm) (by positivity)
      rw [unpackedReal_finite, signed] at h0
      linarith
    | positive =>
      obtain ⟨b, hb, hbits⟩ := sqrt_rounds hm e
      have hroot := nearest_of_sign (Real.sqrt_nonneg _) ⟨b, hb, (magnitudeBits_ofModel _).trans hbits⟩
      rwa [sign_ofModel, signOf_roundWithAccuracy] at hroot

/-- The root of a double is neither too large nor next to zero. -/
theorem sqrt_error (hx : x.isFinite = true) (h0 : 0 ≤ real x) : x.sqrt.isFinite = true ∧
    |real x.sqrt - √(real x)| ≤ roundoff * √(real x) := by
  have hroot := nearest_sqrt hx h0
  have hnonneg := Real.sqrt_nonneg (real x)
  have hfinite : x.sqrt.isFinite = true := by
    refine hroot.isFinite (e := 512) (by norm_num) ?_
    rw [abs_of_nonneg hnonneg]
    have hlt := value_strictMono ((isFinite_iff x).1 hx)
    rw [value_infinityBits, ← abs_real, abs_of_nonneg h0] at hlt
    refine Real.sqrt_le_iff.2 ⟨by positivity, hlt.le.trans_eq ?_⟩
    rw [← zpow_natCast, ← zpow_mul]
    norm_num
  refine ⟨hfinite, ?_⟩
  rcases h0.eq_or_lt with hzero | hpos
  · rw [← hzero, Real.sqrt_zero] at hroot ⊢
    simpa using hroot.relative_error (m := 0) hfinite (by simp) le_rfl
  · have herror := hroot.error hfinite
    rw [abs_of_nonneg hnonneg] at herror
    refine herror.trans (max_le le_rfl ?_)
    have hleast : (2 : ℝ) ^ (-537 : ℤ) ≤ √(real x) := by
      obtain ⟨m, hm⟩ := exists_real_eq x
      have hm1 : (1 : ℝ) ≤ m := by
        rw [hm] at hpos
        exact_mod_cast Int.cast_pos.1 (pos_of_mul_pos_left hpos (by positivity))
      rw [Real.le_sqrt' (by positivity), hm, ← zpow_natCast, ← zpow_mul]
      exact le_mul_of_one_le_left (by positivity) hm1
    calc (2 : ℝ) ^ (-1075 : ℤ) ≤ roundoff * 2 ^ (-537 : ℤ) := by
          rw [roundoff_eq, ← zpow_add₀ two_ne_zero]
          exact zpow_le_zpow_right₀ (by norm_num) (by norm_num)
      _ ≤ roundoff * √(real x) := mul_le_mul_of_nonneg_left hleast roundoff_pos.le

/-! ### Decimal places -/

theorem abs_withSign_sub_le (v : ℝ) : |(withSign (fun v => ⌊v + 1 / 2⌋₊) v : ℝ) - v| ≤ 1 / 2 := by
  have hside {w : ℝ} (hw : 0 ≤ w) : |(⌊w + 1 / 2⌋₊ : ℝ) - w| ≤ 1 / 2 := by
    have hlow := Nat.floor_le (show 0 ≤ w + 1 / 2 by linarith)
    have hhigh := Nat.lt_floor_add_one (w + 1 / 2)
    rw [abs_le]
    constructor <;> linarith
  unfold withSign
  split
  next hv =>
    have h := hside (neg_nonneg.2 hv.le)
    rw [← abs_neg]
    push_cast
    convert h using 2
    ring
  next hv =>
    push_cast
    exact hside (not_lt.1 hv)

theorem real_powerOfTen {places : ℤ} (h : 1 ≤ places) (h' : places ≤ 4) :
    real (powerOfTen places) = 10 ^ places := by
  have hall : ∀ n < 5, powerOfTen (n : ℕ) = Float.ofNat (10 ^ n) ∧ 10 ^ n < 2 ^ 53 := by
    decide +kernel
  obtain ⟨n, rfl⟩ := Int.eq_ofNat_of_zero_le (zero_le_one.trans h)
  obtain ⟨heq, hlt⟩ := hall n (by omega)
  rw [heq, real_ofNat hlt, zpow_natCast]
  push_cast
  rfl

theorem roundoff_le : roundoff ≤ 1 / 100 := by norm_num [roundoff]

theorem least_le : (2 : ℝ) ^ (-1075 : ℤ) ≤ 2 ^ (-22 : ℤ) :=
  zpow_le_zpow_right₀ (by norm_num) (by norm_num)

/-- Half a unit of the last place, and what the scaling and the whole number are off. -/
theorem decimal_error {places : ℤ} (h : 1 ≤ places) (h' : places ≤ 4) (hx : x.isFinite = true) :
    |decimal places x - real x| ≤
      3 * roundoff * |real x| + 11 / 20 / real (powerOfTen places) := by
  obtain ⟨hp, hpos⟩ := powerOfTen_pos h h'
  have hu := roundoff_pos
  have hu' := roundoff_le
  have hleast : (2 : ℝ) ^ (-1075 : ℤ) ≤ 1 / 100 := least_le.trans (by norm_num)
  rw [decimal]
  generalize powerOfTen places = p at hp hpos
  split
  next hscaled =>
    have hs := (nearest_mul hx hp).error hscaled
    have hr := nearest_roundHalfAway hscaled
    have hhalf := abs_withSign_sub_le (real (x * p))
    generalize x * p = s at hs hr hhalf hscaled
    have hround := hr.relative_error (e := 0) (isFinite_roundHalfAway hscaled)
      (by rw [zpow_zero, mul_one]) (by norm_num)
    generalize (withSign (fun v => ⌊v + 1 / 2⌋₊) (real s) : ℝ) = whole at hhalf hround
    generalize real (roundHalfAway s) = rounded at hround
    have hsize := mul_nonneg (abs_nonneg (real x)) hpos.le
    have habs : |real x * real p| = |real x| * real p := by rw [abs_mul, abs_of_pos hpos]
    rw [habs] at hs
    have hscale : |real s - real x * real p| ≤ roundoff * (|real x| * real p) + 1 / 100 :=
      hs.trans (max_le (by linarith) (by linarith [mul_nonneg hu.le hsize]))
    have hwhole : |whole| ≤ 2 * (|real x| * real p) + 1 := by
      have hsum := abs_add_three (whole - real s) (real s - real x * real p) (real x * real p)
      rw [sub_add_sub_cancel, sub_add_cancel, habs] at hsum
      linarith [mul_le_mul_of_nonneg_right hu' hsize]
    have htotal : |rounded - real x * real p| ≤ 3 * roundoff * (|real x| * real p) + 11 / 20 := by
      have hsum := abs_add_three (rounded - whole) (whole - real s) (real s - real x * real p)
      rw [sub_add_sub_cancel, sub_add_sub_cancel] at hsum
      linarith [mul_le_mul_of_nonneg_left hwhole hu.le]
    calc |rounded / real p - real x| = |rounded - real x * real p| / real p := by
          rw [div_sub' hpos.ne', abs_div, abs_of_pos hpos, mul_comm (real p)]
      _ ≤ (3 * roundoff * (|real x| * real p) + 11 / 20) / real p :=
        div_le_div_of_nonneg_right htotal hpos.le
      _ = _ := by field_simp
  next =>
    rw [sub_self, abs_zero]
    positivity

theorem roundTo_error {places : ℤ} (h : 1 ≤ places) (h' : places ≤ 4) (hx : x.isFinite = true) :
    |real (roundTo x places) - real x| ≤
      5 * roundoff * |real x| + 3 / 5 / 10 ^ places := by
  obtain ⟨hp, hpos⟩ := powerOfTen_pos h h'
  have hmax : real (powerOfTen places) ≤ 2 ^ (14 : ℤ) := by
    rw [real_powerOfTen h h']
    exact (zpow_le_zpow_right₀ (by norm_num) h').trans (by norm_num)
  rw [← real_powerOfTen h h']
  have hround := (nearest_roundTo h h' hx).error (isFinite_roundTo x h h')
  have hdecimal := decimal_error h h' hx
  have hu := roundoff_pos
  have hu' := roundoff_le
  have hleast : (2 : ℝ) ^ (-1075 : ℤ) ≤ 1 / 100 / real (powerOfTen places) := by
    rw [le_div_iff₀ hpos]
    calc (2 : ℝ) ^ (-1075 : ℤ) * real (powerOfTen places) ≤ 2 ^ (-22 : ℤ) * 2 ^ (14 : ℤ) :=
          mul_le_mul least_le hmax hpos.le (by positivity)
      _ ≤ 1 / 100 := by norm_num
  generalize decimal places x = d at hround hdecimal
  have hd := abs_add_le (d - real x) (real x)
  have hsum := abs_add_le (real (roundTo x places) - d) (d - real x)
  rw [sub_add_cancel] at hd
  rw [sub_add_sub_cancel] at hsum
  have hround' := hround.trans (max_le_add_of_nonneg (by positivity) (by positivity))
  rw [div_eq_mul_inv] at hdecimal hleast ⊢
  have hr := inv_pos.2 hpos
  generalize (real (powerOfTen places))⁻¹ = r at hdecimal hleast hr
  -- the last rounding acts on what the scaling is off, too
  have hcross : roundoff * |d - real x| ≤ roundoff * |real x| + 1 / 25 * r := by
    have hscaled := mul_le_mul_of_nonneg_right hu' (abs_nonneg (d - real x))
    linarith [mul_nonneg hu.le (abs_nonneg (real x))]
  have hscaled := mul_le_mul_of_nonneg_left hd hu.le
  linarith

end FleetHealth.Binary64
