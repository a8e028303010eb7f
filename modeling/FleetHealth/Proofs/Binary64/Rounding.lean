import FleetHealth.Proofs.Binary64.Nearest
import FleetHealth.Proofs.Binary64.Order

/-!
# Rounding of significands

The bits kept beside a significand tell where above it the exact number lies, so shifting and rounding
the two gives the nearest double: a number that does not fit the exponents becomes infinity.
-/
namespace FleetHealth.Binary64

open Float.Model Float.Model.UnpackedFloat

/-- The magnitude bits of a packed number. -/
def packedBits (u : UnpackedFloat) : ℕ := (UnpackedFloat.pack .binary64 u).toNat % 2 ^ 63

theorem magnitudeBits_ofModel (u : UnpackedFloat) :
    magnitudeBits (.ofModel (.pack u)) = packedBits u := magnitudeBits_eq _

/-- The number `y` that a significand and its rounding bits stand for, as far as they tell. -/
def Represents (y : ℝ) : ExtendedMantissa → Prop
  | ⟨m, false, false⟩ => y = m
  | ⟨m, false, true⟩ => m < y ∧ y - m < m + 1 - y
  | ⟨m, true, false⟩ => y - m = m + 1 - y
  | ⟨m, true, true⟩ => m + 1 - y < y - m ∧ y < m + 1

theorem Represents.bounds {y : ℝ} {em : ExtendedMantissa} (h : Represents y em) :
    em.mantissa ≤ y ∧ y < em.mantissa + 1 := by
  rcases em with ⟨m, _ | _, _ | _⟩ <;> simp only [Represents] at h <;> constructor <;> linarith

theorem Represents.shiftRightOne {y : ℝ} {em : ExtendedMantissa} (h : Represents y em) :
    Represents (y / 2) em.shiftRightOne := by
  obtain ⟨m, r, s⟩ := em
  obtain ⟨q, hq⟩ := m.even_or_odd'
  -- the digit that leaves the significand becomes the first bit beside it
  rcases hq with rfl | rfl
  · have hdiv : 2 * q / 2 = q := by omega
    cases r <;> cases s <;>
      simp only [Represents, ExtendedMantissa.shiftRightOne, hdiv, Nat.mul_mod_right, bne_self_eq_false,
        Bool.or_false, Bool.or_true] at h ⊢ <;> push_cast at h
    · linarith
    all_goals constructor <;> linarith
  · have hdiv : (2 * q + 1) / 2 = q := by omega
    have hmod : ((2 * q + 1) % 2 != 0) = true := by simp [Nat.add_mod]
    cases r <;> cases s <;>
      simp only [Represents, ExtendedMantissa.shiftRightOne, hdiv, hmod, Bool.or_false,
        Bool.or_true] at h ⊢ <;> push_cast at h
    · linarith
    all_goals constructor <;> linarith

theorem Represents.shiftRight {y : ℝ} {em : ExtendedMantissa} (h : Represents y em) (n : ℕ) :
    Represents (y / 2 ^ n) (em >>> n) := by
  change Represents _ (n.repeat ExtendedMantissa.shiftRightOne em)
  induction n with
  | zero => simpa [Nat.repeat] using h
  | succ n ih =>
    rw [pow_succ, ← div_div]
    exact ih.shiftRightOne

/-- The bits beside a significand tell on which side of the middle the number lies. -/
theorem Represents.roundedMantissa {y : ℝ} {em : ExtendedMantissa} (h : Represents y em) :
    (y < em.mantissa + 1 / 2 → em.roundedMantissa = em.mantissa) ∧
      (em.mantissa + 1 / 2 < y → em.roundedMantissa = em.mantissa + 1) ∧
      (y = em.mantissa + 1 / 2 → em.roundedMantissa = em.mantissa + em.mantissa % 2) := by
  rcases em with ⟨m, _ | _, _ | _⟩ <;> simp only [Represents] at h ⊢
  · exact ⟨fun _ => rfl, fun hy => by linarith, fun hy => by linarith⟩
  · exact ⟨fun _ => rfl, fun hy => by linarith, fun hy => by linarith⟩
  · exact ⟨fun hy => by linarith, fun hy => by linarith, fun _ => rfl⟩
  · exact ⟨fun hy => by linarith, fun _ => rfl, fun hy => by linarith⟩

theorem roundedMantissa_bounds (em : ExtendedMantissa) :
    em.mantissa ≤ em.roundedMantissa ∧ em.roundedMantissa ≤ em.mantissa + 1 := by
  rcases em with ⟨m, _ | _, _ | _⟩ <;>
    simp only [ExtendedMantissa.roundedMantissa, ExtendedMantissa.accuracy,
      Accuracy.roundToNearestEven] <;> omega

theorem mantissa_shiftRight (em : ExtendedMantissa) (n : ℕ) :
    (em >>> n).mantissa = em.mantissa / 2 ^ n := by
  change (n.repeat ExtendedMantissa.shiftRightOne em).mantissa = _
  induction n with
  | zero => simp [Nat.repeat]
  | succ n ih =>
    rw [Nat.repeat, ExtendedMantissa.shiftRightOne, ih, Nat.div_div_eq_div_mul, pow_succ]

/-- Such a number rounds to the nearer of the neighbours. -/
theorem Represents.rounds {y : ℝ} {em : ExtendedMantissa} {k : ℕ} (h : Represents y em)
    (hm : em.mantissa < 2 ^ 53) (hk : 2 ^ 52 ≤ em.mantissa ∨ k = 0) :
    Rounds (y * 2 ^ ((k : ℤ) - 1074)) (k * 2 ^ 52 + em.roundedMantissa) := by
  have hunit : (0 : ℝ) < 2 ^ ((k : ℤ) - 1074) := by positivity
  have hlow := value_eq hm.le hk
  have hhigh := value_eq (Nat.succ_le_of_lt hm) (hk.imp_left Nat.le_succ_of_le)
  rw [Nat.succ_eq_add_one, Nat.cast_succ, ← Nat.add_assoc] at hhigh
  obtain ⟨hle, hlt⟩ := h.bounds
  have hmiddle : value (k * 2 ^ 52 + em.mantissa) + value (k * 2 ^ 52 + em.mantissa + 1) =
      2 * ((em.mantissa + 1 / 2) * 2 ^ ((k : ℤ) - 1074)) := by
    rw [hlow, hhigh]
    ring
  have hparity : (k * 2 ^ 52 + em.mantissa) % 2 = em.mantissa % 2 := by omega
  refine ⟨k * 2 ^ 52 + em.mantissa, ?_, ?_, fun hd => ?_, fun hu => ?_, fun he => ?_⟩
  · rw [hlow]
    exact mul_le_mul_of_nonneg_right hle hunit.le
  · rw [hhigh]
    exact mul_lt_mul_of_pos_right hlt hunit
  · rw [hmiddle, mul_lt_mul_iff_right₀ two_pos, mul_lt_mul_iff_left₀ hunit] at hd
    rw [h.roundedMantissa.1 hd]
  · rw [hmiddle, mul_lt_mul_iff_right₀ two_pos, mul_lt_mul_iff_left₀ hunit] at hu
    rw [h.roundedMantissa.2.1 hu, Nat.add_assoc]
  · rw [hmiddle, mul_right_inj' two_ne_zero, mul_left_inj' hunit.ne'] at he
    rw [h.roundedMantissa.2.2 he, hparity, Nat.add_assoc]

theorem targetExponent_eq (t : ℤ) : Format.binary64.targetExponent t = max (t - 53) (-1074) := rfl

/-- A number with its significand in range, except that its exponent may be too large. -/
structure Fits (m : ℕ) (e : ℤ) : Prop where
  below : m < 2 ^ 53
  exponent : -1074 ≤ e
  normal : 2 ^ 52 ≤ m ∨ e = -1074

theorem Fits.targetExponent {m : ℕ} {e : ℤ} (h : Fits m e) :
    Format.binary64.targetExponent (totalExponent m e) = e := by
  obtain ⟨hm, he, hn⟩ := h
  rw [targetExponent_eq, totalExponent]
  rcases Nat.eq_zero_or_pos m with rfl | hpos
  · have : e = -1074 := hn.resolve_left (by norm_num)
    simp [this]
  · have hlog : m.log2 < 53 := (Nat.log2_lt hpos.ne').2 hm
    rcases hn with hn | rfl
    · have : 52 ≤ m.log2 := (Nat.le_log2 hpos.ne').2 hn
      omega
    · omega

/-- What does not need rounding is left as it is, up to the carry into the exponent. -/
theorem shiftToTarget_exact {m : ℕ} {e : ℤ} (hm : m ≤ 2 ^ 53) (he : -1074 ≤ e)
    (hn : 2 ^ 52 ≤ m ∨ e = -1074) :
    ∃ em e', shiftToTargetExponent .binary64 m e .exact = (em, e') ∧ Fits em.mantissa e' ∧
      e' * 2 ^ 52 + em.mantissa = e * 2 ^ 52 + m := by
  rcases hm.lt_or_eq with hm | rfl
  · have hfits : Fits m e := ⟨hm, he, hn⟩
    refine ⟨.ofMantissaAndAccuracy m .exact, e, ?_, hfits, rfl⟩
    simp only [shiftToTargetExponent, shiftToExponent, hfits.targetExponent, sub_self, Int.toNat_zero,
      Nat.cast_zero, add_zero]
    rfl
  · have htarget : Format.binary64.targetExponent (totalExponent (2 ^ 53) e) = e + 1 := by
      rw [targetExponent_eq, totalExponent, Nat.log2_two_pow]
      omega
    refine ⟨⟨2 ^ 52, false, false⟩, e + 1, ?_, ⟨by norm_num, by omega, .inl le_rfl⟩, by push_cast; ring⟩
    simp only [shiftToTargetExponent, shiftToExponent, htarget, add_sub_cancel_left]
    rfl

theorem packedBits_packComponents (s : Sign) (exponent : BitVec 11) (mantissa : BitVec 52) :
    (packComponents .binary64 s exponent mantissa).toNat % 2 ^ 63 =
      exponent.toNat * 2 ^ 52 + mantissa.toNat := by
  rw [← toNat_magnitude, unpackExponent_packComponents, unpackMantissa_packComponents]

/-- A number whose exponent is too large is packed as infinity, any other by its fields. -/
theorem packedBits_finite {s : Sign} {m : ℕ} {e : ℤ} (hm : 0 < m) (h : Fits m e) :
    packedBits (.finite s m e hm) = min ((e + 1074).toNat * 2 ^ 52 + m) infinityBits := by
  obtain ⟨hlt, he, hn⟩ := h
  have hbiased : (e + Format.binary64.exponentBias + Format.binary64.mantissaBitsWithoutImplicit).toNat =
      (e + 1075).toNat := by
    congr 1
    change e + 1023 + 52 = e + 1075
    ring
  rw [packedBits, UnpackedFloat.pack, infinityBits]
  simp only [hbiased]
  split
  next hlarge =>
    rw [packedInfinity, packedBits_packComponents]
    have : 2 ^ 52 ≤ m := hn.resolve_right (by omega)
    change 2047 * 2 ^ 52 + 0 = _
    omega
  next hsmall =>
    have hlarge : (e + 1075).toNat < 2047 := by omega
    split
    next hlog =>
      have hlog : m.log2 = 52 := by simpa [Format.mantissaBits] using hlog
      have : 2 ^ 52 ≤ m := (Nat.le_log2 hm.ne').1 hlog.ge
      rw [packedBits_packComponents, BitVec.toNat_ofNat, BitVec.toNat_ofNat,
        Nat.mod_eq_of_lt (by omega)]
      omega
    next hlog =>
      have hlt' : m < 2 ^ 52 := by
        by_contra hge
        apply hlog
        rw [(Nat.log2_eq_iff hm.ne').2 ⟨not_lt.1 hge, hlt⟩]
        rfl
      have he' : e = -1074 := hn.resolve_left (by omega)
      rw [packedBits_packComponents, BitVec.toNat_ofNat, BitVec.toNat_ofNat, Nat.zero_mod,
        Nat.mod_eq_of_lt hlt', he']
      omega

theorem packedBits_zero (s : Sign) : packedBits (.zero s) = 0 := by
  rw [packedBits, UnpackedFloat.pack, packedZero, packedBits_packComponents]
  rfl

/-- At its target exponent a significand is in range. -/
theorem fits_target {m : ℕ} {e t : ℤ} (ht : Format.binary64.targetExponent (totalExponent m e) = t)
    (he : e ≤ t) : Fits (m / 2 ^ (t - e).toNat) t := by
  rw [targetExponent_eq, totalExponent] at ht
  have hupper : m < 2 ^ (m.log2 + 1) := Nat.lt_log2_self
  refine ⟨?_, by omega, ?_⟩
  · refine Nat.div_lt_of_lt_mul (hupper.trans_le ?_)
    rw [← pow_add]
    exact Nat.pow_le_pow_right two_pos (by omega)
  · by_cases hmin : t = -1074
    · exact .inr hmin
    · -- above the least exponent the shift leaves exactly 53 digits
      have hlog : 52 + (t - e).toNat = m.log2 := by omega
      have hm : m ≠ 0 := by
        rintro rfl
        simp at hlog
      refine .inl ((Nat.le_div_iff_mul_le (Nat.two_pow_pos _)).2 ?_)
      rw [← pow_add, hlog]
      exact Nat.log2_self_le hm

theorem mantissa_ofMantissaAndAccuracy (m : ℕ) (acc : Accuracy) :
    (ExtendedMantissa.ofMantissaAndAccuracy m acc).mantissa = m := by
  rcases acc with _ | (_ | _ | _) <;> rfl

/-- A significand of enough digits, with what lies beside it, is rounded to the nearest double. -/
theorem roundWithAccuracy_rounds (s : Sign) {m : ℕ} {e : ℤ} {acc : Accuracy} {y : ℝ}
    (h : Represents y (.ofMantissaAndAccuracy m acc))
    (he : e ≤ Format.binary64.targetExponent (totalExponent m e)) :
    ∃ b, Rounds (y * 2 ^ e) b ∧
      packedBits (roundWithAccuracy .binary64 s m e acc) = min b infinityBits := by
  generalize ht : Format.binary64.targetExponent (totalExponent m e) = t at he
  generalize hn : (t - e).toNat = n
  generalize hem : ExtendedMantissa.ofMantissaAndAccuracy m acc >>> n = em
  have hshift : shiftToTargetExponent .binary64 m e acc = (em, t) := by
    simp only [shiftToTargetExponent, shiftToExponent, ht, hn, hem]
    congr 1
    omega
  have hrep : Represents (y / 2 ^ n) em := hem ▸ h.shiftRight n
  have hfits : Fits em.mantissa t := by
    have := fits_target ht he
    rwa [hn, ← mantissa_ofMantissaAndAccuracy m acc, ← mantissa_shiftRight, hem] at this
  obtain ⟨hlt, hmin, hnormal⟩ := hfits
  obtain ⟨hlow, hhigh⟩ := roundedMantissa_bounds em
  obtain ⟨em', e', hcarry, hfits', hsum⟩ := shiftToTarget_exact
    (hhigh.trans (Nat.succ_le_of_lt hlt)) hmin (hnormal.imp_left hlow.trans')
  refine ⟨(t + 1074).toNat * 2 ^ 52 + em.roundedMantissa, ?_, ?_⟩
  · have hround := hrep.rounds hlt (k := (t + 1074).toNat) (hnormal.imp_right fun ht => by omega)
    have hexp : (((t + 1074).toNat : ℕ) : ℤ) - 1074 = e + n := by omega
    rwa [hexp, zpow_add₀ two_ne_zero, zpow_natCast, div_mul_eq_mul_div, mul_comm ((2 : ℝ) ^ e),
      mul_left_comm, mul_div_cancel_left₀ _ (pow_ne_zero n two_ne_zero)] at hround
  · simp only [roundWithAccuracy, hshift, hcarry]
    obtain ⟨hlt', hmin', hnormal'⟩ := id hfits'
    split
    next hzero =>
      rw [packedBits_zero]
      omega
    next hpos =>
      have hbits : (e' + 1074).toNat * 2 ^ 52 + em'.mantissa =
          (t + 1074).toNat * 2 ^ 52 + em.roundedMantissa := by omega
      rw [packedBits_finite _ hfits', hbits]

end FleetHealth.Binary64
