import FleetHealth.Proofs.Binary64.Rounding

/-!
# Arithmetic of doubles

Products and quotients of finite doubles are the doubles nearest to the exact ones, and so is a double
made from a natural number. Past the greatest double the nearest is infinity.
-/
namespace FleetHealth.Binary64

open Float.Model Float.Model.UnpackedFloat

theorem sign_apply_natAbs (s : Sign) (n : ℤ) : (s.apply n).natAbs = n.natAbs := by
  cases s
  · exact Int.natAbs_neg n
  · rfl

theorem position_natAbs (x : Float) : (position x).natAbs = magnitudeBits x := by
  rw [position]
  split
  · rw [Int.natAbs_neg, Int.natAbs_natCast]
  · rw [Int.natAbs_natCast]

/-- A double as its fields, with the bits that they make. -/
inductive Unpacks (x : Float) : UnpackedFloat → Prop where
  | nan (bits : infinityBits < magnitudeBits x) : Unpacks x .notANumber
  | infinity (s : Sign) (bits : magnitudeBits x = infinityBits) : Unpacks x (.infinity s)
  | zero (s : Sign) (bits : magnitudeBits x = 0) : Unpacks x (.zero s)
  | finite (s : Sign) (m : ℕ) (e : ℤ) (hm : 0 < m) (fits : Fits m e)
      (bits : magnitudeBits x = (e + 1074).toNat * 2 ^ 52 + m)
      (bound : magnitudeBits x < infinityBits) : Unpacks x (.finite s m e hm)

theorem unpacks (x : Float) : Unpacks x x.toModel.unpack := by
  by_cases hnan : x.isNaN = true
  · have hbits := (isNaN_iff x).1 hnan
    have hu : x.toModel.unpack.isNaN = true := hnan
    generalize x.toModel.unpack = u at hu
    cases u with
    | notANumber => exact .nan hbits
    | _ => cases hu
  · rw [Bool.not_eq_true] at hnan
    obtain ⟨hc, hp⟩ := place_unpack hnan
    have habs := congrArg Int.natAbs hp
    rw [position_natAbs] at habs
    generalize x.toModel.unpack = u at hc habs
    cases u with
    | notANumber => exact hc.elim
    | infinity s =>
      rw [place, sign_apply_natAbs] at habs
      exact .infinity s habs.symm
    | zero s => exact .zero s habs.symm
    | finite s m e hm =>
      rw [place, sign_apply_natAbs] at habs
      obtain ⟨hpos, hlt⟩ := place_finite_bounds hc
      obtain ⟨hbelow, hmin, hmax, hn⟩ := hc
      have hbits : magnitudeBits x = (e + 1074).toNat * 2 ^ 52 + m := by omega
      exact .finite s m e hm ⟨hbelow, hmin, hn⟩ hbits (by omega)

theorem isFinite_iff (x : Float) : x.isFinite = true ↔ magnitudeBits x < infinityBits := by
  change x.toModel.unpack.isFinite = true ↔ _
  have h := unpacks x
  generalize x.toModel.unpack = u at h
  cases h with
  | nan bits => simp [UnpackedFloat.isFinite, bits.le]
  | infinity s bits => simp [UnpackedFloat.isFinite, bits]
  | zero s bits => simp [UnpackedFloat.isFinite, bits, infinityBits]
  | finite s m e hm fits bits bound => simp [UnpackedFloat.isFinite, bound]

theorem Fits.value_eq {m : ℕ} {e : ℤ} (h : Fits m e) :
    value ((e + 1074).toNat * 2 ^ 52 + m) = m * 2 ^ e := by
  obtain ⟨hm, he, hn⟩ := h
  rw [Binary64.value_eq hm.le (hn.imp_right fun h => by omega)]
  congr 2
  omega

/-- The number that a rounding comes to is finite if the exact one is no greater than a finite one. -/
theorem isFinite_of_rounds {x : Float} {v : ℝ} {b c : ℕ} (hb : Rounds v b)
    (hx : magnitudeBits x = min b infinityBits) (hc : c < infinityBits) (hv : v ≤ value c) :
    x.isFinite = true := by
  rw [isFinite_iff, hx]
  have := hb.le_of_le_value hv
  omega

/-- A significand of enough digits, with nothing beside it, is rounded to the nearest double. -/
theorem exact_rounds (s : Sign) {m : ℕ} {e : ℤ} (h : 2 ^ 52 ≤ m ∨ e ≤ -1074) :
    ∃ b, Rounds (m * 2 ^ e) b ∧
      packedBits (roundWithAccuracy .binary64 s m e .exact) = min b infinityBits := by
  refine roundWithAccuracy_rounds s (rfl : Represents (m : ℝ) ⟨m, false, false⟩) ?_
  rw [targetExponent_eq, totalExponent]
  rcases h with h | h
  · have : 52 ≤ m.log2 := (Nat.le_log2 (by omega)).2 h
    omega
  · omega

theorem magnitudeBits_mul {x y : Float} (hx : x.isFinite = true) (hy : y.isFinite = true) :
    ∃ b, Rounds (value (magnitudeBits x) * value (magnitudeBits y)) b ∧
      magnitudeBits (x * y) = min b infinityBits := by
  change ∃ b, _ ∧ magnitudeBits (.ofModel (.pack (mul .binary64 x.toModel.unpack y.toModel.unpack))) = _
  rw [magnitudeBits_ofModel]
  rw [isFinite_iff] at hx hy
  have hzero (s : Sign) : ∃ b, Rounds 0 b ∧ packedBits (.zero s) = min b infinityBits :=
    ⟨0, value_zero ▸ rounds_value 0, packedBits_zero s⟩
  have h := unpacks x
  have h' := unpacks y
  generalize x.toModel.unpack = u at h
  generalize y.toModel.unpack = v at h'
  cases h with
  | nan bits => omega
  | infinity s bits => omega
  | zero s bits =>
    rw [bits, value_zero, zero_mul]
    cases h' with
    | nan bits' => omega
    | infinity s' bits' => omega
    | zero s' bits' => exact hzero _
    | finite => exact hzero _
  | finite s m e hm fits bits =>
    cases h' with
    | nan bits' => omega
    | infinity s' bits' => omega
    | zero s' bits' =>
      rw [bits', value_zero, mul_zero]
      exact hzero _
    | finite s' m' e' hm' fits' bits' =>
      rw [bits, bits', fits.value_eq, fits'.value_eq]
      have hexact : (m * 2 ^ e : ℝ) * (m' * 2 ^ e') = (m * m' : ℕ) * 2 ^ (e + e') := by
        rw [zpow_add₀ two_ne_zero]
        push_cast
        ring
      rw [hexact]
      refine exact_rounds (s * s') ?_
      -- one normal factor is enough for a normal product of the significands
      rcases fits.normal with hn | hn
      · exact .inl (hn.trans (Nat.le_mul_of_pos_right m hm'))
      · rcases fits'.normal with hn' | hn'
        · exact .inl (hn'.trans (Nat.le_mul_of_pos_left m' hm))
        · exact .inr (by omega)

/-- A remainder tells how far above the quotient the exact one lies. -/
theorem represents_quotient (n : ℕ) {d : ℕ} (hd : 0 < d) :
    Represents ((n : ℝ) / d) (.ofMantissaAndAccuracy (n / d) (accuracyOfFraction (n % d) d)) := by
  have hpos : (0 : ℝ) < d := Nat.cast_pos.2 hd
  have hexact : (n : ℝ) / d = (n / d : ℕ) + (n % d : ℕ) / d := by
    rw [eq_comm, ← sub_eq_zero]
    field_simp
    have : (n : ℝ) = d * (n / d : ℕ) + (n % d : ℕ) := by exact_mod_cast (Nat.div_add_mod n d).symm
    linarith
  rw [hexact]
  generalize n / d = q
  have hlt : n % d < d := Nat.mod_lt n hd
  generalize n % d = r at hlt
  have hr : (r : ℝ) / d < 1 := (div_lt_one hpos).2 (Nat.cast_lt.2 hlt)
  unfold accuracyOfFraction
  split
  next h0 => simp [h0, ExtendedMantissa.ofMantissaAndAccuracy, Represents]
  next h0 =>
    have hr0 : (0 : ℝ) < r / d := div_pos (Nat.cast_pos.2 (Nat.pos_of_ne_zero h0)) hpos
    rcases lt_trichotomy (2 * r) d with h | h | h
    · rw [Nat.compare_eq_lt.2 h]
      have : (r : ℝ) / d < 1 / 2 := by
        rw [div_lt_div_iff₀ hpos two_pos]
        have : (2 * r : ℝ) < d := by exact_mod_cast h
        linarith
      exact ⟨by linarith, by linarith⟩
    · rw [Nat.compare_eq_eq.2 h]
      have : (r : ℝ) / d = 1 / 2 := by
        rw [div_eq_div_iff hpos.ne' two_ne_zero]
        have : (2 * r : ℝ) = d := by exact_mod_cast h
        linarith
      change (q : ℝ) + r / d - q = q + 1 - (q + r / d)
      linarith
    · rw [Nat.compare_eq_gt.2 h]
      have : 1 / 2 < (r : ℝ) / d := by
        rw [div_lt_div_iff₀ two_pos hpos]
        have : (d : ℝ) < 2 * r := by exact_mod_cast h
        linarith
      exact ⟨by linarith, by linarith⟩

theorem div_rounds (s : Sign) {m m' : ℕ} {e e' : ℤ} (hm : 0 < m) (hm' : 0 < m') :
    ∃ b, Rounds ((m * 2 ^ e) / (m' * 2 ^ e')) b ∧
      packedBits (let (q, t, acc) := divCore .binary64 m e m' e'
        roundWithAccuracy .binary64 s q t acc) = min b infinityBits := by
  simp only [divCore]
  generalize ht : min (e - e') (Format.binary64.targetExponent
    (totalExponent m e - totalExponent m' e')) = t
  generalize hn : (e - e' - t).toNat = n
  rw [Nat.shiftLeft_eq]
  have hexact : (m * 2 ^ e : ℝ) / (m' * 2 ^ e') = ((m * 2 ^ n : ℕ) : ℝ) / m' * 2 ^ t := by
    have he : e = n + t + e' := by omega
    rw [he, zpow_add₀ two_ne_zero, zpow_add₀ two_ne_zero]
    push_cast
    field_simp
    rfl
  rw [hexact]
  refine roundWithAccuracy_rounds s (represents_quotient _ hm') ?_
  rw [targetExponent_eq, totalExponent, totalExponent] at ht
  rw [targetExponent_eq, totalExponent]
  by_cases hmin : t ≤ -1074
  · exact hmin.trans (le_max_right _ _)
  · -- above the least exponent the shift was chosen to give the quotient 53 digits
    have hdigits : 2 ^ 52 ≤ m * 2 ^ n / m' := by
      rw [Nat.le_div_iff_mul_le hm']
      have hupper : m' ≤ 2 ^ (m'.log2 + 1) := Nat.lt_log2_self.le
      calc 2 ^ 52 * m' ≤ 2 ^ 52 * 2 ^ (m'.log2 + 1) := Nat.mul_le_mul_left _ hupper
        _ = 2 ^ (52 + (m'.log2 + 1)) := (pow_add ..).symm
        _ ≤ 2 ^ (m.log2 + n) := Nat.pow_le_pow_right two_pos (by omega)
        _ = 2 ^ m.log2 * 2 ^ n := pow_add ..
        _ ≤ m * 2 ^ n := Nat.mul_le_mul_right _ (Nat.log2_self_le hm.ne')
    have : 52 ≤ (m * 2 ^ n / m').log2 := (Nat.le_log2 (by omega)).2 hdigits
    omega

theorem magnitudeBits_div {x y : Float} (hx : x.isFinite = true) (hy : y.isFinite = true)
    (hpos : 0 < magnitudeBits y) :
    ∃ b, Rounds (value (magnitudeBits x) / value (magnitudeBits y)) b ∧
      magnitudeBits (x / y) = min b infinityBits := by
  change ∃ b, _ ∧ magnitudeBits (.ofModel (.pack (div .binary64 x.toModel.unpack y.toModel.unpack))) = _
  rw [magnitudeBits_ofModel]
  rw [isFinite_iff] at hx hy
  have h := unpacks x
  have h' := unpacks y
  generalize x.toModel.unpack = u at h
  generalize y.toModel.unpack = v at h'
  cases h' with
  | nan bits' => omega
  | infinity s' bits' => omega
  | zero s' bits' => omega
  | finite s' m' e' hm' fits' bits' =>
    cases h with
    | nan bits => omega
    | infinity s bits => omega
    | zero s bits =>
      rw [bits, value_zero, zero_div]
      exact ⟨0, value_zero ▸ rounds_value 0, packedBits_zero _⟩
    | finite s m e hm fits bits =>
      rw [bits, bits', fits.value_eq, fits'.value_eq]
      exact div_rounds (s / s') hm hm'

/-- A finite number is finite after division by one or more, infinity included. -/
theorem div_isFinite {x y : Float} (hx : x.isFinite = true) (hy : y.isNaN = false)
    (hone : 1 ≤ value (magnitudeBits y)) : (x / y).isFinite = true := by
  by_cases hfinite : y.isFinite = true
  · have hpos : 0 < magnitudeBits y := by
      by_contra h0
      rw [Nat.eq_zero_of_not_pos h0, value_zero] at hone
      linarith
    obtain ⟨b, hb, hbits⟩ := magnitudeBits_div hx hfinite hpos
    refine isFinite_of_rounds hb hbits ((isFinite_iff x).1 hx) ?_
    exact div_le_self (value_nonneg _) hone
  · change (Float.ofModel (.pack (div .binary64 x.toModel.unpack y.toModel.unpack))).isFinite = true
    rw [isFinite_iff] at hx hfinite ⊢
    rw [magnitudeBits_ofModel]
    have hn := magnitudeBits_le hy
    have h := unpacks x
    have h' := unpacks y
    generalize x.toModel.unpack = u at h
    generalize y.toModel.unpack = v at h'
    have hzero (s : Sign) : packedBits (.zero s) < infinityBits := by
      rw [packedBits_zero]
      decide
    cases h' with
    | nan bits' => omega
    | zero s' bits' => exact absurd (bits' ▸ by decide) hfinite
    | finite s' m' e' hm' fits' bits' bound' => exact absurd bound' hfinite
    | infinity s' bits' =>
      cases h with
      | nan bits => omega
      | infinity s bits => omega
      | zero s bits => exact hzero _
      | finite s m e hm fits bits => exact hzero _

theorem round_rounds (s : Sign) {m : ℕ} (hm : 0 < m) (e : ℤ) :
    ∃ b, Rounds (m * 2 ^ e) b ∧ packedBits (UnpackedFloat.round .binary64 s m e) = min b infinityBits := by
  simp only [UnpackedFloat.round, decreaseExponent, Nat.shiftLeft_eq]
  generalize ht : Format.binary64.targetExponent (totalExponent m e) = t
  generalize hn : (e - t).toNat = n
  have hexact : (m * 2 ^ e : ℝ) = (m * 2 ^ n : ℕ) * 2 ^ (e - n) := by
    rw [zpow_sub₀ two_ne_zero, zpow_natCast]
    push_cast
    field_simp
  rw [hexact]
  refine roundWithAccuracy_rounds s (rfl : Represents _ ⟨m * 2 ^ n, false, false⟩) ?_
  -- the shift moves digits from the exponent to the significand and changes their sum in nothing
  have htotal : totalExponent (m * 2 ^ n) (e - n) = totalExponent m e := by
    have hlog : (m * 2 ^ n).log2 = m.log2 + n := by
      rw [Nat.log2_eq_iff (by positivity), pow_add, Nat.add_right_comm, pow_add]
      exact ⟨Nat.mul_le_mul_right _ (Nat.log2_self_le hm.ne'),
        Nat.mul_lt_mul_of_pos_right Nat.lt_log2_self (Nat.two_pow_pos n)⟩
    rw [totalExponent, totalExponent, hlog]
    push_cast
    ring
  rw [htotal, ht]
  omega

theorem magnitudeBits_toFloat (n : UInt64) :
    ∃ b, Rounds n.toNat b ∧ magnitudeBits n.toFloat = min b infinityBits := by
  change ∃ b, _ ∧
    magnitudeBits (.ofModel (.pack (UnpackedFloat.normalize .binary64 n.toNat 0 .positive))) = _
  rw [magnitudeBits_ofModel, UnpackedFloat.normalize]
  rcases Nat.eq_zero_or_pos n.toNat with h0 | hpos
  · rw [h0]
    refine ⟨0, ?_, packedBits_zero _⟩
    simpa [value_zero] using rounds_value 0
  · rw [compare_gt_iff_gt.2 (Int.natCast_pos.2 hpos)]
    obtain ⟨b, hb, hbits⟩ := round_rounds .positive hpos 0
    exact ⟨b, by simpa using hb, hbits⟩

/-- The bits of one. -/
def oneBits : ℕ := 0x3FF0000000000000

theorem value_oneBits : value oneBits = 1 := by
  rw [show oneBits = 1022 * 2 ^ 52 + 2 ^ 52 from rfl, value_eq (by norm_num) (.inl le_rfl)]
  norm_num

/-- The bits of 2 ^ 53, from where on doubles are whole. -/
def wholeBits : ℕ := 1075 * 2 ^ 52 + 2 ^ 52

theorem value_wholeBits : value wholeBits = 2 ^ 53 := by
  rw [wholeBits, value_eq (by norm_num) (.inl le_rfl)]
  norm_num

/-- The double made from a natural number is the nearest one. -/
theorem magnitudeBits_ofNat (n : ℕ) :
    ∃ b, Rounds n b ∧ magnitudeBits (Float.ofNat n) = min b infinityBits := by
  change ∃ b, _ ∧ magnitudeBits (Float.ofScientific n false 0) = _
  unfold Float.ofScientific
  by_cases hn : n < 2 ^ 53
  · rw [dif_pos ⟨hn, by decide⟩]
    change ∃ b, _ ∧ magnitudeBits (n.toUInt64.toFloat * .ofBits 0x3FF0000000000000) = _
    obtain ⟨b, hb, hbits⟩ := magnitudeBits_toFloat n.toUInt64
    have hword : n.toUInt64.toNat = n := Nat.mod_eq_of_lt (hn.trans (by norm_num))
    rw [hword] at hb
    -- a small number stays far from infinity, and a factor of one changes no bits
    have hsmall : b ≤ wholeBits := by
      refine hb.le_of_le_value ?_
      rw [value_wholeBits]
      exact_mod_cast hn.le
    have hlt : b < infinityBits := hsmall.trans_lt (by decide)
    rw [min_eq_left hlt.le] at hbits
    have hone : magnitudeBits (.ofBits 0x3FF0000000000000) = oneBits := by decide
    obtain ⟨c, hc, hprod⟩ := magnitudeBits_mul (x := n.toUInt64.toFloat)
      (y := .ofBits 0x3FF0000000000000) ((isFinite_iff _).2 (hbits ▸ hlt)) (by decide)
    rw [hbits, hone, value_oneBits, mul_one] at hc
    rw [hc.unique (rounds_value b)] at hprod
    exact ⟨b, hb, hprod⟩
  · rw [dif_neg fun h => hn h.1]
    have hpos : n ≠ 0 := by omega
    change ∃ b, _ ∧ magnitudeBits (.ofModel (.pack (UnpackedFloat.ofScientific .binary64 n 0))) = _
    have hlow : ¬ (0 : ℤ) < -((2 ^ Format.binary64.exponentBits : ℤ) + n.log2) := by
      have : (0 : ℤ) ≤ 2 ^ Format.binary64.exponentBits + n.log2 := by positivity
      linarith
    rw [magnitudeBits_ofModel, UnpackedFloat.ofScientific, dif_neg hpos, if_neg (by decide), if_neg hlow,
      if_pos le_rfl]
    have h := exact_rounds (.positive * .positive) (m := (n <<< 53) * 10 ^ (0 : ℤ).toNat)
      (e := -53 + 0) (.inl ?_)
    · obtain ⟨b, hb, hbits⟩ := h
      refine ⟨b, ?_, hbits⟩
      convert hb using 1
      rw [Nat.shiftLeft_eq]
      push_cast
      norm_num
      ring
    · rw [Nat.shiftLeft_eq]
      simp
      omega

end FleetHealth.Binary64
