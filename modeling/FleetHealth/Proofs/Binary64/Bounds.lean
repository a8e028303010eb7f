import FleetHealth.Proofs.Binary64.Sums

/-!
# Bounds on results

How far a quotient by a count can lie from the exact one, which quotients stay in the range of doubles,
and which numbers rounding to decimal places leaves apart from zero.
-/
namespace FleetHealth.Binary64

variable {x y : Float}

theorem magnitudeBits_pos (h : 0 < value (magnitudeBits x)) : 0 < magnitudeBits x := by
  rw [← value_zero] at h
  exact value_strictMono.lt_iff_lt.1 h

theorem magnitudeBits_div_infinity (hx : x.isFinite = true) (hy : magnitudeBits y = infinityBits) :
    magnitudeBits (x / y) = 0 := by
  change magnitudeBits (.ofModel (.pack (.div .binary64 x.toModel.unpack y.toModel.unpack))) = 0
  rw [magnitudeBits_ofModel]
  rw [isFinite_iff] at hx
  have h := unpacks x
  have h' := unpacks y
  generalize x.toModel.unpack = u at h
  generalize y.toModel.unpack = v at h'
  cases h' with
  | nan bits' => omega
  | zero s' bits' => exact absurd (bits'.symm.trans hy) (by decide)
  | finite s' m' e' hm' fits' bits' bound' => omega
  | infinity s' bits' =>
    cases h with
    | nan bits => omega
    | infinity s bits => omega
    | zero s bits => exact packedBits_zero _
    | finite s m e hm fits bits => exact packedBits_zero _

/-- A natural number is at most twice the double made from it. -/
theorem le_two_mul_of_rounds {n b : ℕ} (hn : 1 ≤ n) (hb : Rounds n b) : (n : ℝ) ≤ 2 * value b := by
  obtain ⟨c, hc⟩ := exists_value_eq (m := 1) (by norm_num) (e := n.log2) (by omega)
  have hvalue : value c = 2 ^ n.log2 := by simpa using hc
  have hlow : (2 : ℝ) ^ n.log2 ≤ n := by exact_mod_cast Nat.log2_self_le (Nat.one_le_iff_ne_zero.1 hn)
  have hhigh : (n : ℝ) < 2 ^ (n.log2 + 1) := by exact_mod_cast Nat.lt_log2_self
  have hcb : value c ≤ value b := value_strictMono.monotone (hb.le_value (hvalue ▸ hlow))
  rw [hvalue] at hcb
  rw [pow_succ] at hhigh
  linarith

/-- Division by a count comes within four times the exact quotient. -/
theorem value_div_ofNat_le (hx : x.isFinite = true) {n : ℕ} (hn : 1 ≤ n) :
    value (magnitudeBits (x / Float.ofNat n)) ≤ 4 * (value (magnitudeBits x) / n) := by
  have hpos : (0 : ℝ) < n := Nat.cast_pos.2 hn
  have hx0 := value_nonneg (magnitudeBits x)
  obtain ⟨b, hb, hbits⟩ := magnitudeBits_ofNat n
  by_cases hfinite : (Float.ofNat n).isFinite = true
  · have hcount := le_two_mul_of_rounds hn hb
    rw [← bits_of_isFinite hfinite hbits] at hcount
    have hN : 0 < value (magnitudeBits (Float.ofNat n)) := by linarith
    obtain ⟨c, hc, hq⟩ := magnitudeBits_div hx hfinite (magnitudeBits_pos hN)
    have hquot := hc.value_le_two_mul (div_nonneg hx0 hN.le)
    have hmin : value (magnitudeBits (x / Float.ofNat n)) ≤ value c :=
      hq ▸ value_strictMono.monotone (min_le_left _ _)
    have hdiv : value (magnitudeBits x) / value (magnitudeBits (Float.ofNat n)) ≤
        2 * (value (magnitudeBits x) / n) := by
      rw [div_le_iff₀ hN, mul_right_comm, mul_div_assoc', le_div_iff₀ hpos]
      nlinarith
    linarith
  · have hinf : magnitudeBits (Float.ofNat n) = infinityBits := by
      rw [isFinite_iff] at hfinite
      omega
    rw [magnitudeBits_div_infinity hx hinf, value_zero]
    positivity

theorem value_two_zpow {k : ℕ} {e : ℤ} (h : k = e + 1022) : value (k * 2 ^ 52 + 2 ^ 52) = 2 ^ e := by
  rw [value_eq (by norm_num) (.inl le_rfl), show e = 52 + ((k : ℤ) - 1074) by omega,
    zpow_add₀ two_ne_zero]
  norm_num

theorem value_infinityBits : value infinityBits = 2 ^ (1024 : ℤ) := by
  rw [show infinityBits = 2046 * 2 ^ 52 + 2 ^ 52 from rfl]
  exact value_two_zpow (by norm_num)

theorem value_epsilon : value (magnitudeBits epsilon) = 2 ^ (-52 : ℤ) := by
  rw [show magnitudeBits epsilon = 970 * 2 ^ 52 + 2 ^ 52 by decide]
  exact value_two_zpow (by norm_num)

theorem epsilon_le_value (hx : x.isFinite = true) (h : ¬ x < epsilon) :
    2 ^ (-52 : ℤ) ≤ value (magnitudeBits x) := by
  rw [← value_epsilon]
  refine value_strictMono.monotone ?_
  rcases not_lt_iff.1 h with hnan | hnan | hle
  · rw [isNaN_iff] at hnan
    have := (isFinite_iff x).1 hx
    omega
  · exact absurd hnan (by decide)
  · have hposition := (le_iff.1 hle).2.2
    have hmagnitude := position_natAbs x
    rw [show position epsilon = magnitudeBits epsilon by decide] at hposition
    omega

/-- A number whose square is finite is finite after division by one that is not below `epsilon`. -/
theorem isFinite_div_of_epsilon_le (hsquare : (x * x).isFinite = true) (hy : y.isFinite = true)
    (hle : 2 ^ (-52 : ℤ) ≤ value (magnitudeBits y)) : (x / y).isFinite = true := by
  have hx : x.isFinite = true := isFinite_of_imp (fun h => isFinite_mul_eq_false (.inl h)) hsquare
  have hX := value_nonneg (magnitudeBits x)
  obtain ⟨b, hb, hbits⟩ := magnitudeBits_mul hx hx
  have hlt : value (magnitudeBits x) * value (magnitudeBits x) < 2 ^ (1024 : ℤ) := by
    rw [← value_infinityBits]
    by_contra hge
    have := hb.le_value (not_lt.1 hge)
    have := (isFinite_iff _).1 hsquare
    omega
  have hroot : value (magnitudeBits x) < 2 ^ (512 : ℤ) := by
    refine lt_of_mul_self_lt_mul_self₀ (by positivity) (hlt.trans_eq ?_)
    rw [← zpow_add₀ two_ne_zero]
    norm_num
  have hY : 0 < value (magnitudeBits y) := lt_of_lt_of_le (by positivity) hle
  obtain ⟨c, hc, hq⟩ := magnitudeBits_div hx hy (magnitudeBits_pos hY)
  have hbound : value (1586 * 2 ^ 52 + 2 ^ 52) = 2 ^ (512 : ℤ) * 2 ^ (52 : ℤ) := by
    rw [← zpow_add₀ two_ne_zero]
    exact value_two_zpow (by norm_num)
  refine isFinite_of_rounds hc hq (c := 1586 * 2 ^ 52 + 2 ^ 52) (by decide) ?_
  rw [hbound, div_le_iff₀ hY]
  have hone : (2 : ℝ) ^ (52 : ℤ) * 2 ^ (-52 : ℤ) = 1 := by
    rw [← zpow_add₀ two_ne_zero]
    norm_num
  have hfactor : 1 ≤ (2 : ℝ) ^ (52 : ℤ) * value (magnitudeBits y) :=
    hone ▸ mul_le_mul_of_nonneg_left hle (by positivity)
  rw [mul_assoc]
  exact hroot.le.trans (le_mul_of_one_le_right (by positivity) hfactor)

theorem one_le_nearest (h : 1 ≤ value (magnitudeBits x)) : 1 ≤ (Scaled.ofFloat x).nearest := by
  rw [value_magnitudeBits] at h
  generalize Scaled.ofFloat x = s at h
  obtain ⟨negative, m, e⟩ := s
  cases e with
  | ofNat k =>
    have hm : 0 < m := by
      by_contra h0
      rw [Nat.eq_zero_of_not_pos h0] at h
      norm_num at h
    exact Nat.mul_pos hm (Nat.two_pow_pos k)
  | negSucc k =>
    have hm : 2 ^ (k + 1) ≤ m := by
      rw [zpow_negSucc, ← div_eq_mul_inv, le_div_iff₀ (by positivity), one_mul] at h
      exact_mod_cast h
    refine (Nat.le_div_iff_mul_le (Nat.two_pow_pos _)).2 ?_
    rw [one_mul]
    exact hm.trans (Nat.le_add_right _ _)

theorem one_le_roundHalfAway (hx : x.isFinite = true) (h : 1 ≤ value (magnitudeBits x)) :
    1 ≤ value (magnitudeBits (roundHalfAway x)) := by
  have hnat := (ofNat_bounds (one_le_nearest h)).2
  simp only [roundHalfAway, hx, if_true]
  split
  next => rwa [magnitudeBits_neg (isFinite_ofNat_nearest hx)]
  next => exact hnat

theorem exponent_ge (x : Float) : -1074 ≤ (Scaled.ofFloat x).exponent := by
  simp only [Scaled.ofFloat]
  split <;> simp only <;> omega

theorem ne_zero_of_magnitudeBits_pos (h : 0 < magnitudeBits x) : x ≠ 0.0 ∧ ¬ (x == 0.0) = true := by
  have hzero : magnitudeBits 0.0 = 0 := by decide
  refine ⟨fun heq => ?_, fun heq => ?_⟩
  · rw [heq, hzero] at h
    exact lt_irrefl _ h
  · have hposition := (beq_iff.1 heq).2.2
    rw [show position 0.0 = 0 by decide] at hposition
    have := position_natAbs x
    rw [hposition] at this
    exact h.ne this

/-- A number of at least an eighth is not rounded to zero. -/
theorem roundTo_ne_zero {places : ℤ} (h : 1 ≤ places) (h' : places ≤ 4) (hx : x.isFinite = true)
    (hlarge : 2 ^ (-3 : ℤ) ≤ value (magnitudeBits x)) : roundTo x places ≠ 0.0 := by
  have hall : ∀ p ∈ ([10.0, 100.0, 1000.0, 10000.0] : List Float), p.isFinite = true ∧
      1025 * 2 ^ 52 + 2 ^ 52 ≤ magnitudeBits p ∧ magnitudeBits p ≤ 1036 * 2 ^ 52 + 2 ^ 52 := by decide
  obtain ⟨hp, hlow, hhigh⟩ := hall _ (powerOfTen_mem h h')
  have hx0 : 0 < magnitudeBits x := magnitudeBits_pos (lt_of_lt_of_le (by positivity) hlarge)
  simp only [roundTo, hx, if_true]
  generalize powerOfTen places = p at hp hlow hhigh
  have hlow' : (2 : ℝ) ^ (3 : ℤ) ≤ value (magnitudeBits p) :=
    (value_two_zpow (by norm_num)).symm.trans_le (value_strictMono.monotone hlow)
  have hhigh' : value (magnitudeBits p) ≤ 2 ^ (14 : ℤ) :=
    (value_strictMono.monotone hhigh).trans_eq (value_two_zpow (by norm_num))
  split
  next hscaled =>
    obtain ⟨b, hb, hbits⟩ := magnitudeBits_mul hx hp
    rw [← bits_of_isFinite hscaled hbits] at hb
    have hone : 1 ≤ value (magnitudeBits (x * p)) := by
      rw [← value_oneBits]
      refine value_strictMono.monotone (hb.le_value ?_)
      rw [value_oneBits]
      calc (1 : ℝ) = 2 ^ (-3 : ℤ) * 2 ^ (3 : ℤ) := by norm_num
        _ ≤ _ := mul_le_mul hlarge hlow' (by positivity) (value_nonneg _)
    have hround := one_le_roundHalfAway hscaled hone
    obtain ⟨c, hc, hq⟩ := magnitudeBits_div (isFinite_roundHalfAway hscaled) hp (by omega)
    have hquot : 1008 * 2 ^ 52 + 2 ^ 52 ≤ c := by
      refine hc.le_value ?_
      have hP : 0 < value (magnitudeBits p) := lt_of_lt_of_le (by positivity) hlow'
      rw [value_two_zpow (e := -14) (by norm_num), le_div_iff₀ hP]
      calc (2 : ℝ) ^ (-14 : ℤ) * value (magnitudeBits p) ≤ 2 ^ (-14 : ℤ) * 2 ^ (14 : ℤ) :=
            mul_le_mul_of_nonneg_left hhigh' (by positivity)
        _ = 1 := by norm_num
        _ ≤ _ := hround
    have hr : 0 < magnitudeBits (roundHalfAway (x * p) / p) := by
      have : 0 < infinityBits := by decide
      omega
    rw [if_neg (ne_zero_of_magnitudeBits_pos hr).2]
    exact (ne_zero_of_magnitudeBits_pos hr).1
  next => exact (ne_zero_of_magnitudeBits_pos hx0).1

end FleetHealth.Binary64
