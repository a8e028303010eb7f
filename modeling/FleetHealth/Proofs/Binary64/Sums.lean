import FleetHealth.Proofs.Binary64.Finite

/-!
# Sums of one value

Sums of doubles of one sign, differences of equal doubles, and square roots. A sum of equal terms is
at most twice the exact one, and exact as long as every multiple of the term keeps to 53 digits.
-/
namespace FleetHealth.Binary64

open Float.Model Float.Model.UnpackedFloat

variable {x y : Float}

/-- What makes a finite number is finite, if nothing else does. -/
theorem isFinite_of_imp (h : x.isFinite = false → y.isFinite = false) (hy : y.isFinite = true) :
    x.isFinite = true := by
  cases hx : x.isFinite with
  | true => rfl
  | false => exact (h hx).symm.trans hy

/-- Rounding goes no further up than down to any double below. -/
theorem Rounds.value_le {v : ℝ} {b c : ℕ} (hb : Rounds v b) (hc : value c ≤ v) :
    value b ≤ 2 * v - value c := by
  obtain ⟨k, hk⟩ := hb
  have hck : value c ≤ value k := by
    have : value c < value (k + 1) := hc.trans_lt hk.lt
    exact value_strictMono.monotone (Nat.lt_succ_iff.1 (value_strictMono.lt_iff_lt.1 this))
  rcases Nat.le_or_eq_of_le_succ hk.bounds.2 with hle | rfl
  · have hbk : value b ≤ value k := value_strictMono.monotone hle
    have := hk.le
    linarith
  · have hmiddle : value k + value (k + 1) ≤ 2 * v := by
      by_contra hlt
      have := hk.down (not_le.1 hlt)
      omega
    linarith

theorem Rounds.value_le_two_mul {v : ℝ} {b : ℕ} (hb : Rounds v b) (hv : 0 ≤ v) :
    value b ≤ 2 * v := by
  simpa [value_zero] using hb.value_le (c := 0) (by rwa [value_zero])

theorem Rounds.le_value {v : ℝ} {b c : ℕ} (hb : Rounds v b) (h : value c ≤ v) : c ≤ b :=
  (rounds_value c).mono hb h

/-- A significand of up to 53 digits has bits at every exponent from the least one on. -/
theorem exists_value_eq {m : ℕ} (hm : m ≤ 2 ^ 53) {e : ℤ} (he : -1074 ≤ e) :
    ∃ b, value b = m * 2 ^ e := by
  obtain ⟨k, rfl⟩ : ∃ k : ℕ, e = k - 1074 := ⟨(e + 1074).toNat, by omega⟩
  induction k generalizing m with
  | zero => exact ⟨0 * 2 ^ 52 + m, value_eq hm (.inr rfl)⟩
  | succ k ih =>
    by_cases hn : 2 ^ 52 ≤ m
    · exact ⟨_, value_eq hm (.inl hn)⟩
    · obtain ⟨b, hb⟩ := ih (m := 2 * m) (by omega) (by omega)
      refine ⟨b, hb.trans ?_⟩
      have hstep : ((k + 1 : ℕ) : ℤ) - 1074 = k - 1074 + 1 := by push_cast; ring
      rw [hstep, zpow_add_one₀ two_ne_zero]
      push_cast
      ring

/-! ### Signs -/

/-- The sign of an unpacked number; what is no number has none and counts as positive. -/
def signOf : UnpackedFloat → Sign
  | .notANumber => .positive
  | .infinity s | .zero s | .finite s _ _ _ => s

theorem sign_eq (x : Float) : sign x = Sign.ofBitVec (@unpackSign .binary64 x.toBits.toBitVec) := by
  rw [ofBitVec_unpackSign, sign, signBit_eq]
  simp only [decide_eq_true_eq]
  rfl

theorem sign_ofModel (u : UnpackedFloat) : sign (.ofModel (.pack u)) = signOf u := by
  rw [sign_eq]
  change Sign.ofBitVec (unpackSign (UnpackedFloat.pack .binary64 u)) = _
  cases u with
  | finite s m e hm =>
    rw [UnpackedFloat.pack]
    dsimp only
    split
    · exact sign_packComponents ..
    · split <;> exact sign_packComponents ..
  | _ => exact sign_packComponents ..

theorem signOf_unpack (hx : x.isFinite = true) : signOf x.toModel.unpack = sign x := by
  have hfinite : x.toModel.unpack.isFinite = true := hx
  rw [unpack_fields] at hfinite ⊢
  unfold ofFields at hfinite ⊢
  split
  next hmax =>
    rw [if_pos hmax] at hfinite
    split at hfinite <;> cases hfinite
  next =>
    split
    next => split <;> rfl
    next => rfl

theorem signOf_roundWithAccuracy (s : Sign) (m : ℕ) (e : ℤ) (acc : Accuracy) :
    signOf (roundWithAccuracy .binary64 s m e acc) = s := by
  simp only [roundWithAccuracy]
  split <;> rfl

/-- A double is told by its sign and magnitude. -/
theorem eq_of_magnitudeBits_eq (hs : sign x = sign y) (hm : magnitudeBits x = magnitudeBits y) :
    x = y := by
  have hbit : signBit x = signBit y := by
    unfold sign at hs
    cases h : signBit x <;> cases h' : signBit y <;> simp_all
  rw [signBit_eq, signBit_eq, decide_eq_decide] at hbit
  rw [magnitudeBits_eq, magnitudeBits_eq] at hm
  have hx := x.toBits.toNat_lt
  have hy := y.toBits.toNat_lt
  refine Float.toBits_inj.1 (UInt64.toNat_inj.1 ?_)
  omega

/-! ### Operations -/

theorem signOf_normalize (s : Sign) {m : ℕ} (hm : 0 < m) (e : ℤ) :
    signOf (UnpackedFloat.normalize .binary64 (s.apply m) e .positive) = s ∧
      ∃ b, Rounds (m * 2 ^ e) b ∧
        packedBits (UnpackedFloat.normalize .binary64 (s.apply m) e .positive) = min b infinityBits := by
  have hround (s : Sign) : signOf (UnpackedFloat.round .binary64 s m e) = s :=
    signOf_roundWithAccuracy ..
  have hpos : (0 : ℤ) < m := Int.natCast_pos.2 hm
  cases s with
  | positive =>
    rw [UnpackedFloat.normalize, Sign.apply, compare_gt_iff_gt.2 hpos]
    exact ⟨hround _, round_rounds _ hm e⟩
  | negative =>
    rw [UnpackedFloat.normalize, Sign.apply, compare_lt_iff_lt.2 (neg_neg_of_pos hpos), neg_neg]
    exact ⟨hround _, round_rounds _ hm e⟩

/-- Doubles of one sign add up to the nearest double of that sign. -/
theorem add_of_sign (hx : x.isFinite = true) (hy : y.isFinite = true) (hs : sign x = sign y) :
    sign (x + y) = sign x ∧
      ∃ b, Rounds (value (magnitudeBits x) + value (magnitudeBits y)) b ∧
        magnitudeBits (x + y) = min b infinityBits := by
  change sign (.ofModel (.pack (UnpackedFloat.add .binary64 x.toModel.unpack y.toModel.unpack))) = _ ∧
    ∃ b, _ ∧ magnitudeBits (.ofModel (.pack
      (UnpackedFloat.add .binary64 x.toModel.unpack y.toModel.unpack))) = _
  rw [sign_ofModel, magnitudeBits_ofModel, ← signOf_unpack hx]
  rw [← signOf_unpack hx, ← signOf_unpack hy] at hs
  rw [isFinite_iff] at hx hy
  have h := unpacks x
  have h' := unpacks y
  generalize x.toModel.unpack = u at h hs
  generalize y.toModel.unpack = v at h' hs
  cases h with
  | nan bits => omega
  | infinity s bits => omega
  | zero s bits =>
    cases h' with
    | nan bits' => omega
    | infinity s' bits' => omega
    | zero s' bits' =>
      obtain rfl : s = s' := hs
      have hadd : UnpackedFloat.add .binary64 (.zero s) (.zero s) = .zero s := by cases s <;> rfl
      rw [hadd, bits, bits', value_zero, add_zero]
      exact ⟨rfl, 0, value_zero ▸ rounds_value 0, packedBits_zero s⟩
    | finite s' m' e' hm' fits' bits' =>
      rw [bits, value_zero, zero_add]
      refine ⟨hs.symm, _, rounds_value _, ?_⟩
      exact (packedBits_finite hm' fits').trans (by rw [bits'])
  | finite s m e hm fits bits =>
    cases h' with
    | nan bits' => omega
    | infinity s' bits' => omega
    | zero s' bits' =>
      rw [bits', value_zero, add_zero]
      refine ⟨rfl, _, rounds_value _, ?_⟩
      exact (packedBits_finite hm fits).trans (by rw [bits])
    | finite s' m' e' hm' fits' bits' =>
      obtain rfl : s = s' := hs
      rw [bits, bits', fits.value_eq, fits'.value_eq]
      -- both significands are brought to the smaller exponent, where they add as integers
      generalize ht : min e e' = t
      have hsum : s.apply (m <<< (e - t).toNat : ℕ) + s.apply (m' <<< (e' - t).toNat : ℕ) =
          s.apply ((m * 2 ^ (e - t).toNat + m' * 2 ^ (e' - t).toNat : ℕ) : ℤ) := by
        rw [Nat.shiftLeft_eq, Nat.shiftLeft_eq]
        cases s
        · simp only [Sign.apply]
          push_cast
          ring
        · simp only [Sign.apply]
          push_cast
          ring
      have hexact : (m * 2 ^ e + m' * 2 ^ e' : ℝ) =
          ((m * 2 ^ (e - t).toNat + m' * 2 ^ (e' - t).toNat : ℕ) : ℝ) * 2 ^ t := by
        have he : e = (e - t).toNat + t := by omega
        have he' : e' = (e' - t).toNat + t := by omega
        conv_lhs =>
          rw [he, he', zpow_add₀ two_ne_zero, zpow_add₀ two_ne_zero, zpow_natCast, zpow_natCast]
        push_cast
        ring
      have hpos : 0 < m * 2 ^ (e - t).toNat + m' * 2 ^ (e' - t).toNat := by positivity
      obtain ⟨hsign, b, hb, hbits⟩ := signOf_normalize s hpos t
      simp only [UnpackedFloat.add, decreaseExponent, ht, hsum, hexact]
      exact ⟨hsign, b, hb, hbits⟩

theorem sign_mul (hx : x.isFinite = true) (hy : y.isFinite = true) :
    sign (x * y) = sign x * sign y := by
  change sign (.ofModel (.pack (.mul .binary64 x.toModel.unpack y.toModel.unpack))) = _
  rw [sign_ofModel, ← signOf_unpack hx, ← signOf_unpack hy]
  have hu : x.toModel.unpack.isFinite = true := hx
  have hv : y.toModel.unpack.isFinite = true := hy
  generalize x.toModel.unpack = u at hu
  generalize y.toModel.unpack = v at hv
  cases u with
  | notANumber => cases hu
  | infinity s => cases hu
  | zero s =>
    cases v with
    | notANumber => cases hv
    | infinity s' => cases hv
    | zero s' => rfl
    | finite s' m' e' hm' => rfl
  | finite s m e hm =>
    cases v with
    | notANumber => cases hv
    | infinity s' => cases hv
    | zero s' => rfl
    | finite s' m' e' hm' => exact signOf_roundWithAccuracy ..

/-- The sign of a quotient that a positive number divides. -/
theorem sign_div (hx : x.isFinite = true) (hy : y.isFinite = true) (hpos : 0 < magnitudeBits y)
    (hs : sign y = .positive) : sign (x / y) = sign x := by
  change sign (.ofModel (.pack (.div .binary64 x.toModel.unpack y.toModel.unpack))) = _
  rw [sign_ofModel, ← signOf_unpack hx]
  rw [← signOf_unpack hy] at hs
  rw [isFinite_iff] at hx hy
  have h := unpacks x
  have h' := unpacks y
  generalize x.toModel.unpack = u at h
  generalize y.toModel.unpack = v at h' hs
  have hdiv (s : Sign) : s / .positive = s := by cases s <;> rfl
  cases h' with
  | nan bits' => omega
  | infinity s' bits' => omega
  | zero s' bits' => omega
  | finite s' m' e' hm' fits' bits' =>
    obtain rfl : s' = .positive := hs
    cases h with
    | nan bits => omega
    | infinity s bits => omega
    | zero s bits => exact hdiv s
    | finite s m e hm fits bits => exact (signOf_roundWithAccuracy ..).trans (hdiv s)

/-- Below 2 ^ 53 a natural number is made into the double that stands for it. -/
theorem ofNat_exact {n : ℕ} (hn : n < 2 ^ 53) : (Float.ofNat n).isFinite = true ∧
    value (magnitudeBits (Float.ofNat n)) = n ∧ sign (Float.ofNat n) = .positive := by
  obtain ⟨b, hb, hbits⟩ := magnitudeBits_ofNat n
  obtain ⟨c, hc⟩ := exists_value_eq hn.le (e := 0) (by norm_num)
  rw [zpow_zero, mul_one] at hc
  have hbc : b = c := hb.unique (hc ▸ rounds_value c)
  have hsmall : c ≤ wholeBits := by
    rw [← value_strictMono.le_iff_le, hc, value_wholeBits]
    exact_mod_cast hn.le
  have hlt : c < infinityBits := hsmall.trans_lt (by decide)
  rw [hbc, min_eq_left hlt.le] at hbits
  have hfinite : (Float.ofNat n).isFinite = true := (isFinite_iff _).2 (hbits ▸ hlt)
  refine ⟨hfinite, hbits ▸ hc, ?_⟩
  have hprod : Float.ofNat n = n.toUInt64.toFloat * .ofBits 0x3FF0000000000000 := by
    change Float.ofScientific n false 0 = _
    unfold Float.ofScientific
    exact dif_pos ⟨hn, by decide⟩
  have hword : sign n.toUInt64.toFloat = .positive := by
    change sign (.ofModel (.pack (UnpackedFloat.normalize .binary64 n.toUInt64.toNat 0 .positive))) = _
    rw [sign_ofModel]
    rcases Nat.eq_zero_or_pos n.toUInt64.toNat with h0 | hpos
    · rw [h0]
      rfl
    · exact (signOf_normalize .positive hpos 0).1
  rw [hprod] at hfinite ⊢
  have hword_finite : n.toUInt64.toFloat.isFinite = true :=
    isFinite_of_imp (fun h => isFinite_mul_eq_false (.inl h)) hfinite
  rw [sign_mul hword_finite (by decide), hword]
  rfl

theorem magnitudeBits_sub_self (hx : x.isFinite = true) : magnitudeBits (x - x) = 0 := by
  change magnitudeBits (.ofModel (.pack
    (UnpackedFloat.sub .binary64 x.toModel.unpack x.toModel.unpack))) = 0
  rw [magnitudeBits_ofModel]
  rw [isFinite_iff] at hx
  have h := unpacks x
  generalize x.toModel.unpack = u at h
  cases h with
  | nan bits => omega
  | infinity s bits => omega
  | zero s bits => cases s <;> exact packedBits_zero _
  | finite s m e hm fits bits =>
    have hsub : UnpackedFloat.sub .binary64 (.finite s m e hm) (.finite s m e hm) = .zero .positive := by
      simp only [UnpackedFloat.sub, sub_self, UnpackedFloat.normalize]
      rfl
    rw [hsub, packedBits_zero]

/-- A remainder tells how far above the integer root the exact one lies. -/
theorem represents_sqrt (n : ℕ) :
    Represents √n (.ofMantissaAndAccuracy n.sqrt
      (if n - n.sqrt * n.sqrt = 0 then .exact
        else .inexact (if n - n.sqrt * n.sqrt ≤ n.sqrt then .lt else .gt))) := by
  have hlow : n.sqrt * n.sqrt ≤ n := n.sqrt_le
  have hhigh : n < (n.sqrt + 1) * (n.sqrt + 1) := n.lt_succ_sqrt
  generalize n.sqrt = r at hlow hhigh
  have hr : (0 : ℝ) ≤ r := Nat.cast_nonneg r
  split
  next h0 =>
    have hn : n = r * r := by omega
    rw [hn]
    push_cast
    exact Real.sqrt_mul_self hr
  next h0 =>
    have hlow' : (r : ℝ) * r < n := by exact_mod_cast (by omega : r * r < n)
    split
    next hle =>
      have hle' : (n : ℝ) ≤ r * r + r := by exact_mod_cast (by omega : n ≤ r * r + r)
      have hroot : (r : ℝ) < √n := Real.lt_sqrt_of_sq_lt (by linarith [pow_two (r : ℝ)])
      have hroot' : √n < r + 1 / 2 := (Real.sqrt_lt' (by linarith)).2 (by nlinarith)
      exact ⟨hroot, by linarith⟩
    next hgt =>
      have hgt' : (r : ℝ) * r + r + 1 ≤ n := by exact_mod_cast (by omega : r * r + r + 1 ≤ n)
      have hhigh' : (n : ℝ) < (r + 1) * (r + 1) := by exact_mod_cast hhigh
      have hroot : r + 1 / 2 < √n := Real.lt_sqrt_of_sq_lt (by nlinarith)
      have hroot' : √n < r + 1 := (Real.sqrt_lt' (by linarith)).2 (by linarith [pow_two (r + 1 : ℝ)])
      exact ⟨by linarith, hroot'⟩

theorem sqrt_rounds {m : ℕ} (hm : 0 < m) (e : ℤ) :
    ∃ b, Rounds √(m * 2 ^ e) b ∧
      packedBits (let (q, t, acc) := sqrtCore .binary64 m e
        roundWithAccuracy .binary64 .positive q t acc) = min b infinityBits := by
  have hhalf (a : ℤ) : a.ediv 2 = a / 2 := rfl
  simp only [sqrtCore, hhalf]
  generalize ht : min (e / 2) (Format.binary64.targetExponent ((totalExponent m e + 1) / 2)) = t
  generalize hn : (e - 2 * t).toNat = n
  rw [Nat.shiftLeft_eq]
  have hexact : √(m * 2 ^ e : ℝ) = √((m * 2 ^ n : ℕ) : ℝ) * 2 ^ t := by
    have he : e = n + (t + t) := by omega
    rw [he, zpow_add₀ two_ne_zero, zpow_add₀ two_ne_zero, zpow_natCast, ← mul_assoc]
    push_cast
    rw [Real.sqrt_mul (by positivity), Real.sqrt_mul_self (by positivity)]
  rw [hexact]
  refine roundWithAccuracy_rounds .positive (represents_sqrt _) ?_
  rw [targetExponent_eq, totalExponent] at ht
  rw [targetExponent_eq, totalExponent]
  by_cases hmin : t ≤ -1074
  · exact hmin.trans (le_max_right _ _)
  · -- above the least exponent the shift was chosen to give the root 53 digits
    have hlog : m.log2 + n ≥ 104 := by omega
    have hdigits : 2 ^ 52 ≤ (m * 2 ^ n).sqrt := by
      rw [Nat.le_sqrt]
      calc 2 ^ 52 * 2 ^ 52 ≤ 2 ^ (m.log2 + n) := by
            rw [← pow_add]
            exact Nat.pow_le_pow_right two_pos hlog
        _ = 2 ^ m.log2 * 2 ^ n := pow_add ..
        _ ≤ m * 2 ^ n := Nat.mul_le_mul_right _ (Nat.log2_self_le hm.ne')
    have : 52 ≤ (m * 2 ^ n).sqrt.log2 := (Nat.le_log2 (by omega)).2 hdigits
    omega

/-- The square root, where there is one, is the double nearest to the exact one. -/
theorem magnitudeBits_sqrt (h : x.sqrt.isFinite = true) :
    ∃ b, Rounds √(value (magnitudeBits x)) b ∧ magnitudeBits x.sqrt = min b infinityBits := by
  have hx : x.isFinite = true := isFinite_of_imp isFinite_sqrt_eq_false h
  change (Float.ofModel (.pack (UnpackedFloat.sqrt .binary64 x.toModel.unpack))).isFinite = true at h
  change ∃ b, _ ∧
    magnitudeBits (.ofModel (.pack (UnpackedFloat.sqrt .binary64 x.toModel.unpack))) = _
  rw [magnitudeBits_ofModel]
  rw [isFinite_iff] at hx
  have hu := unpacks x
  generalize x.toModel.unpack = u at h hu
  cases hu with
  | nan bits => omega
  | infinity s bits => omega
  | zero s bits =>
    rw [bits, value_zero, Real.sqrt_zero]
    exact ⟨0, value_zero ▸ rounds_value 0, packedBits_zero s⟩
  | finite s m e hm fits bits =>
    cases s with
    | negative => exact absurd h (Bool.eq_false_iff.1 (isFinite_pack_eq_false rfl))
    | positive =>
      rw [bits, fits.value_eq]
      exact sqrt_rounds hm e

/-! ### Sums of one value -/

theorem bits_of_isFinite {b : ℕ} (hx : x.isFinite = true) (h : magnitudeBits x = min b infinityBits) :
    magnitudeBits x = b := by
  have := (isFinite_iff x).1 hx
  omega

/-- Unpacking loses nothing. -/
theorem ofModel_pack_unpack (x : Float) : Float.ofModel (.pack x.toModel.unpack) = x :=
  Float.toBits_inj.1 (UInt64.toBitVec_inj.1 (pack_unpack_of_valid x.toModel.valid))

/-- The sum starts from the neutral element. -/
theorem negZero_add (hx : x.isFinite = true) : -0.0 + x = x := by
  have hzero : (-0.0 : Float).toModel.unpack = .zero .negative := rfl
  have hadd : UnpackedFloat.add .binary64 (.zero .negative) x.toModel.unpack = x.toModel.unpack := by
    have h : x.toModel.unpack.isFinite = true := hx
    generalize x.toModel.unpack = u at h
    cases u with
    | notANumber => cases h
    | infinity s => cases h
    | zero s => cases s <;> rfl
    | finite s m e hm => rfl
  change Float.ofModel (.pack (UnpackedFloat.add .binary64 (-0.0 : Float).toModel.unpack
    x.toModel.unpack)) = x
  rw [hzero, hadd, ofModel_pack_unpack]

theorem sum_singleton (hx : x.isFinite = true) : sum [x] = x := negZero_add hx

theorem sum_replicate_succ (n : ℕ) (x : Float) :
    sum (List.replicate (n + 1) x) = sum (List.replicate n x) + x := by
  rw [List.replicate_succ', sum, sumFrom, List.foldl_append]
  rfl

theorem isFinite_sum_replicate_of_succ {n : ℕ}
    (hsum : (sum (List.replicate (n + 1) x)).isFinite = true) :
    (sum (List.replicate n x)).isFinite = true := by
  rw [sum_replicate_succ] at hsum
  exact isFinite_of_imp (fun h => isFinite_add_eq_false (.inl h)) hsum

/-- One more term to a finite sum of terms of one sign. -/
theorem sum_replicate_step {n : ℕ} (hx : x.isFinite = true)
    (hsum : (sum (List.replicate (n + 1) x)).isFinite = true)
    (hs : sign (sum (List.replicate n x)) = sign x) :
    sign (sum (List.replicate (n + 1) x)) = sign x ∧
      Rounds (value (magnitudeBits (sum (List.replicate n x))) + value (magnitudeBits x))
        (magnitudeBits (sum (List.replicate (n + 1) x))) := by
  have hbefore := isFinite_sum_replicate_of_succ hsum
  rw [sum_replicate_succ] at hsum ⊢
  obtain ⟨hsign, b, hb, hbits⟩ := add_of_sign hbefore hx hs
  exact ⟨hsign.trans hs, bits_of_isFinite hsum hbits ▸ hb⟩

/-- A step goes past the exact sum by no more than the term that it adds. -/
theorem sum_replicate_le {n : ℕ} (hn : 1 ≤ n) (hx : x.isFinite = true)
    (hsum : (sum (List.replicate n x)).isFinite = true) :
    sign (sum (List.replicate n x)) = sign x ∧
      value (magnitudeBits (sum (List.replicate n x))) ≤ 2 * n * value (magnitudeBits x) := by
  induction n, hn using Nat.le_induction with
  | base =>
    have hpos := value_nonneg (magnitudeBits x)
    rw [List.replicate_one, sum_singleton hx]
    exact ⟨rfl, by push_cast; linarith⟩
  | succ n hn ih =>
    obtain ⟨hs, hle⟩ := ih (isFinite_sum_replicate_of_succ hsum)
    obtain ⟨hsign, hrounds⟩ := sum_replicate_step hx hsum hs
    have hterm := hrounds.value_le (le_add_of_nonneg_right (value_nonneg _))
    refine ⟨hsign, ?_⟩
    push_cast
    linarith

/-- Where all multiples of a term keep to 53 digits, their sums are exact. -/
theorem sum_replicate_eq {n m : ℕ} {e : ℤ} (hn : 1 ≤ n) (hx : x.isFinite = true)
    (hvalue : value (magnitudeBits x) = m * 2 ^ e) (he : -1074 ≤ e) (hdigits : n * m ≤ 2 ^ 53)
    (hsum : (sum (List.replicate n x)).isFinite = true) :
    sign (sum (List.replicate n x)) = sign x ∧
      value (magnitudeBits (sum (List.replicate n x))) = n * value (magnitudeBits x) := by
  induction n, hn using Nat.le_induction with
  | base =>
    rw [List.replicate_one, sum_singleton hx]
    exact ⟨rfl, by simp⟩
  | succ n hn ih =>
    obtain ⟨hs, heq⟩ := ih ((Nat.mul_le_mul_right m n.le_succ).trans hdigits)
      (isFinite_sum_replicate_of_succ hsum)
    obtain ⟨hsign, hrounds⟩ := sum_replicate_step hx hsum hs
    obtain ⟨b, hb⟩ := exists_value_eq hdigits he
    have hexact : value (magnitudeBits (sum (List.replicate n x))) + value (magnitudeBits x) =
        value b := by
      rw [heq, hb, hvalue]
      push_cast
      ring
    rw [hexact] at hrounds
    refine ⟨hsign, ?_⟩
    rw [hrounds.unique (rounds_value b), ← hexact, heq]
    push_cast
    ring

end FleetHealth.Binary64
