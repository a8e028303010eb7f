import FleetHealth.Binary64
import FleetHealth.Proofs.Binary64.Arithmetic

/-!
# Finite and infinite results

What leaves the range of doubles does not come back through a sum, a product, a square root or a
dividend. Rounding to decimal places gives a finite double for every argument.
-/
namespace FleetHealth.Binary64

open Float.Model

variable {x y : Float}

theorem isFinite_pack_eq_false {u : UnpackedFloat} (h : u.isFinite = false) :
    (Float.ofModel (.pack u)).isFinite = false := by
  cases u with
  | notANumber => decide
  | infinity s => cases s <;> decide
  | zero s => cases h
  | finite s m e hm => cases h

/-- A sum, difference or product takes in what is not finite of its operands. -/
theorem isFinite_unpacked_eq_false {op : UnpackedFloat → UnpackedFloat → UnpackedFloat}
    (hop : op ∈ [UnpackedFloat.add .binary64, .sub .binary64, .mul .binary64]) {u v : UnpackedFloat}
    (h : u.isFinite = false ∨ v.isFinite = false) : (op u v).isFinite = false := by
  simp only [List.mem_cons, List.not_mem_nil, or_false] at hop
  -- two infinities may cancel, and infinity times zero is no number
  rcases h with h | h
  · cases u with
    | zero s => cases h
    | finite s m e hm => cases h
    | notANumber => rcases hop with rfl | rfl | rfl <;> cases v <;> rfl
    | infinity s =>
      rcases hop with rfl | rfl | rfl <;> cases s <;> rcases v with (_ | _) | _ | _ | _ <;> rfl
  · cases v with
    | zero s => cases h
    | finite s m e hm => cases h
    | notANumber => rcases hop with rfl | rfl | rfl <;> cases u <;> rfl
    | infinity s =>
      rcases hop with rfl | rfl | rfl <;> cases s <;> rcases u with (_ | _) | _ | _ | _ <;> rfl

theorem isFinite_add_eq_false (h : x.isFinite = false ∨ y.isFinite = false) :
    (x + y).isFinite = false :=
  isFinite_pack_eq_false (isFinite_unpacked_eq_false (by simp) h)

theorem isFinite_sub_eq_false (h : x.isFinite = false ∨ y.isFinite = false) :
    (x - y).isFinite = false :=
  isFinite_pack_eq_false (isFinite_unpacked_eq_false (by simp) h)

theorem isFinite_mul_eq_false (h : x.isFinite = false ∨ y.isFinite = false) :
    (x * y).isFinite = false :=
  isFinite_pack_eq_false (isFinite_unpacked_eq_false (by simp) h)

theorem isFinite_div_eq_false (h : x.isFinite = false) (y : Float) : (x / y).isFinite = false := by
  have hu {u v : UnpackedFloat} (h : u.isFinite = false) :
      (UnpackedFloat.div .binary64 u v).isFinite = false := by
    cases u with
    | zero s => cases h
    | finite s m e hm => cases h
    | notANumber => cases v <;> rfl
    | infinity s => cases v <;> rfl
  exact isFinite_pack_eq_false (hu h)

theorem isFinite_sqrt_eq_false (h : x.isFinite = false) : x.sqrt.isFinite = false := by
  have hu {u : UnpackedFloat} (h : u.isFinite = false) :
      (UnpackedFloat.sqrt .binary64 u).isFinite = false := by
    cases u with
    | notANumber => rfl
    | infinity s => cases s <;> rfl
    | zero s => cases h
    | finite s m e hm => cases h
  exact isFinite_pack_eq_false (hu h)

theorem sumFrom_concat (start : Float) (xs : List Float) (x : Float) :
    sumFrom start (xs ++ [x]) = sumFrom start xs + x := by
  rw [sumFrom, List.foldl_append]
  rfl

theorem isFinite_sumFrom_eq_false {start : Float} {xs : List Float}
    (h : start.isFinite = false ∨ ∃ x ∈ xs, x.isFinite = false) :
    (sumFrom start xs).isFinite = false := by
  induction xs generalizing start with
  | nil => simpa [sumFrom] using h
  | cons x rest ih =>
    refine ih ?_
    simp only [List.exists_mem_cons_iff] at h
    rcases h with h | h | h
    · exact .inl (isFinite_add_eq_false (.inl h))
    · exact .inl (isFinite_add_eq_false (.inr h))
    · exact .inr h

/-- A change of sign leaves the magnitude of a finite double as it is. -/
theorem magnitudeBits_resigned {op : UnpackedFloat → UnpackedFloat}
    (hop : op ∈ [UnpackedFloat.neg, UnpackedFloat.abs]) (hx : x.isFinite = true) :
    magnitudeBits (.ofModel (.pack (op x.toModel.unpack))) = magnitudeBits x := by
  simp only [List.mem_cons, List.not_mem_nil, or_false] at hop
  rw [magnitudeBits_ofModel]
  rw [isFinite_iff] at hx
  have h := unpacks x
  generalize x.toModel.unpack = u at h
  cases h with
  | nan bits => omega
  | infinity s bits => omega
  | zero s bits => rcases hop with rfl | rfl <;> exact (packedBits_zero _).trans bits.symm
  | finite s m e hm fits bits bound =>
    rcases hop with rfl | rfl <;>
      exact (packedBits_finite hm fits).trans ((min_eq_left (bits ▸ bound).le).trans bits.symm)

theorem magnitudeBits_neg (hx : x.isFinite = true) : magnitudeBits (-x) = magnitudeBits x :=
  magnitudeBits_resigned (by simp) hx

theorem isFinite_neg (x : Float) : (-x).isFinite = x.isFinite := by
  cases hx : x.isFinite with
  | true =>
    rw [isFinite_iff, magnitudeBits_neg hx]
    exact (isFinite_iff x).1 hx
  | false =>
    change x.toModel.unpack.isFinite = false at hx
    change (Float.ofModel (.pack x.toModel.unpack.neg)).isFinite = false
    refine isFinite_pack_eq_false ?_
    generalize x.toModel.unpack = u at hx
    cases u with
    | notANumber => rfl
    | infinity s => rfl
    | zero s => cases hx
    | finite s m e hm => cases hx

theorem magnitudeBits_abs (hx : x.isFinite = true) : magnitudeBits x.abs = magnitudeBits x :=
  magnitudeBits_resigned (by simp) hx

/-- The significand and exponent read off a double make the number that its bits stand for. -/
theorem value_magnitudeBits (x : Float) :
    value (magnitudeBits x) = (Scaled.ofFloat x).significand * 2 ^ (Scaled.ofFloat x).exponent := by
  simp only [Scaled.ofFloat]
  generalize magnitudeBits x = b
  split
  next h0 =>
    have hb : b = 0 * 2 ^ 52 + b % 2 ^ 52 := by omega
    conv_lhs => rw [hb]
    rw [value_eq (by omega) (.inr rfl)]
    rfl
  next h0 =>
    have hb : b = (b / 2 ^ 52 - 1) * 2 ^ 52 + (2 ^ 52 + b % 2 ^ 52) := by omega
    conv_lhs => rw [hb]
    rw [value_eq (by omega) (.inl (by omega))]
    congr 2
    change ((b / 2 ^ 52 - 1 : ℕ) : ℤ) - 1074 = (b / 2 ^ 52 : ℕ) - 1075
    omega

theorem significand_lt (x : Float) : (Scaled.ofFloat x).significand < 2 ^ 53 := by
  simp only [Scaled.ofFloat]
  split <;> simp only <;> omega

/-- The nearest integer is the number itself, or has no more digits than its significand. -/
theorem nearest_le (x : Float) :
    ((Scaled.ofFloat x).nearest : ℝ) ≤ max (value (magnitudeBits x)) (2 ^ 53) := by
  have hvalue := value_magnitudeBits x
  have hlt := significand_lt x
  generalize Scaled.ofFloat x = s at hvalue hlt
  obtain ⟨negative, m, e⟩ := s
  cases e with
  | ofNat k =>
    refine le_max_of_le_left (le_of_eq ?_)
    rw [hvalue]
    simp only [Scaled.nearest, Nat.pow_eq, Int.ofNat_eq_natCast, zpow_natCast]
    push_cast
    rfl
  | negSucc k =>
    refine le_max_of_le_right ?_
    have hle : (m + 2 ^ k) / 2 ^ (k + 1) ≤ m + 1 := by
      have hk := Nat.two_pow_pos k
      rw [Nat.div_le_iff_le_mul_add_pred (Nat.two_pow_pos _), pow_succ]
      nlinarith
    have : (m + 2 ^ k) / 2 ^ (k + 1) ≤ 2 ^ 53 := hle.trans hlt
    exact_mod_cast this

theorem ofNat_bounds {n : ℕ} (hn : 1 ≤ n) :
    (Float.ofNat n).isNaN = false ∧ 1 ≤ value (magnitudeBits (Float.ofNat n)) := by
  obtain ⟨b, hb, hbits⟩ := magnitudeBits_ofNat n
  have hone : oneBits ≤ b := (rounds_value oneBits).mono hb (by rw [value_oneBits]; exact_mod_cast hn)
  rw [hbits]
  refine ⟨?_, value_oneBits ▸ value_strictMono.monotone (le_min hone (by decide))⟩
  rw [← Bool.not_eq_true, isNaN_iff]
  omega

theorem isFinite_ofNat_nearest (hx : x.isFinite = true) :
    (Float.ofNat (Scaled.ofFloat x).nearest).isFinite = true := by
  obtain ⟨b, hb, hbits⟩ := magnitudeBits_ofNat (Scaled.ofFloat x).nearest
  have hc : max (magnitudeBits x) wholeBits < infinityBits :=
    max_lt ((isFinite_iff x).1 hx) (by decide)
  refine isFinite_of_rounds hb hbits hc ((nearest_le x).trans ?_)
  rw [value_strictMono.monotone.map_max, value_wholeBits]

theorem isFinite_roundHalfAway (hx : x.isFinite = true) : (roundHalfAway x).isFinite = true := by
  have hnat := isFinite_ofNat_nearest hx
  simp only [roundHalfAway, hx, if_true]
  split
  · exact (isFinite_neg _).trans hnat
  · exact hnat

theorem powerOfTen_mem {places : ℤ} (h : 1 ≤ places) (h' : places ≤ 4) :
    powerOfTen places ∈ [10.0, 100.0, 1000.0, 10000.0] := by
  interval_cases places <;> simp [powerOfTen, powerTimes] <;> decide

theorem powerOfTen_bounds {places : ℤ} (h : 1 ≤ places) (h' : places ≤ 4) :
    (powerOfTen places).isNaN = false ∧ 1 ≤ value (magnitudeBits (powerOfTen places)) := by
  have hall : ∀ x ∈ ([10.0, 100.0, 1000.0, 10000.0] : List Float),
      x.isNaN = false ∧ oneBits ≤ magnitudeBits x := by decide
  obtain ⟨hn, hone⟩ := hall _ (powerOfTen_mem h h')
  exact ⟨hn, value_oneBits ▸ value_strictMono.monotone hone⟩

theorem isFinite_roundTo (x : Float) {places : ℤ} (h : 1 ≤ places) (h' : places ≤ 4) :
    (roundTo x places).isFinite = true := by
  have hzero : (0.0 : Float).isFinite = true := by decide
  unfold roundTo
  split
  next hx =>
    simp only
    split
    next hs =>
      split
      next => exact hzero
      next =>
        obtain ⟨hn, hone⟩ := powerOfTen_bounds h h'
        exact div_isFinite (isFinite_roundHalfAway hs) hn hone
    next => exact hx
  next => exact hzero

/-- Nothing is rounded to zero, and a zero result is positive. -/
theorem roundTo_zero {places : ℤ} (h : 1 ≤ places) (h' : places ≤ 4) : roundTo 0.0 places = 0.0 := by
  have hall : ∀ x ∈ ([10.0, 100.0, 1000.0, 10000.0] : List Float),
      (0.0 * x).isFinite = true ∧ (roundHalfAway (0.0 * x) / x == 0.0) = true := by decide +kernel
  obtain ⟨hscaled, hzero⟩ := hall _ (powerOfTen_mem h h')
  rw [roundTo, if_pos (by decide)]
  simp only [hscaled, hzero, if_true]

theorem isFinite_clamp {low high : Float} (hx : x.isFinite = true) (hl : low.isFinite = true)
    (hh : high.isFinite = true) : (clamp low high x).isFinite = true := by
  have hraised : (if x < low then low else x).isFinite = true := by
    split
    next => exact hl
    next => exact hx
  simp only [clamp]
  generalize (if x < low then low else x) = raised at hraised
  split
  next => exact hh
  next => exact hraised

end FleetHealth.Binary64
