import FleetHealth.Proofs.Binary64.Errors

/-!
# Accumulated rounding errors

A computed number is within some roundings of an exact one, on a scale that is at least the size of the
exact one. Rounding adds one, products add up, sums keep the greater count: the scales add and multiply
as the numbers do, so that cancellation shows as a scale far above the number.
-/
namespace FleetHealth.Binary64

/-- The greatest factor by which `k` roundings raise a number. -/
noncomputable def growth (k : ℕ) : ℝ := (1 + roundoff) ^ k

theorem growth_zero : growth 0 = 1 := pow_zero _

theorem growth_succ (k : ℕ) : growth (k + 1) = growth k * (1 + roundoff) := pow_succ _ _

theorem growth_add (k l : ℕ) : growth (k + l) = growth k * growth l := pow_add _ _ _

theorem one_le_growth (k : ℕ) : 1 ≤ growth k :=
  one_le_pow₀ (by linarith [roundoff_pos])

theorem growth_mono : Monotone growth := fun _ _ h =>
  pow_le_pow_right₀ (by linarith [roundoff_pos]) h

theorem one_add_mul_le_growth (k : ℕ) : 1 + k * roundoff ≤ growth k :=
  one_add_mul_le_pow (by linarith [roundoff_pos]) k

/-- What a factor takes off is no more than what it adds. -/
theorem two_sub_mul_le {g c : ℝ} (hg : 1 ≤ g) (hc : 0 ≤ c) : 2 - g * (1 + c) ≤ (2 - g) * (1 - c) := by
  nlinarith

/-- As long as the roundings are few, each counts at most twice. -/
theorem growth_le {k : ℕ} (h : 2 * (k * roundoff) ≤ 1) : growth k ≤ 1 + 2 * (k * roundoff) := by
  have hpos := roundoff_pos
  induction k with
  | zero => simp [growth_zero]
  | succ k ih =>
    push_cast at h ⊢
    have hk : 2 * (k * roundoff) ≤ 1 := by linarith
    calc growth (k + 1) = growth k * (1 + roundoff) := growth_succ k
      _ ≤ (1 + 2 * (k * roundoff)) * (1 + roundoff) :=
        mul_le_mul_of_nonneg_right (ih hk) (by linarith)
      _ = 1 + 2 * (k * roundoff) + roundoff + 2 * (k * roundoff) * roundoff := by ring
      _ ≤ 1 + 2 * ((k + 1) * roundoff) := by
        linarith [mul_le_mul_of_nonneg_right hk hpos.le]

/-- The number `x` comes from `v` by at most `k` roundings, where the numbers that were rounded are of
the size of `scale`. -/
structure Within (k : ℕ) (scale v x : ℝ) : Prop where
  scale_le : |v| ≤ scale
  error : |x - v| ≤ (growth k - 1) * scale

/-- The error of a number next to zero is relative to this scale, too. -/
def Covers (scale : ℝ) : Prop := scale = 0 ∨ (2 : ℕ) ^ (-1075 : ℤ) ≤ roundoff * scale

/-- A size that is either nothing or not next to zero. -/
def Coarse (e : ℤ) (t : ℝ) : Prop := t = 0 ∨ (2 : ℕ) ^ e ≤ t

namespace Coarse

variable {d e : ℤ} {s t : ℝ}

theorem nonneg (h : Coarse e t) : 0 ≤ t := by
  obtain rfl | h := h
  · exact le_rfl
  · exact h.trans' (by positivity)

theorem natCast (n : ℕ) : Coarse 0 n := by
  rcases Nat.eq_zero_or_pos n with rfl | hn
  · exact .inl Nat.cast_zero
  · exact .inr (by exact_mod_cast hn)

theorem mul (hs : Coarse d s) (ht : Coarse e t) : Coarse (d + e) (s * t) := by
  obtain rfl | hd := hs
  · exact .inl (zero_mul t)
  · obtain rfl | he := ht
    · exact .inl (mul_zero s)
    · refine .inr ?_
      rw [zpow_add₀ (Nat.cast_ne_zero.2 two_ne_zero)]
      exact mul_le_mul hd he (by positivity) (hd.trans' (by positivity))

theorem add (hs : Coarse e s) (ht : Coarse e t) : Coarse e (s + t) := by
  have ht0 := ht.nonneg
  obtain rfl | hs := hs
  · rwa [zero_add]
  · exact .inr (by linarith)

theorem sum {ts : List ℝ} (h : ∀ t ∈ ts, Coarse e t) : Coarse e ts.sum := by
  induction ts with
  | nil => exact .inl rfl
  | cons t rest ih =>
    rw [List.forall_mem_cons] at h
    rw [List.sum_cons]
    exact h.1.add (ih h.2)

theorem covers (h : Coarse e t) (he : -1022 ≤ e) : Covers t := by
  refine h.imp_right fun hle => ?_
  calc (2 : ℝ) ^ (-1075 : ℤ) ≤ roundoff * 2 ^ e := by
        rw [roundoff_eq, ← zpow_add₀ two_ne_zero]
        exact zpow_le_zpow_right₀ (by norm_num) (by linarith)
    _ ≤ roundoff * t := mul_le_mul_of_nonneg_left hle roundoff_pos.le

end Coarse

namespace Within

variable {k l : ℕ} {scale scale' v v' x x' y : ℝ}

theorem exact (v : ℝ) : Within 0 |v| v v :=
  ⟨le_rfl, by simp [growth_zero]⟩

theorem nonneg (h : Within k scale v x) : 0 ≤ scale := (abs_nonneg v).trans h.scale_le

theorem mono (h : Within k scale v x) (hk : k ≤ l) : Within l scale v x := by
  refine ⟨h.scale_le, h.error.trans (mul_le_mul_of_nonneg_right ?_ h.nonneg)⟩
  linarith [growth_mono hk]

theorem mono_scale (h : Within k scale v x) (hs : scale ≤ scale') : Within k scale' v x := by
  refine ⟨h.scale_le.trans hs, h.error.trans (mul_le_mul_of_nonneg_left hs ?_)⟩
  linarith [one_le_growth k]

theorem abs_le (h : Within k scale v x) : |x| ≤ growth k * scale := by
  linarith [abs_sub_abs_le_abs_sub x v, h.error, h.scale_le]

theorem round (h : Within k scale v x) (hy : |y - x| ≤ roundoff * (growth k * scale)) :
    Within (k + 1) scale v y := by
  refine ⟨h.scale_le, (abs_sub_le y x v).trans ?_⟩
  rw [growth_succ]
  linarith [h.error]

theorem round_relative (h : Within k scale v x) (hy : |y - x| ≤ roundoff * |x|) :
    Within (k + 1) scale v y :=
  h.round (hy.trans (mul_le_mul_of_nonneg_left h.abs_le roundoff_pos.le))

theorem round_nearest {z : Float} (h : Within k scale v x) (hz : Nearest x z)
    (hfinite : z.isFinite = true) (hscale : Covers scale) : Within (k + 1) scale v (real z) := by
  rcases hscale with hzero | hscale
  · have hx : x = 0 := abs_nonpos_iff.1 (by simpa [hzero] using h.abs_le)
    exact h.round_relative (hz.relative_error (m := 0) (e := 0) hfinite (by simp [hx]) (by norm_num))
  · refine h.round ((hz.error hfinite).trans (max_le ?_ ?_))
    · exact mul_le_mul_of_nonneg_left h.abs_le roundoff_pos.le
    · refine hscale.trans (mul_le_mul_of_nonneg_left ?_ roundoff_pos.le)
      exact le_mul_of_one_le_left h.nonneg (one_le_growth k)

theorem product {a b : Float} (hfinite : (a * b).isFinite = true) (hsize : |real a * real b| ≤ scale)
    (hscale : Covers scale) : Within 1 scale (real a * real b) (real (a * b)) := by
  have ha : a.isFinite = true := isFinite_of_imp (fun h => isFinite_mul_eq_false (.inl h)) hfinite
  have hb : b.isFinite = true := isFinite_of_imp (fun h => isFinite_mul_eq_false (.inr h)) hfinite
  exact ((exact (real a * real b)).mono_scale hsize).round_nearest (nearest_mul ha hb) hfinite hscale

theorem add (h : Within k scale v x) (h' : Within k scale' v' x') :
    Within k (scale + scale') (v + v') (x + x') := by
  refine ⟨(abs_add_le v v').trans (add_le_add h.scale_le h'.scale_le), ?_⟩
  rw [add_sub_add_comm]
  refine (abs_add_le _ _).trans ?_
  linarith [h.error, h'.error]

theorem neg (h : Within k scale v x) : Within k scale (-v) (-x) := by
  refine ⟨(abs_neg v).trans_le h.scale_le, ?_⟩
  rw [← neg_sub', abs_neg]
  exact h.error

theorem sub (h : Within k scale v x) (h' : Within k scale' v' x') :
    Within k (scale + scale') (v - v') (x - x') := by
  rw [sub_eq_add_neg, sub_eq_add_neg]
  exact h.add h'.neg

theorem mul (h : Within k scale v x) (h' : Within l scale' v' x') :
    Within (k + l) (scale * scale') (v * v') (x * x') := by
  have hl := one_le_growth l
  have hsplit : x * x' - v * v' = (x - v) * x' + v * (x' - v') := by ring
  constructor
  · rw [abs_mul]
    exact mul_le_mul h.scale_le h'.scale_le (abs_nonneg _) h.nonneg
  · calc |x * x' - v * v'| ≤ |x - v| * |x'| + |v| * |x' - v'| := by
          rw [hsplit, ← abs_mul, ← abs_mul]
          exact abs_add_le _ _
      _ ≤ (growth k - 1) * scale * (growth l * scale') + scale * ((growth l - 1) * scale') := by
          refine add_le_add (mul_le_mul h.error h'.abs_le (abs_nonneg _) ?_)
            (mul_le_mul h.scale_le h'.error (abs_nonneg _) h.nonneg)
          exact mul_nonneg (by linarith [one_le_growth k]) h.nonneg
      _ = (growth (k + l) - 1) * (scale * scale') := by rw [growth_add]; ring

end Within

/-! ### Sums -/

theorem isFinite_of_sumFrom {start : Float} {xs : List Float}
    (h : (sumFrom start xs).isFinite = true) : ∀ x ∈ xs, x.isFinite = true := by
  intro x hx
  by_contra hinf
  rw [Bool.not_eq_true] at hinf
  rw [isFinite_sumFrom_eq_false (.inr ⟨x, hx, hinf⟩)] at h
  cases h

/-- Each addition rounds once. -/
theorem within_sum {α : Type} {term : α → Float} {exact scale : α → ℝ} {k : ℕ} {items : List α}
    (hterm : ∀ a ∈ items, Within k (scale a) (exact a) (real (term a)))
    (hfinite : (sumFrom 0.0 (items.map term)).isFinite = true) :
    Within (k + items.length) (items.map scale).sum (items.map exact).sum
      (real (sumFrom 0.0 (items.map term))) := by
  induction items using List.reverseRecOn with
  | nil => exact ⟨by simp, by simp [sumFrom, real_zero]⟩
  | append_singleton rest a ih =>
    simp only [List.forall_mem_append, List.forall_mem_singleton] at hterm
    rw [List.map_append, List.map_singleton, sumFrom_concat] at hfinite
    have hrest := ih hterm.1 (isFinite_of_imp (fun h => isFinite_add_eq_false (.inl h)) hfinite)
    simp only [List.length_append, List.length_singleton, List.map_append, List.map_singleton,
      List.sum_append, List.sum_singleton, sumFrom_concat, ← Nat.add_assoc]
    exact (hrest.add (hterm.2.mono (Nat.le_add_right k _))).round_relative (add_error hfinite)

theorem within_replicate {v : Float} {n : ℕ} {size : ℝ} (hv : |real v| ≤ size)
    (hfinite : (sumFrom 0.0 (List.replicate n v)).isFinite = true) :
    Within n (n * size) (n * real v) (real (sumFrom 0.0 (List.replicate n v))) := by
  have hmap : (List.range n).map (fun _ => v) = List.replicate n v := by
    rw [List.map_const', List.length_range]
  rw [← hmap] at hfinite ⊢
  have h := within_sum (fun _ _ => (Within.exact (real v)).mono_scale hv) hfinite
  simpa only [zero_add, List.length_range, List.map_const', List.sum_replicate, nsmul_eq_mul] using h
/-- What a finite sum was before its last term, which it is no further from than the exact sum. -/
theorem of_sumFrom_concat {xs : List Float} {x : Float}
    (h : (sumFrom 0.0 (xs ++ [x])).isFinite = true) : (sumFrom 0.0 xs).isFinite = true ∧
      |real (sumFrom 0.0 (xs ++ [x])) - (real (sumFrom 0.0 xs) + real x)| ≤ |real x| := by
  rw [sumFrom_concat] at h ⊢
  have hbefore : (sumFrom 0.0 xs).isFinite = true :=
    isFinite_of_imp (fun h => isFinite_add_eq_false (.inl h)) h
  have hx : x.isFinite = true := isFinite_of_imp (fun h => isFinite_add_eq_false (.inr h)) h
  have hside := (nearest_add hbefore hx).abs_sub_le h (sumFrom 0.0 xs)
  rw [sub_add_cancel_left, abs_neg] at hside
  exact ⟨hbefore, hside⟩

theorem sumFrom_nonneg {xs : List Float} (hxs : ∀ x ∈ xs, 0 ≤ real x)
    (hfinite : (sumFrom 0.0 xs).isFinite = true) : 0 ≤ real (sumFrom 0.0 xs) := by
  induction xs using List.reverseRecOn with
  | nil => exact real_zero.ge
  | append_singleton rest x ih =>
    simp only [List.forall_mem_append, List.forall_mem_singleton] at hxs
    obtain ⟨hbefore, hside⟩ := of_sumFrom_concat hfinite
    rw [abs_of_nonneg hxs.2] at hside
    linarith [ih hxs.1 hbefore, (abs_le.1 hside).1]

/-- A sum is at most twice that of the magnitudes, however many there are. -/
theorem abs_sumFrom_le {xs : List Float} (hfinite : (sumFrom 0.0 xs).isFinite = true) :
    |real (sumFrom 0.0 xs)| ≤ 2 * (xs.map fun x => |real x|).sum := by
  induction xs using List.reverseRecOn with
  | nil => simp [sumFrom, real_zero]
  | append_singleton rest x ih =>
    obtain ⟨hbefore, hside⟩ := of_sumFrom_concat hfinite
    have hsum := abs_add_three
      (real (sumFrom 0.0 (rest ++ [x])) - (real (sumFrom 0.0 rest) + real x))
      (real (sumFrom 0.0 rest)) (real x)
    rw [add_assoc, sub_add_cancel] at hsum
    rw [List.map_append, List.sum_append, List.map_singleton, List.sum_singleton]
    linarith [ih hbefore]

theorem isFinite_sumFrom {xs : List Float} {e : ℤ} (hxs : ∀ x ∈ xs, x.isFinite = true)
    (he : e ≤ 1023) (hsum : 2 * (xs.map fun x => |real x|).sum ≤ 2 ^ e) :
    (sumFrom 0.0 xs).isFinite = true := by
  induction xs using List.reverseRecOn with
  | nil => decide
  | append_singleton rest x ih =>
    simp only [List.forall_mem_append, List.forall_mem_singleton] at hxs
    rw [List.map_append, List.sum_append, List.map_singleton, List.sum_singleton] at hsum
    have hx0 := abs_nonneg (real x)
    have hbefore := ih hxs.1 (by linarith)
    rw [sumFrom_concat]
    refine (nearest_add hbefore hxs.2).isFinite he ((abs_add_le _ _).trans ?_)
    linarith [abs_sumFrom_le hbefore]

/-- Rounding at most doubles the square of a deviation, and the sum of such squares. -/
theorem sum_squares_lt {d : Float} {size : ℝ} {n : ℕ} (hn : 1 ≤ n) (hd : d.isFinite = true)
    (hsize : |real d| ≤ size) (hsmall : 4 * (n * size ^ 2) < 2 ^ (-52 : ℤ)) :
    (sumFrom 0.0 (List.replicate n (d * d))).abs < epsilon := by
  have hn' : (1 : ℝ) ≤ n := Nat.one_le_cast.2 hn
  have hone : (2 : ℝ) ^ (-52 : ℤ) ≤ 1 := by norm_num
  have hsquare : real d * real d ≤ size ^ 2 := by
    rw [← sq, ← sq_abs]
    exact pow_le_pow_left₀ (abs_nonneg _) hsize 2
  have hproduct : size ^ 2 ≤ n * size ^ 2 := le_mul_of_one_le_left (sq_nonneg _) hn'
  have hfinite : (d * d).isFinite = true :=
    (nearest_mul hd hd).isFinite_of_abs_le_one (by rw [abs_mul_self]; linarith)
  have hterms : 2 * ((List.replicate n (d * d)).map fun x => |real x|).sum ≤ 4 * (n * size ^ 2) := by
    rw [List.map_replicate, List.sum_replicate, nsmul_eq_mul]
    nlinarith [abs_square_le hfinite]
  have hsum : (sumFrom 0.0 (List.replicate n (d * d))).isFinite = true := by
    refine isFinite_sumFrom (e := 0) (fun x hx => ?_) (by norm_num) (hterms.trans ?_)
    · rw [List.eq_of_mem_replicate hx]
      exact hfinite
    · rw [zpow_zero]
      linarith
  exact (abs_lt_epsilon_iff hsum).2 (((abs_sumFrom_le hsum).trans hterms).trans_lt hsmall)

/-! ### Quotients by a count -/

theorem within_count {n : ℕ} (hn : 1 ≤ n) (hfinite : (Float.ofNat n).isFinite = true) :
    0 < real (Float.ofNat n) ∧ Within 2 (n : ℝ)⁻¹ (n : ℝ)⁻¹ (real (Float.ofNat n))⁻¹ := by
  have hpos : (0 : ℝ) < n := Nat.cast_pos.2 hn
  have hu := roundoff_pos
  have hu' := roundoff_le
  have herror := (nearest_ofNat n).relative_error (m := n) (e := 0) hfinite (by simp) (by norm_num)
  rw [abs_of_pos hpos, abs_le] at herror
  generalize real (Float.ofNat n) = count at herror
  have hcount : 0 < count := by nlinarith
  refine ⟨hcount, (abs_of_pos (inv_pos.2 hpos)).le, ?_⟩
  have hgrowth : growth 2 = (1 + roundoff) ^ 2 := rfl
  have hscale : count⁻¹ - (n : ℝ)⁻¹ = (n / count - 1) * (n : ℝ)⁻¹ := by field_simp
  rw [hscale, abs_mul, abs_of_pos (inv_pos.2 hpos), hgrowth]
  refine mul_le_mul_of_nonneg_right (abs_le.2 ⟨?_, ?_⟩) (inv_pos.2 hpos).le
  · have hlow : 1 - roundoff ≤ n / count := by
      rw [le_div_iff₀ hcount]
      nlinarith
    nlinarith
  · have hhigh : n / count ≤ (1 + roundoff) ^ 2 := by
      have hone : 1 ≤ (1 + roundoff) ^ 2 * (1 - roundoff) := by
        nlinarith [mul_nonneg hu.le (show 0 ≤ 1 - roundoff - roundoff ^ 2 by nlinarith)]
      rw [div_le_iff₀ hcount]
      calc (n : ℝ) ≤ (1 + roundoff) ^ 2 * (1 - roundoff) * n := le_mul_of_one_le_left hpos.le hone
        _ = (1 + roundoff) ^ 2 * (n - roundoff * n) := by ring
        _ ≤ (1 + roundoff) ^ 2 * count := mul_le_mul_of_nonneg_left (by linarith) (by positivity)
    linarith

/-- An infinite count makes the quotient nothing, which is no further off than as many roundings. -/
theorem Within.div_count {n k : ℕ} {scale v : ℝ} {x : Float} (h : Within k scale v (real x))
    (hn : 1 ≤ n) (hk : n ≤ k) (hx : x.isFinite = true) (hscale : Covers (scale / n)) :
    Within (k + 3) (scale / n) (v / n) (real (x / Float.ofNat n)) := by
  have hpos : (0 : ℝ) < n := Nat.cast_pos.2 hn
  obtain ⟨hnan, hone⟩ := ofNat_bounds hn
  by_cases hfinite : (Float.ofNat n).isFinite = true
  · obtain ⟨hcount, hwithin⟩ := within_count hn hfinite
    have hquot := h.mul hwithin
    rw [← div_eq_mul_inv, ← div_eq_mul_inv, ← div_eq_mul_inv] at hquot
    exact hquot.round_nearest (nearest_div hx hfinite hcount) (div_isFinite hx hnan hone) hscale
  · have hlarge : 2 ^ 53 ≤ n := by
      by_contra hlt
      exact hfinite (ofNat_exact (not_le.1 hlt)).1
    have hinfinity : magnitudeBits (Float.ofNat n) = infinityBits := by
      have := magnitudeBits_le hnan
      rw [isFinite_iff] at hfinite
      omega
    have hzero : real (x / Float.ofNat n) = 0 := by
      rw [← abs_eq_zero, abs_real, magnitudeBits_div_infinity hx hinfinity, value_zero]
    have htwo : 2 ≤ growth (k + 3) := by
      have hbernoulli := one_add_mul_le_growth (k + 3)
      have hmany : (2 : ℝ) ^ (53 : ℤ) ≤ (k + 3 : ℕ) := by exact_mod_cast (by omega : 2 ^ 53 ≤ k + 3)
      have hone : 1 ≤ (k + 3 : ℕ) * roundoff := by
        rw [roundoff_eq, zpow_neg, ← div_eq_mul_inv, one_le_div (by positivity)]
        exact hmany
      linarith
    have hsize : |v / n| ≤ scale / n := by
      rw [abs_div, abs_of_pos hpos]
      exact div_le_div_of_nonneg_right h.scale_le hpos.le
    refine ⟨hsize, ?_⟩
    rw [hzero, zero_sub, abs_neg]
    nlinarith [abs_nonneg (v / n)]

end FleetHealth.Binary64
