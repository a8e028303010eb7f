import Mathlib

/-!
# The nearest double

The bits of a magnitude stand for a number that grows with them. The numbers between two neighbours
round to the nearer one, and from halfway between them to the one with even bits. Rounding keeps the
order of numbers and leaves those that some bits stand for.
-/
namespace FleetHealth.Binary64

/-- The number some bits stand for, counted in the smallest positive double. The exponents have no
upper end here. -/
def units (b : ℕ) : ℕ := (b - (b / 2 ^ 52 - 1) * 2 ^ 52) * 2 ^ (b / 2 ^ 52 - 1)

/-- The number some bits stand for. -/
noncomputable def value (b : ℕ) : ℝ := units b / 2 ^ 1074

/-- The significand may have reached the end of its range. -/
theorem units_eq {m k : ℕ} (hm : m ≤ 2 ^ 53) (hk : 2 ^ 52 ≤ m ∨ k = 0) :
    units (k * 2 ^ 52 + m) = m * 2 ^ k := by
  unfold units
  rcases Nat.lt_or_ge m (2 ^ 53) with hlt | hge
  · have hdiv : (k * 2 ^ 52 + m) / 2 ^ 52 - 1 = k := by omega
    rw [hdiv, Nat.add_sub_cancel_left]
  · obtain rfl : m = 2 ^ 53 := Nat.le_antisymm hm hge
    have hdiv : (k * 2 ^ 52 + 2 ^ 53) / 2 ^ 52 - 1 = k + 1 := by omega
    have hsub : k * 2 ^ 52 + 2 ^ 53 - (k + 1) * 2 ^ 52 = 2 ^ 52 := by omega
    rw [hdiv, hsub, ← pow_add, ← pow_add]
    congr 1
    omega

theorem value_eq {m k : ℕ} (hm : m ≤ 2 ^ 53) (hk : 2 ^ 52 ≤ m ∨ k = 0) :
    value (k * 2 ^ 52 + m) = m * 2 ^ ((k : ℤ) - 1074) := by
  rw [value, units_eq hm hk, zpow_sub₀ two_ne_zero]
  push_cast
  rw [mul_div_assoc]
  rfl

theorem value_zero : value 0 = 0 := by simp [value, units]

/-- Every number of bits has a significand in its range. -/
theorem exists_significand (b : ℕ) :
    ∃ m k, b = k * 2 ^ 52 + m ∧ m < 2 ^ 53 ∧ (2 ^ 52 ≤ m ∨ k = 0) :=
  ⟨b - (b / 2 ^ 52 - 1) * 2 ^ 52, b / 2 ^ 52 - 1, by omega, by omega, by omega⟩

theorem units_strictMono : StrictMono units := by
  refine strictMono_nat_of_lt_succ fun b => ?_
  obtain ⟨m, k, rfl, hm, hk⟩ := exists_significand b
  rw [units_eq hm.le hk, Nat.add_assoc, units_eq hm (hk.imp_left Nat.le_succ_of_le)]
  exact Nat.mul_lt_mul_of_pos_right (Nat.lt_succ_self m) (Nat.two_pow_pos k)

theorem value_strictMono : StrictMono value := fun a b h =>
  div_lt_div_of_pos_right (Nat.cast_lt.2 (units_strictMono h)) (by positivity)

theorem value_nonneg (b : ℕ) : 0 ≤ value b := by
  rw [← value_zero]
  exact value_strictMono.monotone (Nat.zero_le b)

/-- The bits `b` are those nearest to `x`, which lies between two neighbours. -/
structure RoundsBetween (x : ℝ) (k b : ℕ) : Prop where
  le : value k ≤ x
  lt : x < value (k + 1)
  down : 2 * x < value k + value (k + 1) → b = k
  up : value k + value (k + 1) < 2 * x → b = k + 1
  even : 2 * x = value k + value (k + 1) → b = k + k % 2

/-- The bits `b` are those nearest to `x`, and even ones halfway. -/
def Rounds (x : ℝ) (b : ℕ) : Prop := ∃ k, RoundsBetween x k b

theorem RoundsBetween.bounds {x : ℝ} {k b : ℕ} (h : RoundsBetween x k b) : k ≤ b ∧ b ≤ k + 1 := by
  rcases lt_trichotomy (2 * x) (value k + value (k + 1)) with hlt | heq | hgt
  · have := h.down hlt
    omega
  · have := h.even heq
    omega
  · have := h.up hgt
    omega

theorem rounds_value (b : ℕ) : Rounds (value b) b := by
  have hlt : value b < value (b + 1) := value_strictMono (Nat.lt_succ_self b)
  exact ⟨b, le_rfl, hlt, fun _ => rfl, fun h => by linarith, fun h => by linarith⟩

theorem Rounds.mono {x y : ℝ} {b c : ℕ} (hb : Rounds x b) (hc : Rounds y c) (h : x ≤ y) : b ≤ c := by
  obtain ⟨k, hk⟩ := hb
  obtain ⟨l, hl⟩ := hc
  have hkl : k ≤ l := by
    have : value k < value (l + 1) := hk.le.trans_lt (h.trans_lt hl.lt)
    exact Nat.lt_succ_iff.1 (value_strictMono.lt_iff_lt.1 this)
  rcases hkl.lt_or_eq with hkl | rfl
  · exact hk.bounds.2.trans (hkl.trans_le hl.bounds.1)
  · -- between the same neighbours the sides of the middle decide
    rcases lt_trichotomy (2 * x) (value k + value (k + 1)) with hlt | heq | hgt
    · rw [hk.down hlt]
      exact hl.bounds.1
    · rcases (show value k + value (k + 1) ≤ 2 * y by linarith).lt_or_eq with hy | hy
      · rw [hl.up hy]
        exact hk.bounds.2
      · rw [hk.even heq, hl.even hy.symm]
    · rw [hl.up (by linarith)]
      exact hk.bounds.2

theorem Rounds.unique {x : ℝ} {b c : ℕ} (hb : Rounds x b) (hc : Rounds x c) : b = c :=
  Nat.le_antisymm (hb.mono hc le_rfl) (hc.mono hb le_rfl)

/-- A number within reach of some bits does not round past them. -/
theorem Rounds.le_of_le_value {x : ℝ} {b c : ℕ} (hb : Rounds x b) (h : x ≤ value c) : b ≤ c :=
  hb.mono (rounds_value c) h

end FleetHealth.Binary64
