import FleetHealth.Proofs.Binary64.Finite

/-!
# The total order of doubles

Sorting goes by a total order that tells the two zeros apart. Among numbers that are no negative zeros
it is the order of numbers, and rounding to decimal places leaves no negative zero.
-/
namespace FleetHealth.Binary64

variable {x y : Float}

def IsNegativeZero (x : Float) : Prop := signBit x = true ∧ magnitudeBits x = 0

theorem rank_lt_iff (hx : ¬ IsNegativeZero x) (hy : ¬ IsNegativeZero y) :
    rank x < rank y ↔ position x < position y := by
  rw [IsNegativeZero, not_and] at hx hy
  rw [rank, rank, position, position]
  split <;> split <;> rename_i hsx hsy
  · omega
  · have := hx hsx
    omega
  · have := hy hsy
    omega
  · rfl

theorem totalCompare_eq (hx : ¬ IsNegativeZero x) (hy : ¬ IsNegativeZero y) :
    totalCompare x y = compare (position x) (position y) := by
  have hlt := rank_lt_iff hx hy
  have hgt := rank_lt_iff hy hx
  rw [totalCompare]
  rcases lt_trichotomy (rank x) (rank y) with h | h | h
  · rw [compare_lt_iff_lt.2 h, compare_lt_iff_lt.2 (hlt.1 h)]
  · rw [compare_eq_iff_eq.2 h, compare_eq_iff_eq.2 (by omega)]
  · rw [compare_gt_iff_gt.2 h, compare_gt_iff_gt.2 (hgt.1 h)]

theorem isNaN_eq_false (h : x.isFinite = true) : x.isNaN = false := by
  have hlt := (isFinite_iff x).1 h
  rw [← Bool.not_eq_true, isNaN_iff]
  omega

/-- Scaling a zero gives no infinity. -/
theorem isFinite_mul_of_zero (hx : magnitudeBits x = 0) (hy : y.isFinite = true) :
    (x * y).isFinite = true := by
  have hfinite : x.isFinite = true := (isFinite_iff x).2 (hx ▸ by decide)
  obtain ⟨b, hb, hbits⟩ := magnitudeBits_mul hfinite hy
  refine isFinite_of_rounds hb hbits (show 0 < infinityBits by decide) ?_
  rw [hx, value_zero, zero_mul]

theorem not_isNegativeZero_roundTo (x : Float) {places : ℤ} (h : 1 ≤ places) (h' : places ≤ 4) :
    ¬ IsNegativeZero (roundTo x places) := by
  have hzero : ¬ IsNegativeZero 0.0 := by unfold IsNegativeZero; decide
  have hpower : (powerOfTen places).isFinite = true := by
    have hall : ∀ x ∈ ([10.0, 100.0, 1000.0, 10000.0] : List Float), x.isFinite = true := by decide
    exact hall _ (powerOfTen_mem h h')
  unfold roundTo
  split
  next hx =>
    simp only
    split
    next hs =>
      split
      next => exact hzero
      next hne =>
        -- a zero of either sign is equal to zero
        obtain ⟨hn, hone⟩ := powerOfTen_bounds h h'
        have hfinite := div_isFinite (isFinite_roundHalfAway hs) hn hone
        generalize roundHalfAway (x * powerOfTen places) / powerOfTen places = r at hne hfinite
        rintro ⟨hsign, hbits⟩
        refine hne (beq_iff.2 ⟨?_, by decide, ?_⟩)
        · rw [← Bool.not_eq_true, isNaN_iff, hbits]
          decide
        · rw [position, if_pos hsign, hbits]
          decide
    next hs =>
      rintro ⟨-, hbits⟩
      exact hs (isFinite_mul_of_zero hbits hpower)
  next => exact hzero

end FleetHealth.Binary64
