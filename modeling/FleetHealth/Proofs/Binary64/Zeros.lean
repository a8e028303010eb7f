import FleetHealth.Proofs.Binary64.Errors

/-!
# Zeros of either sign

The two zeros stand for one number and differ in their sign bit. Adding or taking away a zero changes
nothing but that, and a square does not show it.
-/
namespace FleetHealth.Binary64

open Float.Model Float.Model.UnpackedFloat

variable {x y z : Float}

/-- A zero of either sign. -/
def IsZero (x : Float) : Prop := magnitudeBits x = 0

/-- The same double, or two zeros. -/
def SameUpToZero (x y : Float) : Prop := x = y ∨ IsZero x ∧ IsZero y

theorem SameUpToZero.symm (h : SameUpToZero x y) : SameUpToZero y x :=
  h.imp Eq.symm And.symm

theorem SameUpToZero.trans (h : SameUpToZero x y) (h' : SameUpToZero y z) : SameUpToZero x z := by
  rcases h with rfl | ⟨hx, hy⟩
  · exact h'
  · rcases h' with rfl | ⟨_, hz⟩
    · exact .inr ⟨hx, hy⟩
    · exact .inr ⟨hx, hz⟩

theorem IsZero.isFinite (h : IsZero x) : x.isFinite = true :=
  (isFinite_iff x).2 (h ▸ by decide)

theorem isZero_iff : IsZero x ↔ real x = 0 := by
  rw [← abs_eq_zero, abs_real, value_eq_zero_iff, IsZero]

theorem SameUpToZero.real_eq (h : SameUpToZero x y) : real x = real y := by
  rcases h with rfl | ⟨hx, hy⟩
  · rfl
  · rw [isZero_iff.1 hx, isZero_iff.1 hy]

theorem IsZero.eq_or (h : IsZero x) : x = 0.0 ∨ x = -0.0 := by
  have hbits : magnitudeBits 0.0 = 0 ∧ magnitudeBits (-0.0) = 0 := by decide
  cases hs : sign x with
  | positive => exact .inl (eq_of_magnitudeBits_eq hs (h.trans hbits.1.symm))
  | negative => exact .inr (eq_of_magnitudeBits_eq hs (h.trans hbits.2.symm))

/-- Only the sign of a zero is left open by what a double is nearest to. -/
theorem Nearest.sameUpToZero {v : ℝ} (hx : Nearest v x) (hy : Nearest v y) : SameUpToZero x y := by
  have hposition := le_antisymm (hx.position_le hy le_rfl) (hy.position_le hx le_rfl)
  have hbits := congrArg Int.natAbs hposition
  rw [position_natAbs, position_natAbs] at hbits
  by_cases hzero : IsZero x
  · exact .inr ⟨hzero, hbits.symm.trans hzero⟩
  · refine .inl (eq_of_magnitudeBits_eq ?_ hbits)
    rw [position_eq, position_eq, ← hbits] at hposition
    unfold IsZero at hzero
    cases hs : sign x <;> cases hs' : sign y <;> simp only [hs, hs', Sign.apply] at hposition ⊢ <;>
      omega

theorem IsZero.exists_unpack (h : IsZero x) : ∃ s, x.toModel.unpack = .zero s := by
  unfold IsZero at h
  have hu := unpacks x
  generalize x.toModel.unpack = u at hu
  cases hu with
  | nan bits => omega
  | infinity s bits => exact absurd (bits.symm.trans h) (by decide)
  | zero s bits => exact ⟨s, rfl⟩
  | finite s m e hm fits bits => omega

theorem isZero_ofModel_zero (s : Sign) : IsZero (.ofModel (.pack (.zero s))) :=
  (magnitudeBits_ofModel _).trans (packedBits_zero s)

/-- An operation that takes a zero for nothing, unpacked. -/
theorem sameUpToZero_unpacked (op : UnpackedFloat → UnpackedFloat)
    (hzero : ∀ s, ∃ t, op (.zero s) = .zero t) (hop : ∀ u, (∀ s, u ≠ .zero s) → op u = u) (y : Float) :
    SameUpToZero (.ofModel (.pack (op y.toModel.unpack))) y := by
  by_cases hy : IsZero y
  · obtain ⟨s, hs⟩ := hy.exists_unpack
    obtain ⟨t, ht⟩ := hzero s
    rw [hs, ht]
    exact .inr ⟨isZero_ofModel_zero t, hy⟩
  · rw [hop _ fun s hs => hy ?_, ofModel_pack_unpack]
    · exact .inl rfl
    · have h := isZero_ofModel_zero s
      rwa [← hs, ofModel_pack_unpack] at h

theorem IsZero.add (hz : IsZero z) (y : Float) : SameUpToZero (z + y) y := by
  change SameUpToZero (.ofModel (.pack (UnpackedFloat.add .binary64 z.toModel.unpack y.toModel.unpack))) y
  obtain ⟨s, hs⟩ := hz.exists_unpack
  rw [hs]
  refine sameUpToZero_unpacked (UnpackedFloat.add .binary64 (.zero s)) (fun t => ?_) (fun u hu => ?_) y
  · cases s <;> cases t <;> exact ⟨_, rfl⟩
  · cases u with
    | zero t => exact absurd rfl (hu t)
    | _ => rfl

theorem IsZero.sub (hz : IsZero z) (y : Float) : SameUpToZero (y - z) y := by
  change SameUpToZero (.ofModel (.pack (UnpackedFloat.sub .binary64 y.toModel.unpack z.toModel.unpack))) y
  obtain ⟨s, hs⟩ := hz.exists_unpack
  rw [hs]
  refine sameUpToZero_unpacked (fun u => UnpackedFloat.sub .binary64 u (.zero s)) (fun t => ?_)
    (fun u hu => ?_) y
  · cases s <;> cases t <;> exact ⟨_, rfl⟩
  · cases u with
    | zero t => exact absurd rfl (hu t)
    | _ => rfl

theorem SameUpToZero.sub_left (h : SameUpToZero x y) (w : Float) : SameUpToZero (w - x) (w - y) := by
  rcases h with rfl | ⟨hx, hy⟩
  · exact .inl rfl
  · exact (hx.sub w).trans (hy.sub w).symm

theorem IsZero.mul (hx : IsZero x) (hy : y.isFinite = true) : IsZero (x * y) := by
  have hfinite := isFinite_mul_of_zero hx hy
  have h := (nearest_mul hx.isFinite hy).relative_error (m := 0) (e := 0) hfinite
    (by rw [isZero_iff.1 hx]; norm_num) (by norm_num)
  rw [isZero_iff.1 hx, zero_mul, sub_zero, abs_zero, mul_zero, abs_nonpos_iff] at h
  exact isZero_iff.2 h

/-- Where the quotient of one zero is a number, that of the other is a zero. -/
theorem IsZero.div_of_isFinite (hx : IsZero x) (hy : IsZero y) (hfinite : (x / z).isFinite = true) :
    IsZero (y / z) := by
  change (Float.ofModel (.pack (UnpackedFloat.div .binary64 x.toModel.unpack z.toModel.unpack))).isFinite =
    true at hfinite
  change IsZero (.ofModel (.pack (UnpackedFloat.div .binary64 y.toModel.unpack z.toModel.unpack)))
  obtain ⟨s, hs⟩ := hx.exists_unpack
  obtain ⟨s', hs'⟩ := hy.exists_unpack
  rw [hs] at hfinite
  rw [hs']
  generalize z.toModel.unpack = u at hfinite
  cases u with
  | notANumber => exact absurd hfinite (Bool.eq_false_iff.1 (isFinite_pack_eq_false rfl))
  | infinity t => exact isZero_ofModel_zero _
  | zero t => exact absurd hfinite (Bool.eq_false_iff.1 (isFinite_pack_eq_false rfl))
  | finite t m e hm => exact isZero_ofModel_zero _

theorem IsZero.div (hx : IsZero x) (hfinite : (x / y).isFinite = true) : IsZero (x / y) :=
  hx.div_of_isFinite hx hfinite

/-- A number divided by none is a zero, unless it is no number either. -/
theorem isZero_div_of_infinite (hx : x.isFinite = true) (hy : y.isFinite = false)
    (hfinite : (x / y).isFinite = true) : IsZero (x / y) := by
  change x.toModel.unpack.isFinite = true at hx
  change y.toModel.unpack.isFinite = false at hy
  change (Float.ofModel (.pack (UnpackedFloat.div .binary64 x.toModel.unpack y.toModel.unpack))).isFinite =
    true at hfinite
  change IsZero (.ofModel (.pack (UnpackedFloat.div .binary64 x.toModel.unpack y.toModel.unpack)))
  generalize y.toModel.unpack = w at *
  cases w with
  | notANumber =>
    have hnan : UnpackedFloat.div .binary64 x.toModel.unpack .notANumber = .notANumber := by
      cases x.toModel.unpack <;> rfl
    rw [hnan] at hfinite
    exact absurd hfinite (Bool.eq_false_iff.1 (isFinite_pack_eq_false rfl))
  | infinity t =>
    generalize x.toModel.unpack = u at *
    cases u with
    | notANumber => cases hx
    | infinity s => cases hx
    | zero s => exact isZero_ofModel_zero _
    | finite s m e hm => exact isZero_ofModel_zero _
  | zero t => cases hy
  | finite t m e hm => cases hy

theorem SameUpToZero.div (h : SameUpToZero x y) (hfinite : (x / z).isFinite = true) :
    SameUpToZero (x / z) (y / z) := by
  rcases h with rfl | ⟨hx, hy⟩
  · exact .inl rfl
  · exact .inr ⟨hx.div hfinite, hx.div_of_isFinite hy hfinite⟩

/-- A square does not show the sign of a zero. -/
theorem SameUpToZero.mul_self (h : SameUpToZero x y) : x * x = y * y := by
  rcases h with rfl | ⟨hx, hy⟩
  · rfl
  · have hsign {z : Float} (hz : IsZero z) : sign (z * z) = .positive := by
      rw [sign_mul hz.isFinite hz.isFinite]
      cases sign z <;> rfl
    exact eq_of_magnitudeBits_eq ((hsign hx).trans (hsign hy).symm)
      ((hx.mul hx.isFinite).trans (hy.mul hy.isFinite).symm)

end FleetHealth.Binary64
