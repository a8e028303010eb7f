import FleetHealth.Proofs.Binary64.Within
import FleetHealth.Proofs.Diagnosis.Deviations
import FleetHealth.Settings

/-!
# The score between the deviations

A root mean square lies between the least and the greatest of its numbers, give or take the roundings of
one sum and half a hundredth. Squares leave the range of doubles long before the numbers do. Then there
is no root mean square: the score is zero, and the largest deviations make no diagnosis.
-/
namespace FleetHealth

open Binary64

variable {zs : List Float}

/-! ### Root mean squares -/

/-- What the root is taken of. -/
def squareSum (zs : List Float) : Float := sumFrom 0.0 (zs.map fun z => z * z)

theorem rootMeanSquare_eq (zs : List Float) :
    rootMeanSquare zs = (squareSum zs / Binary64.count zs).sqrt := rfl

theorem isFinite_of_squareSum (h : (squareSum zs).isFinite = true) :
    ∀ z ∈ zs, (z * z).isFinite = true := fun z hz =>
  isFinite_of_sumFrom h (z * z) (List.mem_map_of_mem hz)

theorem sum_squares_le {high : ℝ} (h : ∀ z ∈ zs, (z * z).isFinite = true)
    (hz : ∀ z ∈ zs, |real z| ≤ high) :
    ((zs.map fun z => z * z).map fun x => |real x|).sum ≤ zs.length * (2 * (high * high)) := by
  have hterms : ∀ x ∈ (zs.map fun z => z * z).map fun x => |real x|, x ≤ 2 * (high * high) := by
    simp only [List.forall_mem_map]
    intro z hzs
    refine (abs_square_le (h z hzs)).trans (mul_le_mul_of_nonneg_left ?_ two_pos.le)
    exact abs_le_iff_mul_self_le.1 ((hz z hzs).trans (le_abs_self high))
  have hcard := List.sum_le_card_nsmul _ _ hterms
  rwa [List.length_map, List.length_map, nsmul_eq_mul] at hcard

theorem squareSum_nonneg (h : (squareSum zs).isFinite = true) : 0 ≤ real (squareSum zs) :=
  sumFrom_nonneg (List.forall_mem_map.2 fun z hz =>
    real_square_nonneg (isFinite_of_squareSum h z hz)) h

theorem meanSquare_nonneg (hne : zs ≠ []) (h : (squareSum zs).isFinite = true) :
    (squareSum zs / Binary64.count zs).isFinite = true ∧
      0 ≤ real (squareSum zs / Binary64.count zs) := by
  have hn := List.length_pos_of_ne_nil hne
  obtain ⟨hnan, hone⟩ := ofNat_bounds hn
  obtain ⟨c, hc, hdiv⟩ := exists_nearest_div_ofNat hn
  exact ⟨div_isFinite h hnan hone,
    real_nonneg (nearest_zero.mono (hdiv _ h) (mul_nonneg (squareSum_nonneg h) hc))⟩

/-- The mean of the squares rounds each square, each sum and the quotient. -/
theorem within_meanSquare (scale : Float → ℝ) (hne : zs ≠ []) (h : (squareSum zs).isFinite = true)
    (hscale : ∀ z ∈ zs, real z * real z ≤ scale z ∧ 2 ^ (-1075 : ℤ) ≤ roundoff * scale z) :
    Within (zs.length + 4) ((zs.map scale).sum / zs.length)
      ((zs.map fun z => real z * real z).sum / zs.length)
      (real (squareSum zs / Binary64.count zs)) := by
  have hn := List.length_pos_of_ne_nil hne
  have hsquare : ∀ z ∈ zs, Within 1 (scale z) (real z * real z) (real (z * z)) := fun z hz => by
    refine Within.product (isFinite_of_squareSum h z hz) ?_ (.inr (hscale z hz).2)
    rw [abs_mul_self]
    exact (hscale z hz).1
  have hsum := within_sum hsquare h
  rw [Nat.add_comm] at hsum
  refine hsum.div_count hn (Nat.le_succ _) h (.inr ?_)
  rw [mul_div_assoc', le_div_iff₀ (Nat.cast_pos.2 hn), mul_comm, ← List.sum_map_mul_left,
    ← nsmul_eq_mul]
  have hle := List.card_nsmul_le_sum (zs.map fun z => roundoff * scale z) (2 ^ (-1075 : ℤ))
    (List.forall_mem_map.2 fun z hz => (hscale z hz).2)
  rwa [List.length_map] at hle

/-- The scale at which the square of a number no smaller than this is rounded covers the spacing next to
zero. -/
theorem square_scale {v : ℝ} (h : 2 ^ (-400 : ℤ) ≤ v) :
    (2 : ℝ) ^ (-1075 : ℤ) ≤ roundoff * (v * v) := by
  have hpos : 0 < v := h.trans_lt' (by positivity)
  have hsquare : Coarse (-400 + -400) (v * v) := Coarse.mul (.inr h) (.inr h)
  exact (hsquare.covers (by norm_num)).resolve_left (mul_pos hpos hpos).ne'

section RootMeanSquare

variable (hne : zs ≠ []) (h : (squareSum zs).isFinite = true)
include hne h

theorem rootMeanSquare_error : (rootMeanSquare zs).isFinite = true ∧
    |real (rootMeanSquare zs) - √(real (squareSum zs / Binary64.count zs))| ≤
      roundoff * √(real (squareSum zs / Binary64.count zs)) := by
  obtain ⟨hfinite, h0⟩ := meanSquare_nonneg hne h
  rw [rootMeanSquare_eq]
  exact sqrt_error hfinite h0

theorem rootMeanSquare_nonneg : 0 ≤ real (rootMeanSquare zs) := by
  have herror := (abs_le.1 (rootMeanSquare_error hne h).2).1
  have hroot := Real.sqrt_nonneg (real (squareSum zs / Binary64.count zs))
  linarith [mul_le_mul_of_nonneg_right roundoff_le hroot]

theorem rootMeanSquare_le {high : ℝ} (hscale : 2 ^ (-400 : ℤ) ≤ high)
    (hz : ∀ z ∈ zs, |real z| ≤ high) :
    real (rootMeanSquare zs) ≤ growth (zs.length + 5) * high := by
  have hhigh : 0 ≤ high := hscale.trans' (by positivity)
  have hn : (zs.length : ℝ) ≠ 0 := Nat.cast_ne_zero.2 (List.length_pos_of_ne_nil hne).ne'
  have herror := (abs_le.1 (rootMeanSquare_error hne h).2).2
  have hmean := (within_meanSquare (fun _ => high * high) hne h fun z hzs =>
    ⟨abs_le_iff_mul_self_le.1 ((hz z hzs).trans (le_abs_self high)), square_scale hscale⟩).abs_le
  rw [List.map_const', List.sum_replicate, nsmul_eq_mul, mul_div_cancel_left₀ _ hn] at hmean
  have hone := one_le_growth (zs.length + 4)
  have hroot : √(real (squareSum zs / Binary64.count zs)) ≤ growth (zs.length + 4) * high := by
    refine Real.sqrt_le_iff.2 ⟨by positivity, (le_abs_self _).trans (hmean.trans ?_)⟩
    nlinarith [mul_nonneg hhigh hhigh]
  rw [growth_succ]
  nlinarith [roundoff_pos]

theorem le_rootMeanSquare {low : ℝ} (hscale : 2 ^ (-400 : ℤ) ≤ low)
    (hz : ∀ z ∈ zs, low ≤ |real z|) :
    (2 - growth (zs.length + 5)) * low ≤ real (rootMeanSquare zs) := by
  have hlow : 0 ≤ low := hscale.trans' (by positivity)
  have hn : (0 : ℝ) < zs.length := Nat.cast_pos.2 (List.length_pos_of_ne_nil hne)
  have herror := (abs_le.1 (rootMeanSquare_error hne h).2).1
  have hmean := (abs_le.1 (within_meanSquare (fun z => real z * real z) hne h fun z hzs =>
    ⟨le_rfl, abs_mul_abs_self (real z) ▸ square_scale (hscale.trans (hz z hzs))⟩).error).1
  have hone := one_le_growth (zs.length + 4)
  have hsquares : low * low ≤ (zs.map fun z => real z * real z).sum / zs.length := by
    rw [le_div_iff₀ hn, mul_comm, ← nsmul_eq_mul]
    have hle := List.card_nsmul_le_sum (zs.map fun z => real z * real z) (low * low)
      (List.forall_mem_map.2 fun z hzs =>
        abs_mul_abs_self (real z) ▸ mul_le_mul (hz z hzs) (hz z hzs) hlow (abs_nonneg _))
    rwa [List.length_map] at hle
  have hnonneg := rootMeanSquare_nonneg hne h
  rw [growth_succ]
  generalize real (squareSum zs / Binary64.count zs) = q at herror hmean
  generalize (zs.map fun z => real z * real z).sum / (zs.length : ℝ) = mean at hmean hsquares
  generalize growth (zs.length + 4) = g at hmean hone
  by_cases hg : g ≤ 2
  · have hroot : (2 - g) * low ≤ √q := by
      refine Real.le_sqrt_of_sq_le ?_
      calc ((2 - g) * low) ^ 2 = (2 - g) * ((2 - g) * (low * low)) := by ring
        _ ≤ (2 - g) * mean :=
          mul_le_mul_of_nonneg_left ((mul_le_of_le_one_left (mul_nonneg hlow hlow)
            (by linarith)).trans hsquares) (by linarith)
        _ ≤ q := by linarith
    calc (2 - g * (1 + roundoff)) * low ≤ (2 - g) * (1 - roundoff) * low :=
          mul_le_mul_of_nonneg_right (two_sub_mul_le hone roundoff_pos.le) hlow
      _ = (1 - roundoff) * ((2 - g) * low) := by ring
      _ ≤ (1 - roundoff) * √q :=
          mul_le_mul_of_nonneg_left hroot (by linarith [roundoff_le])
      _ ≤ real (rootMeanSquare zs) := by linarith
  · refine (mul_nonpos_of_nonpos_of_nonneg ?_ hlow).trans hnonneg
    linarith [mul_nonneg (zero_le_one.trans hone) roundoff_pos.le]

/-- Squares may vanish next to zero, but no sum of them grows. -/
theorem rootMeanSquare_tiny (hz : ∀ z ∈ zs, |real z| ≤ 2 ^ (-400 : ℤ)) :
    real (rootMeanSquare zs) ≤ 1 / 1000 := by
  have hn := List.length_pos_of_ne_nil hne
  have hpos : (0 : ℝ) < zs.length := Nat.cast_pos.2 hn
  have herror := (abs_le.1 (rootMeanSquare_error hne h).2).2
  have htiny : (2 : ℝ) ^ (-400 : ℤ) ≤ 2 ^ (-14 : ℤ) :=
    zpow_le_zpow_right₀ (by norm_num) (by norm_num)
  have htiny0 : (0 : ℝ) < 2 ^ (-400 : ℤ) := by positivity
  generalize (2 : ℝ) ^ (-400 : ℤ) = tiny at hz htiny htiny0
  have hsum : |real (squareSum zs)| ≤ 2 * (zs.length * (2 * (tiny * tiny))) :=
    (abs_sumFrom_le h).trans
      (mul_le_mul_of_nonneg_left (sum_squares_le (isFinite_of_squareSum h) hz) two_pos.le)
  have hquot := value_div_ofNat_le h hn
  rw [← abs_real, ← abs_real] at hquot
  have hmean : |real (squareSum zs / Binary64.count zs)| ≤ (4 * tiny) ^ 2 := by
    refine hquot.trans ?_
    rw [mul_div_assoc', div_le_iff₀ hpos]
    linarith
  have hroot := Real.sqrt_le_iff.2 ⟨by positivity, (le_abs_self _).trans hmean⟩
  norm_num at htiny
  linarith [mul_le_mul_of_nonneg_right roundoff_le
    (Real.sqrt_nonneg (real (squareSum zs / Binary64.count zs)))]

end RootMeanSquare

/-! ### Scores -/

/-- How far rounding may take a score of `n` deviations, as a part of it: next to nothing for up to some
millions of them, and no more than a rounding each for any number. -/
noncomputable def tolerance (n : ℕ) : ℝ := max 1e-9 (growth (n + 10) - 1)

theorem tolerance_eq {n : ℕ} (h : n ≤ 4194304) : tolerance n = 1e-9 := by
  have hn : (n : ℝ) ≤ 4194304 := by exact_mod_cast h
  have hfew : ((n + 10 : ℕ) : ℝ) * roundoff ≤ 4194314 * roundoff := by
    push_cast
    exact mul_le_mul_of_nonneg_right (by linarith) roundoff_pos.le
  have hmany : 2 * (4194314 * roundoff) ≤ 1e-9 := by norm_num [roundoff]
  refine max_eq_left ?_
  linarith [growth_le (k := n + 10) (by linarith)]

/-- The score lies between the least and the greatest of some magnitudes, give or take the tolerance and
a unit of its last place. -/
def Between (zs : List Float) (score : Float) : Prop :=
  ∃ least ∈ zs, ∃ greatest ∈ zs, (∀ z ∈ zs, real least ≤ real z ∧ real z ≤ real greatest) ∧
    real least * (1 - tolerance zs.length) - 0.01 ≤ real score ∧
    real score ≤ real greatest * (1 + tolerance zs.length) + 0.01

section Rounded

variable (hne : zs ≠ []) (h : (squareSum zs).isFinite = true)
include hne h

theorem rounded_error : |real (roundTo (rootMeanSquare zs) 2) - real (rootMeanSquare zs)| ≤
    5 * roundoff * real (rootMeanSquare zs) + 0.006 := by
  have herror := roundTo_error (show (1 : ℤ) ≤ 2 by norm_num) (by norm_num)
    (rootMeanSquare_error hne h).1
  rw [abs_of_nonneg (rootMeanSquare_nonneg hne h)] at herror
  exact herror.trans_eq (by norm_num)

theorem rounded_le {high : ℝ} (h0 : 0 ≤ high) (hz : ∀ z ∈ zs, |real z| ≤ high) :
    real (roundTo (rootMeanSquare zs) 2) ≤ high * (1 + tolerance zs.length) + 0.01 := by
  have herror := (abs_le.1 (rounded_error hne h)).2
  have htolerance : growth (zs.length + 10) - 1 ≤ tolerance zs.length := le_max_right _ _
  rcases le_total (2 ^ (-400 : ℤ)) high with hscale | hscale
  · have hrms := rootMeanSquare_le hne h hscale hz
    have hfactor : real (rootMeanSquare zs) * (1 + 5 * roundoff) ≤ growth (zs.length + 10) * high := by
      have hfive := one_add_mul_le_growth 5
      push_cast at hfive
      calc real (rootMeanSquare zs) * (1 + 5 * roundoff)
          ≤ growth (zs.length + 5) * high * growth 5 :=
            mul_le_mul hrms hfive (by linarith [roundoff_pos])
              ((rootMeanSquare_nonneg hne h).trans hrms)
        _ = growth (zs.length + 10) * high := by
            rw [show zs.length + 10 = zs.length + 5 + 5 from rfl, growth_add (zs.length + 5)]
            ring
    linarith [mul_le_mul_of_nonneg_right htolerance h0]
  · have hrms := rootMeanSquare_tiny hne h fun z hzs => (hz z hzs).trans hscale
    have hone := one_le_growth (zs.length + 10)
    linarith [mul_nonneg h0 (show 0 ≤ 1 + tolerance zs.length by linarith),
      mul_le_mul_of_nonneg_right roundoff_le (rootMeanSquare_nonneg hne h)]

theorem le_rounded {low : ℝ} (h0 : 0 ≤ low) (hz : ∀ z ∈ zs, low ≤ |real z|) :
    low * (1 - tolerance zs.length) - 0.01 ≤ real (roundTo (rootMeanSquare zs) 2) := by
  have herror := (abs_le.1 (rounded_error hne h)).1
  have hnonneg := rootMeanSquare_nonneg hne h
  have hu := roundoff_le
  have htolerance : growth (zs.length + 10) - 1 ≤ tolerance zs.length := le_max_right _ _
  rcases le_total (2 ^ (-400 : ℤ)) low with hscale | hscale
  · have hrms := le_rootMeanSquare hne h hscale hz
    have hfactor : (2 - growth (zs.length + 10)) * low ≤
        real (rootMeanSquare zs) * (1 - 5 * roundoff) := by
      have hfive := one_add_mul_le_growth 5
      push_cast at hfive
      have hg := one_le_growth (zs.length + 5)
      calc (2 - growth (zs.length + 10)) * low
          ≤ (2 - growth (zs.length + 5) * (1 + 5 * roundoff)) * low := by
            refine mul_le_mul_of_nonneg_right ?_ h0
            rw [show zs.length + 10 = zs.length + 5 + 5 from rfl, growth_add (zs.length + 5)]
            linarith [mul_le_mul_of_nonneg_left hfive (zero_le_one.trans hg)]
        _ ≤ (2 - growth (zs.length + 5)) * (1 - 5 * roundoff) * low :=
            mul_le_mul_of_nonneg_right (two_sub_mul_le hg (by linarith [roundoff_pos])) h0
        _ = (2 - growth (zs.length + 5)) * low * (1 - 5 * roundoff) := by ring
        _ ≤ _ := mul_le_mul_of_nonneg_right hrms (by linarith)
    linarith [mul_le_mul_of_nonneg_right htolerance h0]
  · have htiny : (2 : ℝ) ^ (-400 : ℤ) ≤ 2 ^ (-14 : ℤ) :=
      zpow_le_zpow_right₀ (by norm_num) (by norm_num)
    have hsmall : low ≤ 1 / 1000 := hscale.trans (htiny.trans (by norm_num))
    have hone := one_le_growth (zs.length + 10)
    linarith [mul_nonneg h0 (show 0 ≤ tolerance zs.length by linarith),
      mul_le_mul_of_nonneg_right hu hnonneg]

theorem between_rounded (h0 : ∀ z ∈ zs, 0 ≤ real z) :
    Between zs (roundTo (rootMeanSquare zs) 2) := by
  have hfinite : {z | z ∈ zs}.Finite := zs.finite_toSet
  have hmem := List.exists_mem_of_ne_nil _ hne
  obtain ⟨least, hleast, hlow⟩ := Set.exists_min_image _ real hfinite hmem
  obtain ⟨greatest, hgreatest, hhigh⟩ := Set.exists_max_image _ real hfinite hmem
  refine ⟨least, hleast, greatest, hgreatest, fun z hz => ⟨hlow z hz, hhigh z hz⟩,
    le_rounded hne h (h0 _ hleast) fun z hz => (hlow z hz).trans (le_abs_self _),
    rounded_le hne h (h0 _ hgreatest) fun z hz => ?_⟩
  rw [abs_of_nonneg (h0 z hz)]
  exact hhigh z hz

end Rounded

/-! ### The range of doubles -/

/-- The sum of the squares is finite with two binary digits to spare. -/
theorem isFinite_squareSum {high : ℝ} (hfinite : ∀ z ∈ zs, z.isFinite = true)
    (hz : ∀ z ∈ zs, |real z| ≤ high) (hhigh : zs.length * (high * high) ≤ 2 ^ (1021 : ℤ)) :
    (squareSum zs).isFinite = true := by
  have hsquare : ∀ z ∈ zs, real z * real z ≤ high * high := fun z hzs =>
    abs_le_iff_mul_self_le.1 ((hz z hzs).trans (le_abs_self high))
  have hproduct : ∀ z ∈ zs, (z * z).isFinite = true := fun z hzs => by
    refine (nearest_mul (hfinite z hzs) (hfinite z hzs)).isFinite (e := 1021) (by norm_num) ?_
    rw [abs_mul_self]
    refine (hsquare z hzs).trans (hhigh.trans' ?_)
    exact le_mul_of_one_le_left (mul_self_nonneg high)
      (by exact_mod_cast List.length_pos_of_mem hzs)
  refine isFinite_sumFrom (List.forall_mem_map.2 hproduct) le_rfl ?_
  calc 2 * ((zs.map fun z => z * z).map fun x => |real x|).sum
      ≤ 4 * (zs.length * (high * high)) := by
        linarith [sum_squares_le hproduct hz]
    _ ≤ 2 ^ (2 : ℤ) * 2 ^ (1021 : ℤ) :=
      mul_le_mul_of_nonneg (by norm_num) hhigh (by norm_num) (by positivity)
    _ = 2 ^ (1023 : ℤ) := by rw [← zpow_add₀ two_ne_zero]; norm_num

theorem squareSum_eq_false {z : Float} (hz : z ∈ zs) (hlarge : 2 ^ (512 : ℤ) ≤ |real z|) :
    (squareSum zs).isFinite = false := by
  by_contra hsum
  rw [Bool.not_eq_false] at hsum
  have hsquare := isFinite_of_squareSum hsum z hz
  have hfinite : z.isFinite = true :=
    isFinite_of_imp (fun hinf => isFinite_mul_eq_false (.inl hinf)) hsquare
  obtain ⟨b, hb, hbits⟩ := magnitudeBits_mul hfinite hfinite
  have hle : infinityBits ≤ b := by
    refine hb.le_value ?_
    rw [value_infinityBits, ← abs_real, show (1024 : ℤ) = 512 + 512 by norm_num,
      zpow_add₀ two_ne_zero]
    exact mul_le_mul hlarge hlarge (by positivity) (abs_nonneg _)
  rw [isFinite_iff] at hsquare
  omega

theorem rounded_eq_zero (h : (squareSum zs).isFinite = false) :
    roundTo (rootMeanSquare zs) 2 = 0.0 := by
  have hrms : (rootMeanSquare zs).isFinite = false :=
    isFinite_sqrt_eq_false (isFinite_div_eq_false h _)
  rw [roundTo, hrms]
  rfl

/-! ### Diagnoses -/

namespace Scorer

variable {s : Scorer} {verdicts : List Verdict}

theorem of_mem_magnitudes {z : Float} (hz : z ∈ s.magnitudes verdicts) :
    z.isFinite = true ∧ 0 ≤ real z := by
  obtain ⟨d, hd, rfl⟩ := List.mem_map.1 hz
  obtain ⟨v, _, helevated, rfl⟩ := mem_deviations.1 hd
  have hfinite : (Deviation.ofVerdict v).zScore.isFinite = true := (isElevated_iff.1 helevated).1
  rw [real_abs hfinite]
  exact ⟨isFinite_abs hfinite, abs_nonneg _⟩

theorem magnitudes_eq_nil_iff : s.magnitudes verdicts = [] ↔ s.deviations verdicts = [] :=
  List.map_eq_nil_iff

/-- Where the squares of the elevated z-scores have a sum in the range of doubles, the score lies between
the least and the greatest magnitude, and a diagnosis is made where the least is past the least score.
Where they have none, as for any z-score from 2 ^ 512 on, the score is zero. -/
theorem score_between (s : Scorer) (entity : String) (verdicts : List Verdict) (time : Instant)
    (helevated : ∃ v ∈ verdicts, s.isElevated v = true) :
    let zs := s.magnitudes verdicts
    (zs.length ≤ 4194304 → tolerance zs.length = 1e-9) ∧
    ((squareSum zs).isFinite = true → Between zs (s.score verdicts) ∧
      ((∀ z ∈ zs, real s.minScore + 0.01 ≤ real z * (1 - tolerance zs.length)) →
        ∃ made, s.diagnose entity verdicts time = some made ∧ made.score = s.score verdicts)) ∧
    ((squareSum zs).isFinite = false → s.score verdicts = 0.0 ∧
      (0.0 < s.minScore → s.diagnose entity verdicts time = none)) ∧
    (∀ high : ℝ, (∀ z ∈ zs, real z ≤ high) → zs.length * (high * high) ≤ 2 ^ (1021 : ℤ) →
      (squareSum zs).isFinite = true) ∧
    ∀ z ∈ zs, 2 ^ (512 : ℤ) ≤ real z → (squareSum zs).isFinite = false := by
  intro zs
  obtain ⟨v, hv, hv'⟩ := helevated
  have hlisted : s.deviations verdicts ≠ [] :=
    List.ne_nil_of_mem (mem_deviations.2 ⟨v, hv, hv', rfl⟩)
  have hne : zs ≠ [] := mt magnitudes_eq_nil_iff.1 hlisted
  refine ⟨tolerance_eq, fun hsum => ?_, fun hsum => ?_, fun high hz hhigh => ?_, fun z hz hlarge => ?_⟩
  · have hbetween : Between zs (s.score verdicts) :=
      between_rounded hne hsum fun z hz => (of_mem_magnitudes hz).2
    refine ⟨hbetween, fun hmin => ⟨_, diagnose_eq_some_iff.2 ⟨hlisted, fun hlt => ?_, rfl⟩, rfl⟩⟩
    obtain ⟨least, hleast, _, _, _, hlow, _⟩ := hbetween
    have hle : real s.minScore ≤ real (s.score verdicts) := by linarith [hmin least hleast]
    have hposition := (lt_iff.1 hlt).2.2
    have := real_le_iff.1 hle
    omega
  · have hscore : s.score verdicts = 0.0 := rounded_eq_zero hsum
    exact ⟨hscore, fun hpos => diagnose_eq_none_iff.2 (.inr (hscore ▸ hpos))⟩
  · refine isFinite_squareSum (fun z hzs => (of_mem_magnitudes hzs).1) (fun z hzs => ?_) hhigh
    rw [abs_of_nonneg (of_mem_magnitudes hzs).2]
    exact hz z hzs
  · exact squareSum_eq_false hz (hlarge.trans (le_abs_self _))

/-- Three metrics of one entity out of line, one of them below its baseline. -/
def busyVerdicts : List Verdict :=
  [⟨"web", .memory, 25.0, 50.0, 5.0, -5.0, true⟩, ⟨"web", .cpu, 70.0, 50.0, 5.0, 4.0, true⟩,
    ⟨"web", .disk, 65.0, 50.0, 5.0, 3.0, true⟩]

theorem score_between_busy :
    let s := DiagnosisSettings.standard.scorer
    (∃ v ∈ busyVerdicts, s.isElevated v = true) ∧ s.magnitudes busyVerdicts = [5.0, 4.0, 3.0] ∧
      Between [5.0, 4.0, 3.0] (s.score busyVerdicts) ∧
      ∃ made, s.diagnose "web" busyVerdicts .epoch = some made ∧ made.score = s.score busyVerdicts := by
  intro s
  have hsorted : ((busyVerdicts.filter s.isElevated).map Deviation.ofVerdict).Pairwise
      (deviatesMore · ·) := by decide
  have hmagnitudes : s.magnitudes busyVerdicts = [5.0, 4.0, 3.0] := by
    rw [magnitudes, deviations_of_pairwise hsorted]
    decide
  have helevated : ∃ v ∈ busyVerdicts, s.isElevated v = true := by decide
  obtain ⟨_, hbetween, _⟩ := score_between s "web" busyVerdicts .epoch helevated
  rw [hmagnitudes] at hbetween
  obtain ⟨hscore, hmade⟩ := hbetween (by decide +kernel)
  refine ⟨helevated, hmagnitudes, hscore, hmade fun z hz => ?_⟩
  have hleast : real s.minScore = 2 := real_ofNat (n := 2) (by norm_num)
  have hlow : 3 ≤ real z := by
    have hthree : real 3.0 = 3 := real_ofNat (n := 3) (by norm_num)
    rw [← hthree]
    exact (le_iff_real_le (by decide) (by revert z; decide)).1 (by revert z; decide)
  rw [hleast, tolerance_eq (by decide)]
  linarith

/-- Six samples about one half. -/
def wobblyHistory : List Sample :=
  (List.replicate 3 [⟨.epoch, 0.0⟩, ⟨.epoch, 1.0⟩]).flatten

/-- A value this far from its baseline is anomalous and makes no diagnosis. -/
theorem diagnose_hugeDeviation :
    ∃ verdict, Detector.standard.judge "web" .cpu wobblyHistory 1e200 = some verdict ∧
      verdict.zScore = 2e200 ∧ verdict.isAnomalous = true ∧
      DiagnosisSettings.standard.scorer.isElevated verdict = true ∧
      DiagnosisSettings.standard.scorer.diagnose "web" [verdict] .epoch = none := by
  have hverdict : (Detector.standard.judge "web" .cpu wobblyHistory 1e200).map
      (fun verdict => (verdict.zScore, verdict.isAnomalous)) = some (2e200, true) := by
    decide +kernel
  obtain ⟨verdict, hjudge, heq⟩ := Option.map_eq_some_iff.1 hverdict
  obtain ⟨hz, hanomalous⟩ := Prod.mk.inj heq
  have helevated : DiagnosisSettings.standard.scorer.isElevated verdict = true := by
    rw [isElevated, hz]
    decide +kernel
  have hlisted : DiagnosisSettings.standard.scorer.deviations [verdict] =
      [Deviation.ofVerdict verdict] := by
    rw [deviations_of_pairwise] <;> simp [helevated]
  refine ⟨verdict, hjudge, hz, hanomalous, helevated, diagnose_eq_none_iff.2 (.inr ?_)⟩
  rw [score, magnitudes, hlisted, List.map_singleton, Deviation.ofVerdict, hz]
  change roundTo (rootMeanSquare [(2e200 : Float).abs]) 2 < _
  decide +kernel

end Scorer

end FleetHealth
