import FleetHealth.Proofs.Binary64.Bounds
import FleetHealth.Proofs.FiniteResults

/-!
# Flat windows

A window that holds one value over and over. The mean of such a window need not be that value, since
its sum is rounded at every step, and the deviation that is computed then is not zero. A detector finds
the window flat exactly where that deviation is below the distance of 1 to the next double. Where the
sum is exact, or leaves the range of doubles, it does.
-/
namespace FleetHealth

namespace Baseline

open Binary64

variable {v : Float} {n : ℕ} {b : Baseline}

theorem exists_ofValues? {values : List Float} (hne : values ≠ []) :
    ∃ b, ofValues? values = some b ∧ b.count = values.length :=
  ⟨_, if_neg (by simpa using hne), rfl⟩

/-- The deviation that is computed for a flat window is zero, or at most some multiple of how far the
value is from the mean. -/
theorem deviation_bound (hn : 1 ≤ n) (h : ofValues? (List.replicate n v) = some b) :
    b.deviation = 0.0 ∨ ((v - b.mean) * (v - b.mean)).isFinite = true ∧
      value (magnitudeBits b.deviation) ≤ 8 * value (magnitudeBits (v - b.mean)) := by
  have hne : (List.replicate n v).isEmpty = false := by simp; omega
  rw [ofValues?, hne, if_neg Bool.false_ne_true, Option.some.injEq] at h
  subst h
  simp only [Binary64.count, List.length_replicate, List.map_replicate]
  generalize v - sum (List.replicate n v) / Float.ofNat n = e
  split
  next hdev =>
    have hvariance := isFinite_of_imp isFinite_sqrt_eq_false hdev
    have hsum := isFinite_of_imp (isFinite_div_eq_false · _) hvariance
    have hsquare : (e * e).isFinite = true :=
      isFinite_of_imp (fun hinf => isFinite_sumFrom_eq_false
        (.inr ⟨e * e, List.mem_replicate.2 ⟨by omega, rfl⟩, hinf⟩)) hsum
    have he : e.isFinite = true :=
      isFinite_of_imp (fun hinf => isFinite_mul_eq_false (.inl hinf)) hsquare
    refine .inr ⟨hsquare, ?_⟩
    have hE := value_nonneg (magnitudeBits e)
    have hpos : (0 : ℝ) < n := Nat.cast_pos.2 hn
    obtain ⟨c, hc, hcbits⟩ := magnitudeBits_mul he he
    obtain ⟨d, hd, hdbits⟩ := magnitudeBits_sqrt hdev
    rw [← bits_of_isFinite hsquare hcbits] at hc
    rw [← bits_of_isFinite hdev hdbits] at hd
    -- each rounding at most doubles what it is given, and so does the sum of the squares
    have hsquare_le := hc.value_le_two_mul (mul_nonneg hE hE)
    have hsum_le := (sum_replicate_le hn hsquare hsum).2
    have hvariance_le := value_div_ofNat_le hsum hn
    have hdev_le := hd.value_le_two_mul (Real.sqrt_nonneg _)
    generalize value (magnitudeBits (sum (List.replicate n (e * e)) / Float.ofNat n)) = V at *
    generalize value (magnitudeBits (sum (List.replicate n (e * e)))) = S at *
    generalize value (magnitudeBits (e * e)) = W at *
    generalize value (magnitudeBits e) = E at *
    have hmean_le : S / n ≤ 4 * (E * E) := by
      rw [div_le_iff₀ hpos]
      nlinarith
    have hroot : √V ≤ 4 * E := (Real.sqrt_le_left (by linarith)).2 (by nlinarith)
    linarith
  next => exact .inl rfl

/-- A window that is not found flat tells even its own value from the mean. -/
theorem roundTo_zScore_ne_zero (hn : 1 ≤ n) (h : ofValues? (List.replicate n v) = some b)
    (hdev : ¬ b.deviation < epsilon) : Binary64.roundTo (b.zScore v) 2 ≠ 0.0 := by
  have hfinite : b.deviation.isFinite = true := (isFinite_of_ofValues? h).2.1
  have hlow := epsilon_le_value hfinite hdev
  obtain hzero | ⟨hsquare, hbound⟩ := deviation_bound hn h
  · exact absurd (by rw [hzero]; decide) hdev
  · have he : (v - b.mean).isFinite = true :=
      isFinite_of_imp (fun h => isFinite_mul_eq_false (.inl h)) hsquare
    have hz := isFinite_div_of_epsilon_le hsquare hfinite hlow
    have hD : 0 < value (magnitudeBits b.deviation) := lt_of_lt_of_le (by positivity) hlow
    simp only [zScore, if_neg hdev, hz, if_true]
    refine roundTo_ne_zero (by decide) (by decide) hz ?_
    obtain ⟨c, hc, hq⟩ := magnitudeBits_div he hfinite (magnitudeBits_pos hD)
    rw [bits_of_isFinite hz hq, ← value_two_zpow (k := 1019) (by norm_num)]
    refine value_strictMono.monotone (hc.le_value ?_)
    rw [value_two_zpow (e := -3) (by norm_num), le_div_iff₀ hD]
    norm_num
    linarith

/-- Where the sum of the window is exact, its mean is the value in it. -/
theorem mean_eq {m : ℕ} {e : ℤ} (hn : 1 ≤ n) (hcount : n < 2 ^ 53) (hv : v.isFinite = true)
    (hvalue : value (magnitudeBits v) = m * 2 ^ e) (he : -1074 ≤ e) (hdigits : n * m ≤ 2 ^ 53)
    (hsum : (sum (List.replicate n v)).isFinite = true)
    (h : ofValues? (List.replicate n v) = some b) : b.mean = v := by
  have hne : (List.replicate n v).isEmpty = false := by simp; omega
  rw [ofValues?, hne, if_neg Bool.false_ne_true, Option.some.injEq] at h
  subst h
  simp only [Binary64.count, List.length_replicate]
  obtain ⟨hfinite, hN, hpositive⟩ := ofNat_exact hcount
  obtain ⟨hs, hS⟩ := sum_replicate_eq hn hv hvalue he hdigits hsum
  have hpos : (0 : ℝ) < n := Nat.cast_pos.2 hn
  have hbits := magnitudeBits_pos (hN.symm ▸ hpos)
  refine eq_of_magnitudeBits_eq ((sign_div hsum hfinite hbits hpositive).trans hs) ?_
  obtain ⟨c, hc, hq⟩ := magnitudeBits_div hsum hfinite hbits
  rw [hS, hN, mul_div_cancel_left₀ _ hpos.ne'] at hc
  rw [hq, hc.unique (rounds_value _), min_eq_left ((isFinite_iff v).1 hv).le]

theorem deviation_lt_of_mean_eq (hn : 1 ≤ n) (hv : v.isFinite = true)
    (h : ofValues? (List.replicate n v) = some b) (hmean : b.mean = v) :
    b.deviation < epsilon := by
  obtain hzero | ⟨_, hbound⟩ := deviation_bound hn h
  · rw [hzero]
    decide
  · rw [hmean, magnitudeBits_sub_self hv, value_zero, mul_zero] at hbound
    by_contra hdev
    have hlow := epsilon_le_value (isFinite_of_ofValues? h).2.1 hdev
    have : (0 : ℝ) < 2 ^ (-52 : ℤ) := by positivity
    linarith

end Baseline

namespace Detector

variable {d : Detector} {history : List Sample} {v : Float} {n : ℕ} {b : Baseline}

/-- Whether every finite value gets a verdict and none of them stands out. -/
def FindsFlat (d : Detector) (history : List Sample) : Prop :=
  ∀ entity metric current, current.isFinite = true →
    ∃ verdict, d.judge entity metric history current = some verdict ∧
      verdict.zScore = 0.0 ∧ verdict.isAnomalous = false

theorem judge_eq_some (hb : Baseline.ofSamples? history d.window = some b)
    (hmin : d.minSamples ≤ b.count) (entity : String) (metric : Metric) {current : Float}
    (hcurrent : current.isFinite = true) :
    d.judge entity metric history current =
      some ⟨entity, metric, current, b.mean, b.deviation, Binary64.roundTo (b.zScore current) 2,
        (Binary64.roundTo (b.zScore current) 2).abs > d.threshold⟩ := by
  simp [judge, hcurrent, hb, hmin, guard]

theorem findsFlat_iff (hv : v.isFinite = true) (hn : 1 ≤ n)
    (hb : Baseline.ofSamples? history d.window = some b)
    (hwindow : Baseline.windowValues history d.window = List.replicate n v)
    (hmin : d.minSamples ≤ b.count) (hthreshold : ¬ d.threshold < 0.0) :
    d.FindsFlat history ↔ b.deviation < Binary64.epsilon := by
  constructor
  · intro hflat
    by_contra hdev
    obtain ⟨verdict, hverdict, hzero, _⟩ := hflat "" .cpu v hv
    rw [judge_eq_some hb hmin _ _ hv, Option.some.injEq] at hverdict
    rw [Baseline.ofSamples?_eq, hwindow] at hb
    refine Baseline.roundTo_zScore_ne_zero hn hb hdev ?_
    rw [← hzero, ← hverdict]
  · intro hdev entity metric current hcurrent
    have hz : Binary64.roundTo (b.zScore current) 2 = 0.0 := by
      rw [Baseline.zScore, if_pos hdev]
      exact Binary64.roundTo_zero (by decide) (by decide)
    refine ⟨_, judge_eq_some hb hmin entity metric hcurrent, hz, ?_⟩
    rw [hz, decide_eq_false_iff_not]
    exact not_abs_zero_gt hthreshold

/-- A window that holds one value only. Every finite value gets a verdict over it, always with the same
mean and deviation. None stands out exactly where the computed deviation is below the distance of 1 to
the next double. So it is where the sum of the window leaves the range of doubles, and where no multiple
of the value up to that sum needs more than 53 digits. -/
theorem flat_window (hv : v.isFinite = true)
    (hwindow : Baseline.windowValues history d.window = List.replicate n v)
    (hn : max d.minSamples 1 ≤ n) (hthreshold : ¬ d.threshold < 0.0) :
    ∃ b, Baseline.ofSamples? history d.window = some b ∧
      (∀ entity metric current, current.isFinite = true →
        ∃ verdict, d.judge entity metric history current = some verdict ∧
          verdict.mean = b.mean ∧ verdict.deviation = b.deviation) ∧
      (d.FindsFlat history ↔ b.deviation < Binary64.epsilon) ∧
      ((Binary64.sum (List.replicate n v)).isFinite = false → d.FindsFlat history) ∧
      ∀ m k, (Binary64.Scaled.ofFloat v).significand = m * 2 ^ k → n < 2 ^ 53 → n * m ≤ 2 ^ 53 →
        d.FindsFlat history := by
  have hone : 1 ≤ n := (le_max_right _ _).trans hn
  have hne : List.replicate n v ≠ [] := by simp; omega
  obtain ⟨b, hb, hcount⟩ := Baseline.exists_ofValues? hne
  rw [List.length_replicate] at hcount
  have hwindow' : Baseline.ofSamples? history d.window = some b := by
    rw [Baseline.ofSamples?_eq, hwindow, hb]
  have hmin : d.minSamples ≤ b.count := hcount ▸ (le_max_left _ _).trans hn
  have hflat := findsFlat_iff hv hone hwindow' hwindow hmin hthreshold
  obtain ⟨hfinite, _, hinfinite⟩ := Baseline.isFinite_of_ofValues? hb
  have hoverflow (hsum : (Binary64.sum (List.replicate n v)).isFinite = false) :
      d.FindsFlat history := by
    rw [← Bool.not_eq_true, ← hfinite, Bool.not_eq_true] at hsum
    rw [hflat, hinfinite hsum]
    decide
  refine ⟨b, hwindow', fun entity metric current hcurrent =>
    ⟨_, judge_eq_some hwindow' hmin entity metric hcurrent, rfl, rfl⟩, hflat, hoverflow, ?_⟩
  intro m k hsignificand hwords hdigits
  by_cases hsum : (Binary64.sum (List.replicate n v)).isFinite = true
  · have hvalue : Binary64.value (Binary64.magnitudeBits v) =
        m * 2 ^ ((k : ℤ) + (Binary64.Scaled.ofFloat v).exponent) := by
      rw [Binary64.value_magnitudeBits, hsignificand, zpow_add₀ two_ne_zero]
      push_cast
      rw [zpow_natCast]
      ring
    have hexponent := Binary64.exponent_ge v
    have hmean := Baseline.mean_eq hone hwords hv hvalue (by omega) hdigits hsum hb
    exact hflat.2 (Baseline.deviation_lt_of_mean_eq hone hv hb hmean)
  · exact hoverflow (Bool.eq_false_iff.2 hsum)

/-- Ten samples of one value, a second apart. -/
def steadyHistory : List Sample :=
  (List.range 10).map fun i => ⟨(Instant.ofMillis? (1000 * i)).get!, 55.0⟩

theorem flat_window_steady :
    Baseline.windowValues steadyHistory standard.window = List.replicate 10 55.0 ∧
      ∃ verdict, standard.judge "web" .memory steadyHistory 99.0 = some verdict ∧
        verdict.zScore = 0.0 ∧ verdict.isAnomalous = false := by
  have hwindow : Baseline.windowValues steadyHistory standard.window = List.replicate 10 55.0 := by
    decide +kernel
  obtain ⟨b, _, _, _, _, hexact⟩ := flat_window (d := standard) (by decide) hwindow (by decide)
    (by decide)
  exact ⟨hwindow, hexact 55 47 (by decide) (by decide) (by decide) "web" .memory 99.0 (by decide)⟩

/-- Six samples of one value whose sum is rounded. -/
def roundedHistory : List Sample :=
  (List.range 6).map fun i => ⟨(Instant.ofMillis? (1000 * i)).get!, 33.3⟩

/-- All values in the window are the same, and a value a little above them stands out. -/
theorem judge_roundedHistory :
    Baseline.windowValues roundedHistory standard.window = List.replicate 6 33.3 ∧
      max standard.minSamples 1 ≤ 6 ∧ ¬ standard.threshold < 0.0 ∧
      ∃ verdict, standard.judge "web" .cpu roundedHistory 33.4 = some verdict ∧
        verdict.zScore = 14073748835532.0 ∧ verdict.isAnomalous = true := by
  have hverdict : (standard.judge "web" .cpu roundedHistory 33.4).map
      (fun verdict => (verdict.zScore, verdict.isAnomalous)) = some (14073748835532.0, true) := by
    decide +kernel
  obtain ⟨verdict, hjudge, heq⟩ := Option.map_eq_some_iff.1 hverdict
  obtain ⟨hz, hanomalous⟩ := Prod.mk.inj heq
  exact ⟨by decide +kernel, by decide, by decide, verdict, hjudge, hz, hanomalous⟩

end Detector

end FleetHealth
