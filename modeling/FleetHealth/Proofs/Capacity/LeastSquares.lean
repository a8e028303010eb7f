import FleetHealth.Binary64
import FleetHealth.Capacity.Line
import FleetHealth.Proofs.Instant
import Mathlib

/-!
# Lines of least squared error

In rationals the closed form is the line of least squared error. The squared error of any line is that of
the fitted one and the squares of how far the two are apart, so no other line comes as near. Samples whose
hours are not all the same spread them by a millisecond at least, which is far above what counts as
negligible: the flat line is drawn for samples at once only.
-/
namespace FleetHealth.Capacity.LeastSquares

open Line Quantity

/-! ### Sums of squares -/

section Squares

variable {α R : Type*} [CommRing R] [LinearOrder R] [IsStrictOrderedRing R] (f : α → R)

theorem sum_mul_self_le (l : List α) :
    (l.map f).sum * (l.map f).sum ≤ l.length * (l.map fun a => f a * f a).sum := by
  have h := sq_sum_le_card_mul_sum_sq (s := Finset.univ) (f := fun i : Fin l.length => f l[i.1])
  simp only [sq, Finset.card_univ, Fintype.card_fin] at h
  rwa [Fin.sum_univ_fun_getElem l f, Fin.sum_univ_fun_getElem l fun a => f a * f a] at h

/-- Where the first number is zero, the sum of the numbers takes at most as much off the spread as there
are numbers left. -/
theorem squares_le_spread {first : α} (hfirst : f first = 0) (rest : List α) :
    ((first :: rest).map fun a => f a * f a).sum ≤
      (first :: rest).length * ((first :: rest).map fun a => f a * f a).sum -
        ((first :: rest).map f).sum * ((first :: rest).map f).sum := by
  have hrest := sum_mul_self_le f rest
  simp only [List.map_cons, List.sum_cons, List.length_cons, hfirst, zero_mul, zero_add]
  push_cast
  linarith

end Squares

variable {points : List (ℚ × ℚ)} {slope intercept : ℚ}

/-! ### Lines over some points -/

/-- The squared error of a line over some points. -/
def squaredError (points : List (ℚ × ℚ)) (slope intercept : ℚ) : ℚ :=
  (points.map fun p => (p.2 - slope * p.1 - intercept) ^ 2).sum

def mean (points : List (ℚ × ℚ)) : ℚ := (points.map (·.2)).sum / points.length

/-- The squared error of the flat line through the mean. -/
def variation (points : List (ℚ × ℚ)) : ℚ := (points.map fun p => (p.2 - mean points) ^ 2).sum

/-- How two readings of the points vary together, times the square of their number. -/
def codeviation (f g : ℚ × ℚ → ℚ) (points : List (ℚ × ℚ)) : ℚ :=
  points.length * (points.map fun p => f p * g p).sum - (points.map f).sum * (points.map g).sum

/-- What the slope is divided by. -/
def spread (points : List (ℚ × ℚ)) : ℚ := codeviation (·.1) (·.1) points

/-- What a line leaves over sums to zero, as it is and weighted by the hours. -/
structure IsBalanced (points : List (ℚ × ℚ)) (slope intercept : ℚ) : Prop where
  values : (points.map fun p => p.2 - slope * p.1 - intercept).sum = 0
  hours : (points.map fun p => (p.2 - slope * p.1 - intercept) * p.1).sum = 0

theorem squaredError_nonneg (points : List (ℚ × ℚ)) (slope intercept : ℚ) :
    0 ≤ squaredError points slope intercept :=
  List.sum_nonneg (List.forall_mem_map.2 fun _ _ => sq_nonneg _)

theorem squaredError_flat (points : List (ℚ × ℚ)) :
    squaredError points 0 (mean points) = variation points := by
  simp only [squaredError, variation, zero_mul, sub_zero]

/-- The error of one line from that of another: what the other leaves over meets the difference. -/
theorem squaredError_add (points : List (ℚ × ℚ)) (slope intercept a b : ℚ) :
    squaredError points (slope + a) (intercept + b) =
      squaredError points slope intercept + (points.map fun p => (a * p.1 + b) ^ 2).sum -
        2 * a * (points.map fun p => (p.2 - slope * p.1 - intercept) * p.1).sum -
        2 * b * (points.map fun p => p.2 - slope * p.1 - intercept).sum := by
  unfold squaredError
  induction points with
  | nil => simp
  | cons p rest ih =>
    simp only [List.map_cons, List.sum_cons, ih]
    ring

theorem sum_sq_line (points : List (ℚ × ℚ)) (a b : ℚ) :
    (points.map fun p => (a * p.1 + b) ^ 2).sum =
      a ^ 2 * (points.map fun p => p.1 * p.1).sum + 2 * a * b * (points.map (·.1)).sum +
        b ^ 2 * points.length := by
  induction points with
  | nil => simp
  | cons p rest ih =>
    simp only [List.map_cons, List.sum_cons, List.length_cons, ih]
    push_cast
    ring

/-- Over hours that spread only the line zero is zero at every point. -/
theorem sum_sq_line_pos (hspread : 0 < spread points) {a b : ℚ} (h : a ≠ 0 ∨ b ≠ 0) :
    0 < (points.map fun p => (a * p.1 + b) ^ 2).sum := by
  have hne : points ≠ [] := by
    rintro rfl
    simp [spread, codeviation] at hspread
  have hn : (0 : ℚ) < points.length := by exact_mod_cast List.length_pos_of_ne_nil hne
  have hsum := sum_sq_line points a b
  rw [spread, codeviation] at hspread
  generalize (points.map fun p => (a * p.1 + b) ^ 2).sum = total at hsum
  generalize (points.map fun p => p.1 * p.1).sum = sxx at hspread hsum
  generalize (points.map (·.1)).sum = sx at hspread hsum
  have hscaled : points.length * total =
      (a * sx + b * points.length) ^ 2 + a ^ 2 * (points.length * sxx - sx * sx) := by
    rw [hsum]
    ring
  refine pos_of_mul_pos_right (a := (points.length : ℚ)) ?_ hn.le
  rw [hscaled]
  by_cases ha : a = 0
  · have hb : b ≠ 0 := h.resolve_left fun hne => hne ha
    simp only [ha, zero_mul, zero_add, zero_pow two_ne_zero, add_zero]
    exact sq_pos_of_ne_zero (mul_ne_zero hb hn.ne')
  · exact add_pos_of_nonneg_of_pos (sq_nonneg _) (mul_pos (sq_pos_of_ne_zero ha) hspread)

/-- Any line is off by as much as a balanced one, and by its difference from that. -/
theorem IsBalanced.squaredError_eq (h : IsBalanced points slope intercept) (slope' intercept' : ℚ) :
    squaredError points slope' intercept' = squaredError points slope intercept +
      (points.map fun p => ((slope' - slope) * p.1 + (intercept' - intercept)) ^ 2).sum := by
  have hsum := squaredError_add points slope intercept (slope' - slope) (intercept' - intercept)
  rwa [h.values, h.hours, add_sub_cancel, add_sub_cancel, mul_zero, mul_zero, sub_zero, sub_zero] at hsum

theorem IsBalanced.squaredError_le (h : IsBalanced points slope intercept) (slope' intercept' : ℚ) :
    squaredError points slope intercept ≤ squaredError points slope' intercept' := by
  rw [h.squaredError_eq slope' intercept']
  exact le_add_of_nonneg_right (List.sum_nonneg (List.forall_mem_map.2 fun _ _ => sq_nonneg _))

/-- A balanced line over hours that spread is the only one of least error. -/
theorem IsBalanced.squaredError_lt (h : IsBalanced points slope intercept) (hspread : 0 < spread points)
    {slope' intercept' : ℚ} (hne : (slope', intercept') ≠ (slope, intercept)) :
    squaredError points slope intercept < squaredError points slope' intercept' := by
  have hdiffer : slope' - slope ≠ 0 ∨ intercept' - intercept ≠ 0 := by
    rw [sub_ne_zero, sub_ne_zero]
    by_contra hsame
    rw [not_or, not_not, not_not] at hsame
    exact hne (Prod.ext hsame.1 hsame.2)
  rw [h.squaredError_eq slope' intercept']
  exact lt_add_of_pos_right _ (sum_sq_line_pos hspread hdiffer)

/-! ### The closed form -/

theorem total_eq (xs : List ℚ) : total xs = xs.sum := List.sum_eq_foldl.symm

theorem isNegligible_iff (x : ℚ) : isNegligible x = true ↔ |x| < 1 / 2 ^ 52 := by
  have habs : x.abs = |x| := by
    unfold Rat.abs
    split
    next h => exact (abs_of_nonneg h).symm
    next h => exact (abs_of_neg (not_le.1 h)).symm
  change x.abs < mkRat 1 0x10000000000000 ↔ _
  rw [habs, Rat.mkRat_eq_div]
  norm_num

theorem toUnit_eq {x : ℚ} (h0 : 0 ≤ x) (h1 : x ≤ 1) : toUnit x = x := by
  change (if x < 0 then 0 else if 1 < x then 1 else x) = x
  rw [if_neg (not_lt.2 h0), if_neg (not_lt.2 h1)]

/-- How steeply the values rise with the hours, times the spread of the hours. -/
def rise (points : List (ℚ × ℚ)) : ℚ := codeviation (·.1) (·.2) points

theorem coefficients_eq (points : List (ℚ × ℚ)) :
    coefficients points =
      if isNegligible (spread points) then (0, mean points)
      else (rise points / spread points, ((points.map (·.2)).sum -
        rise points / spread points * (points.map (·.1)).sum) / points.length) := by
  simp only [rise, spread, codeviation, mean, ← total_eq]
  rfl

theorem explained_eq (points : List (ℚ × ℚ)) (slope intercept : ℚ) :
    explained points slope intercept =
      if isNegligible (variation points) then 0
      else toUnit (1 - squaredError points slope intercept / variation points) := by
  simp only [variation, squaredError, mean, sub_sub, sq, ← total_eq]
  rfl

theorem sum_residuals (points : List (ℚ × ℚ)) (slope intercept : ℚ) :
    (points.map fun p => p.2 - slope * p.1 - intercept).sum =
      (points.map (·.2)).sum - slope * (points.map (·.1)).sum - intercept * points.length := by
  induction points with
  | nil => simp
  | cons p rest ih =>
    simp only [List.map_cons, List.sum_cons, List.length_cons, ih]
    push_cast
    ring

theorem sum_residuals_by_hours (points : List (ℚ × ℚ)) (slope intercept : ℚ) :
    (points.map fun p => (p.2 - slope * p.1 - intercept) * p.1).sum =
      (points.map fun p => p.1 * p.2).sum - slope * (points.map fun p => p.1 * p.1).sum -
        intercept * (points.map (·.1)).sum := by
  induction points with
  | nil => simp
  | cons p rest ih =>
    simp only [List.map_cons, List.sum_cons, ih]
    ring

theorem isBalanced_closedForm (hspread : spread points ≠ 0) :
    IsBalanced points (rise points / spread points) (((points.map (·.2)).sum -
      rise points / spread points * (points.map (·.1)).sum) / points.length) := by
  have hn : (points.length : ℚ) ≠ 0 := by
    rintro hzero
    obtain rfl : points = [] := List.length_eq_zero_iff.1 (by exact_mod_cast hzero)
    simp [spread, codeviation] at hspread
  have hslope : rise points / spread points * spread points = rise points :=
    div_mul_cancel₀ _ hspread
  generalize rise points / spread points = slope at hslope
  rw [rise, spread, codeviation, codeviation] at hslope
  constructor
  · rw [sum_residuals, div_mul_cancel₀ _ hn, sub_self]
  · rw [sum_residuals_by_hours]
    generalize (points.map fun p => p.1 * p.1).sum = sxx at hslope ⊢
    field_simp
    linarith

theorem through_of_negligible (hne : points ≠ []) (h : isNegligible (spread points) = true) :
    (through points).slope = 0 ∧ (through points).intercept = mean points := by
  rw [through_eq hne, coefficients_eq, if_pos h]
  exact ⟨rfl, rfl⟩

theorem isBalanced_through (h : isNegligible (spread points) = false) :
    IsBalanced points (through points).slope (through points).intercept := by
  have hspread : spread points ≠ 0 := by
    intro hzero
    rw [hzero, ← Bool.not_eq_true, isNegligible_iff] at h
    norm_num at h
  have hne : points ≠ [] := by
    rintro rfl
    simp [spread, codeviation] at hspread
  rw [through_eq hne, coefficients_eq, if_neg (by rw [h]; exact Bool.false_ne_true)]
  exact isBalanced_closedForm hspread

/-! ### What the line explains -/

/-- The fitted line comes as near to the points as the flat one at least. -/
theorem squaredError_le_variation (hne : points ≠ []) :
    squaredError points (through points).slope (through points).intercept ≤ variation points := by
  cases hspread : isNegligible (spread points) with
  | true =>
    obtain ⟨hslope, hintercept⟩ := through_of_negligible hne hspread
    rw [hslope, hintercept, squaredError_flat]
  | false =>
    rw [← squaredError_flat]
    exact (isBalanced_through hspread).squaredError_le 0 (mean points)

/-- Where the values vary, the part of it that the line explains is between none and all, before it is
kept there. -/
theorem fit_through (hne : points ≠ []) (hvary : 1 / 2 ^ 52 ≤ variation points) :
    0 ≤ (through points).fit ∧ (through points).fit ≤ 1 ∧ (through points).fit =
      1 - squaredError points (through points).slope (through points).intercept / variation points := by
  have hpos : 0 < variation points := lt_of_lt_of_le (by norm_num) hvary
  have hlarge : ¬ isNegligible (variation points) = true := by
    rw [isNegligible_iff, abs_of_pos hpos]
    exact not_lt.2 hvary
  have hle := squaredError_le_variation hne
  have hleft := div_nonneg (squaredError_nonneg points (through points).slope (through points).intercept)
    hpos.le
  have hall := (div_le_one hpos).2 hle
  have hfit : (through points).fit =
      1 - squaredError points (through points).slope (through points).intercept / variation points := by
    rw [through_eq hne] at hleft hall ⊢
    rw [explained_eq, if_neg hlarge, toUnit_eq (sub_nonneg.2 hall) (sub_le_self 1 hleft)]
  rw [hfit]
  exact ⟨sub_nonneg.2 hall, sub_le_self 1 hleft, rfl⟩

/-! ### Hours of samples -/

variable {samples : List Sample}

/-- The samples all have one offset from the first, in whole milliseconds. -/
def AtOnce (samples : List Sample) : Prop :=
  ∀ first ∈ samples.head?, ∀ s ∈ samples, ∀ u ∈ samples,
    s.time.millisSince first.time = u.time.millisSince first.time

variable (read : Sample → ℚ) (first : Sample) (rest : List Sample)

theorem atOnce_iff : AtOnce (first :: rest) ↔
    ∀ s ∈ first :: rest, s.time.millisSince first.time = 0 := by
  simp only [AtOnce, List.head?_cons, Option.mem_some_iff, forall_eq']
  constructor
  · intro h s hs
    rw [h s hs first List.mem_cons_self, Instant.millisSince_self]
  · intro h s hs u hu
    rw [h s hs, h u hu]

theorem hours_cons : hours read (first :: rest) = (first :: rest).map fun s =>
    ((s.time.millisSince first.time : ℚ) / 3600000, read s) := rfl

theorem mean_hours : mean (hours read (first :: rest)) =
    ((first :: rest).map read).sum / (first :: rest).length := by
  rw [mean, hours_cons, List.map_map, List.length_map]
  rfl

theorem spread_hours : spread (hours read (first :: rest)) =
    (first :: rest).length * ((first :: rest).map fun s =>
      (s.time.millisSince first.time : ℚ) / 3600000 *
        ((s.time.millisSince first.time : ℚ) / 3600000)).sum -
    ((first :: rest).map fun s => (s.time.millisSince first.time : ℚ) / 3600000).sum *
      ((first :: rest).map fun s => (s.time.millisSince first.time : ℚ) / 3600000).sum := by
  rw [hours_cons, spread, codeviation, List.length_map, List.map_map, List.map_map]
  rfl

theorem spread_of_atOnce (h : AtOnce (first :: rest)) : spread (hours read (first :: rest)) = 0 := by
  rw [atOnce_iff] at h
  have hzero : ∀ s ∈ first :: rest, (s.time.millisSince first.time : ℚ) / 3600000 = 0 := by
    intro s hs
    rw [h s hs, Int.cast_zero, zero_div]
  rw [spread_hours, List.map_congr_left hzero,
    List.map_congr_left fun s hs => by rw [hzero s hs, mul_zero]]
  simp

/-- One sample apart from the first spreads the hours by the square of a millisecond. -/
theorem le_spread (h : ¬ AtOnce (first :: rest)) :
    1 / 3600000 ^ 2 ≤ spread (hours read (first :: rest)) := by
  simp only [atOnce_iff, not_forall] at h
  obtain ⟨s, hs, hne⟩ := h
  have hfirst : (first.time.millisSince first.time : ℚ) / 3600000 = 0 := by
    rw [Instant.millisSince_self, Int.cast_zero, zero_div]
  have hspread := squares_le_spread
    (fun s : Sample => (s.time.millisSince first.time : ℚ) / 3600000) hfirst rest
  have hsingle : (s.time.millisSince first.time : ℚ) / 3600000 *
      ((s.time.millisSince first.time : ℚ) / 3600000) ≤
        ((first :: rest).map fun s => (s.time.millisSince first.time : ℚ) / 3600000 *
          ((s.time.millisSince first.time : ℚ) / 3600000)).sum :=
    List.single_le_sum (List.forall_mem_map.2 fun _ _ => mul_self_nonneg _) _ (List.mem_map_of_mem hs)
  have hone : (1 : ℚ) ≤ s.time.millisSince first.time * s.time.millisSince first.time := by
    exact_mod_cast Int.add_one_le_of_lt (mul_self_pos.2 hne)
  rw [spread_hours]
  calc (1 : ℚ) / 3600000 ^ 2
      ≤ s.time.millisSince first.time * s.time.millisSince first.time / 3600000 ^ 2 := by gcongr
    _ = (s.time.millisSince first.time : ℚ) / 3600000 *
        ((s.time.millisSince first.time : ℚ) / 3600000) := by ring
    _ ≤ _ := hsingle.trans hspread

/-- The spread counts as nothing for samples at once only. -/
theorem isNegligible_spread_iff :
    isNegligible (spread (hours read (first :: rest))) = true ↔ AtOnce (first :: rest) := by
  rw [isNegligible_iff]
  constructor
  · intro hsmall
    by_contra hapart
    have hlarge := le_spread read first rest hapart
    have hepsilon : (1 : ℚ) / 2 ^ 52 < 1 / 3600000 ^ 2 := by norm_num
    linarith [le_abs_self (spread (hours read (first :: rest)))]
  · intro honce
    rw [spread_of_atOnce read first rest honce]
    norm_num

/-- In rationals the line through the hours of some samples is the line of least squared error. The spread
of the hours counts as nothing exactly where the samples are at once, and then the line is flat through the
mean. Else what it leaves over sums to zero, as it is and by the hours, and every other line has a greater
error. Either way, where the values vary, the part of this that it explains is between none and all
without being kept there. -/
theorem through_leastSquares (read : Sample → ℚ) (samples : List Sample) (hne : samples ≠ []) :
    let points := hours read samples
    let line := through points
    (isNegligible (spread points) = true ↔ AtOnce samples) ∧
      (AtOnce samples → line.slope = 0 ∧ line.intercept = (samples.map read).sum / samples.length) ∧
      (¬ AtOnce samples → IsBalanced points line.slope line.intercept ∧
        ∀ slope intercept, (slope, intercept) ≠ (line.slope, line.intercept) →
          squaredError points line.slope line.intercept < squaredError points slope intercept) ∧
      (1 / 2 ^ 52 ≤ variation points →
        0 ≤ 1 - squaredError points line.slope line.intercept / variation points ∧
          1 - squaredError points line.slope line.intercept / variation points ≤ 1 ∧
          line.fit = 1 - squaredError points line.slope line.intercept / variation points) := by
  intro points line
  obtain ⟨first, rest, rfl⟩ := List.exists_cons_of_ne_nil hne
  have hpoints : points ≠ [] := List.cons_ne_nil _ _
  have honce : isNegligible (spread points) = true ↔ AtOnce (first :: rest) :=
    isNegligible_spread_iff read first rest
  refine ⟨honce, fun h => ?_, fun h => ?_, fun h => ?_⟩
  · rw [← mean_hours]
    exact through_of_negligible hpoints (honce.2 h)
  · have hbalanced := isBalanced_through (Bool.eq_false_iff.2 (mt honce.1 h))
    have hspread : 0 < spread points := lt_of_lt_of_le (by norm_num) (le_spread read first rest h)
    exact ⟨hbalanced, fun slope intercept hother => hbalanced.squaredError_lt hspread hother⟩
  · obtain ⟨hzero, hone, hfit⟩ := fit_through hpoints h
    rw [← hfit]
    exact ⟨hzero, hone, rfl⟩

/-- Three samples an hour apart. -/
def scatteredSamples : List Sample :=
  [10.0, 30.0, 20.0].mapIdx fun i v => ⟨(Instant.ofMillis? (3600000 * i)).get!, v⟩

/-- Two samples within a millisecond. -/
def hastySamples : List Sample :=
  [10.0, 30.0].mapIdx fun i v => ⟨(Instant.ofLinear? (400000 * i)).get!, v⟩

/-- The value as an exact number, where it is a whole one. -/
def wholeValue (s : Sample) : ℚ := Binary64.truncate s.value

theorem through_leastSquares_scattered :
    (AtOnce hastySamples ∧ (through (hours wholeValue hastySamples)).slope = 0 ∧
      (through (hours wholeValue hastySamples)).intercept = 20) ∧
    (¬ AtOnce scatteredSamples ∧ IsBalanced (hours wholeValue scatteredSamples) 5 15 ∧
      squaredError (hours wholeValue scatteredSamples) 5 15 <
        squaredError (hours wholeValue scatteredSamples) 0 20) ∧
    1 / 2 ^ 52 ≤ variation (hours wholeValue scatteredSamples) ∧
      (through (hours wholeValue scatteredSamples)).fit = 1 / 4 := by
  have honce : AtOnce hastySamples := (atOnce_iff _ _).2 (by decide)
  have hapart : ¬ AtOnce scatteredSamples := mt (atOnce_iff _ _).1 (by decide)
  have hmean : (hastySamples.map wholeValue).sum / hastySamples.length = 20 := by decide +kernel
  have hslope : (through (hours wholeValue scatteredSamples)).slope = 5 := by decide +kernel
  have hintercept : (through (hours wholeValue scatteredSamples)).intercept = 15 := by decide +kernel
  have hvary : 1 / 2 ^ 52 ≤ variation (hours wholeValue scatteredSamples) := by decide +kernel
  have hpart : 1 - squaredError (hours wholeValue scatteredSamples) 5 15 /
    variation (hours wholeValue scatteredSamples) = 1 / 4 := by decide +kernel
  obtain ⟨_, hflat, _, _⟩ := through_leastSquares wholeValue hastySamples (List.cons_ne_nil _ _)
  obtain ⟨_, _, hleast, hfit⟩ := through_leastSquares wholeValue scatteredSamples (List.cons_ne_nil _ _)
  rw [hslope, hintercept] at hleast hfit
  obtain ⟨hbalanced, hother⟩ := hleast hapart
  exact ⟨⟨honce, (hflat honce).1, (hflat honce).2.trans hmean⟩,
    ⟨hapart, hbalanced, hother 0 20 (by decide)⟩, hvary, (hfit hvary).2.2.trans hpart⟩

end FleetHealth.Capacity.LeastSquares
