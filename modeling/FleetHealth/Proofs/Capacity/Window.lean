import FleetHealth.Proofs.Binary64.Decimals
import FleetHealth.Proofs.Capacity.Eligibility
import FleetHealth.Proofs.Instant.Shift

/-!
# The window of a forecast

Of its samples a forecast takes in one window: the finite ones in time order, samples of one instant as
they were given, from the instant on that lies the lookback before the newest. The order of instants
in the list, samples that are not finite and samples before the window make no difference.
-/
namespace FleetHealth

/-- The second list is the first with further items of a kind, put in anywhere. -/
inductive Series.Inserts {α : Type} (p : α → Prop) : List α → List α → Prop
  | nil : Inserts p [] []
  | keep {a : α} {l l' : List α} : Inserts p l l' → Inserts p (a :: l) (a :: l')
  | insert {a : α} {l l' : List α} : p a → Inserts p l l' → Inserts p l (a :: l')

namespace Series.Inserts

variable {α : Type} {p : α → Prop} {l l' : List α}

theorem refl (l : List α) : Inserts p l l := by
  induction l with
  | nil => exact .nil
  | cons a l ih => exact .keep ih

theorem sublist (h : Inserts p l l') : l.Sublist l' := by
  induction h with
  | nil => exact .slnil
  | keep _ ih => exact ih.cons_cons _
  | insert _ _ ih => exact ih.cons _

theorem mem (h : Inserts p l l') {a : α} (ha : a ∈ l') : a ∈ l ∨ p a := by
  induction h with
  | nil => cases ha
  | keep _ ih =>
    rcases List.mem_cons.1 ha with rfl | ha
    · exact .inl List.mem_cons_self
    · exact (ih ha).imp (List.mem_cons_of_mem _) id
  | insert hp _ ih =>
    rcases List.mem_cons.1 ha with rfl | ha
    · exact .inr hp
    · exact ih ha

/-- A filter that the further items do not pass leaves what it leaves of the list. -/
theorem filter_eq (h : Inserts p l l') {q : α → Bool} (hq : ∀ a, p a → q a = false) :
    l'.filter q = l.filter q := by
  induction h with
  | nil => rfl
  | keep _ ih => rw [List.filter_cons, List.filter_cons, ih]
  | insert hp _ ih => simp [hq _ hp, ih]

end Series.Inserts

namespace Capacity.Forecaster

/-! ### Hours in milliseconds -/

/-- Hours in whole milliseconds, toward zero. -/
def millis (hours : Float) : Int := Binary64.truncate (hours * 3600000.0)

/-- Hours that make no finite number of milliseconds lead out of the calendar. -/
theorem bind_hoursToMillis? (t : Instant) (hours : Float) (unit : Int) (hunit : unit.natAbs = 1000000) :
    (hoursToMillis? hours).bind (fun ms => t.shift? (ms * unit)) = t.shift? (millis hours * unit) := by
  unfold hoursToMillis? millis
  by_cases hfinite : (hours * 3600000.0).isFinite = true
  · simp [hfinite]
  · have hlarge := Binary64.two_pow_le_natAbs_truncate (Bool.not_eq_true _ ▸ hfinite)
    rcases hu : t.shift? (Binary64.truncate (hours * 3600000.0) * unit) with _ | u
    · simp [hfinite]
    · have hfits := Instant.shift?_fits hu
      have habs : ((Binary64.truncate (hours * 3600000.0) * unit).tdiv 1000000).natAbs =
          (Binary64.truncate (hours * 3600000.0)).natAbs := by
        rw [Int.natAbs_tdiv, Int.natAbs_mul, hunit]
        exact Nat.mul_div_cancel _ (by norm_num)
      rw [FitsWord] at hfits
      omega

theorem after?_eq (t : Instant) (hours : Float) :
    after? t hours = t.shift? (millis hours * 1000000) :=
  bind_hoursToMillis? t hours 1000000 rfl

theorem before?_eq (t : Instant) (hours : Float) :
    before? t hours = t.shift? (-(millis hours * 1000000)) := by
  have h := bind_hoursToMillis? t hours (-1000000) rfl
  simp only [Int.mul_neg] at h
  exact h

theorem millis_mono {a b : Float} (ha : a.isFinite = true) (hb : b.isFinite = true) (h : a ≤ b) :
    millis a ≤ millis b := by
  have hunit : (3600000.0 : Float).isFinite = true := by decide
  have hscale : 0 ≤ Binary64.real 3600000.0 := Binary64.real_nonneg (by decide)
  have hreal : Binary64.real a ≤ Binary64.real b :=
    Binary64.real_le_iff.2 (Binary64.le_iff.1 h).2.2
  exact Binary64.truncate_mono ((Binary64.nearest_mul ha hunit).mono
    (Binary64.nearest_mul hb hunit) (mul_le_mul_of_nonneg_right hreal hscale))

theorem millis_nonneg {hours : Float} (hfinite : hours.isFinite = true) (h : 0.0 ≤ hours) :
    0 ≤ millis hours :=
  calc 0 = millis 0.0 := by decide +kernel
    _ ≤ millis hours := millis_mono (by decide) hfinite h

/-! ### The window -/

variable (f : Forecaster) {samples more : List Sample}

/-- The instant of the newest finite sample. -/
def newest? (samples : List Sample) : Option Instant :=
  (Series.newest (Series.finite samples)).getLast?.map Sample.time

/-- Where the window starts, if the calendar reaches back that far. -/
def start? (samples : List Sample) : Option Instant :=
  (newest? samples).bind fun newest => newest.shift? (-(millis f.lookbackHours * 1000000))

/-- The finite samples in time order, from the start of the window on if there is one. -/
def canonicalWindow (samples : List Sample) : List Sample :=
  (Series.sortByTime (Series.finite samples)).filter fun s =>
    (f.start? samples).all fun start => decide (start ≤ s.time)

theorem newest?_eq (samples : List Sample) :
    newest? samples = (ordered samples).getLast?.map Sample.time := by
  rw [newest?, getLast?_ordered]

theorem window_eq_canonicalWindow (samples : List Sample) :
    f.window samples = f.canonicalWindow samples := by
  have hstart : ((ordered samples).getLast?.bind fun newest =>
      before? newest.time f.lookbackHours) = f.start? samples := by
    rw [start?, newest?_eq, Option.bind_map]
    simp only [before?_eq]
    rfl
  rw [window_eq, hstart, canonicalWindow, ← ordered_eq]
  rcases f.start? samples with _ | start
  · simp
  · rfl

/-- Series with the same finite samples in time order have the same window. -/
theorem window_congr (h : ordered samples = ordered more) : f.window samples = f.window more := by
  rw [window_eq, window_eq, h]

theorem ordered_window (samples : List Sample) : ordered (f.window samples) = f.window samples := by
  rw [ordered_of_ascending (f.window_ascending samples)]
  exact List.filter_eq_self.2 fun s hs => f.isFinite_of_mem_window hs

/-- The window of a window is the window, because the newest sample is in it. -/
theorem window_window (samples : List Sample) : f.window (f.window samples) = f.window samples := by
  by_cases hne : f.window samples = []
  · rw [hne]
    exact List.eq_nil_of_length_eq_zero (Nat.le_zero.1 (f.length_window_le []))
  · rw [f.window_eq (f.window samples), ordered_window, f.getLast?_window hne]
    rw [f.window_eq samples]
    split
    next => rfl
    next => simp [Series.since, List.filter_filter]

/-! ### What makes no difference -/

variable {f}

theorem forecast_congr (entity : String) (metric : Metric) (h : f.window samples = f.window more) :
    f.forecast entity metric samples = f.forecast entity metric more := by
  simp only [forecast, h]

theorem newest?_eq_some_iff {t : Instant} : newest? samples = some t ↔
    (∃ s ∈ Series.finite samples, s.time = t) ∧ ∀ s ∈ Series.finite samples, s.time ≤ t := by
  have hmem {s : Sample} : s ∈ Series.newest (Series.finite samples) ↔
      s ∈ Series.finite samples ∧ ∀ u ∈ Series.finite samples, u.time ≤ s.time := by
    simp [Series.newest]
  rw [newest?, Option.map_eq_some_iff]
  constructor
  · rintro ⟨s, hs, rfl⟩
    obtain ⟨hs, hall⟩ := hmem.1 (List.mem_of_getLast? hs)
    exact ⟨⟨s, hs, rfl⟩, hall⟩
  · rintro ⟨⟨s, hs, rfl⟩, hall⟩
    have hne := List.ne_nil_of_mem (hmem.2 ⟨hs, hall⟩)
    obtain ⟨u, hu⟩ := Option.isSome_iff_exists.1 (List.getLast?_isSome.2 hne)
    obtain ⟨hfinite, hnewest⟩ := hmem.1 (List.mem_of_getLast? hu)
    exact ⟨u, hu, Instant.le_antisymm (hall u hfinite) (hnewest s hs)⟩

theorem start_le (hfinite : f.lookbackHours.isFinite = true) (hlookback : 0.0 ≤ f.lookbackHours)
    {start newest : Instant} (hstart : f.start? samples = some start)
    (hnewest : newest? samples = some newest) : start ≤ newest := by
  have hmillis := millis_nonneg hfinite hlookback
  rw [start?, hnewest, Option.bind_some] at hstart
  exact Instant.shift?_mono (by omega) hstart newest.shift?_zero

variable (f samples) in
/-- Whether a sample is of no account next to some others: it is not finite, or before the window. -/
def IsOutside (s : Sample) : Prop :=
  s.value.isFinite = false ∨ ∃ start ∈ f.start? samples, ¬ start ≤ s.time

theorem newest?_of_inserts (hfinite : f.lookbackHours.isFinite = true)
    (hlookback : 0.0 ≤ f.lookbackHours) (h : Series.Inserts (f.IsOutside samples) samples more) :
    newest? more = newest? samples := by
  rcases hnewest : newest? samples with _ | newest
  · -- without a newest sample there is no start, so what is put in is not finite
    have hnone : f.start? samples = none := by simp [start?, hnewest]
    have hsame : Series.finite more = Series.finite samples := by
      refine h.filter_eq fun s hs => ?_
      rcases hs with hs | ⟨start, hstart, _⟩
      · exact hs
      · simp [hnone] at hstart
    rw [newest?, hsame, ← newest?, hnewest]
  · obtain ⟨⟨s, hs, heq⟩, hall⟩ := newest?_eq_some_iff.1 hnewest
    refine newest?_eq_some_iff.2 ⟨⟨s, (h.sublist.filter _).subset hs, heq⟩, fun u hu => ?_⟩
    obtain ⟨hu, hufinite⟩ := List.mem_filter.1 hu
    rcases h.mem hu with hu | hinfinite | ⟨start, hstart, hbefore⟩
    · exact hall u (List.mem_filter.2 ⟨hu, hufinite⟩)
    · rw [Series.isFinite, hinfinite] at hufinite
      cases hufinite
    · exact Instant.le_trans ((Instant.le_total _ _).resolve_left hbefore)
        (start_le hfinite hlookback hstart hnewest)

theorem window_of_inserts (hfinite : f.lookbackHours.isFinite = true)
    (hlookback : 0.0 ≤ f.lookbackHours) (h : Series.Inserts (f.IsOutside samples) samples more) :
    f.window more = f.window samples := by
  have hstart : f.start? more = f.start? samples := by
    rw [start?, newest?_of_inserts hfinite hlookback h, start?]
  simp only [window_eq_canonicalWindow, canonicalWindow, hstart, ← Series.sortByTime_filter,
    Series.finite, List.filter_filter]
  congr 1
  refine h.filter_eq fun s hs => ?_
  rcases hs with hs | ⟨start, hstart, hbefore⟩
  · simp [Series.isFinite, hs]
  · simp [Option.mem_def.1 hstart, hbefore]

/-- Where no two finite samples are of one instant, their order makes no difference. -/
theorem ordered_perm_congr (h : samples.Perm more)
    (hdistinct : ((Series.finite samples).map Sample.time).Nodup) : ordered samples = ordered more := by
  rw [ordered_eq, ordered_eq]
  refine Series.time_order.mergeSort_congr (h.filter _) fun a ha b hb hab hba => ?_
  exact List.inj_on_of_nodup_map hdistinct ha hb
    (Instant.le_antisymm (of_decide_eq_true hab) (of_decide_eq_true hba))

/-- A forecast depends only on the window of its samples, and there is none exactly where the window
holds too few. So it does not change with samples put in that are not finite or before the window, nor
with the order in which samples of different instants are given. -/
theorem forecast_canonical (f : Forecaster) (hfinite : f.lookbackHours.isFinite)
    (hlookback : 0.0 ≤ f.lookbackHours) (entity : String) (metric : Metric) (samples : List Sample) :
    let made := f.forecast entity metric
    let w := f.canonicalWindow samples
    made samples = made w ∧
      (1 ≤ f.minSamples → (made samples = none ↔ w.length < f.minSamples)) ∧
      (∀ more, Series.Inserts (f.IsOutside samples) samples more → made more = made samples) ∧
      (∀ others, samples.Perm others → ((Series.finite samples).map Sample.time).Nodup →
        made others = made samples) ∧
      (∀ others, (∀ t, (Series.finite samples).filter (fun s => s.time = t) =
          (Series.finite others).filter fun s => s.time = t) → made others = made samples) ∧
      f.window samples = w ∧ f.window (f.window samples) = f.window samples := by
  intro made w
  have hw : f.window samples = w := f.window_eq_canonicalWindow samples
  refine ⟨?_, fun hmin => ?_, fun more h => ?_, fun others hp hd => ?_, fun others h => ?_, hw,
    f.window_window samples⟩
  · refine forecast_congr entity metric ?_
    rw [← hw, window_window]
  · rw [← Option.not_isSome_iff_eq_none, forecast_isSome_iff hmin, hw, Nat.not_le]
  · exact forecast_congr entity metric (window_of_inserts hfinite hlookback h)
  · exact forecast_congr entity metric (f.window_congr (ordered_perm_congr hp hd)).symm
  · refine forecast_congr entity metric (f.window_congr ?_).symm
    rw [ordered_eq, ordered_eq, Series.sortByTime_eq h]

/-- A reading that is no number, one from long before, and the other order of the samples leave the
forecast of a rise over five hours as it is. -/
theorem forecast_canonical_fiveHours :
    let made := Forecaster.standard.forecast "web" .cpu
    let samples := FleetForecaster.fiveHours
    made samples ≠ none ∧
      made (⟨.epoch, Binary64.nan⟩ :: ⟨⟨-100000, 0, by decide⟩, 1.0⟩ :: samples) = made samples ∧
      made samples.reverse = made samples := by
  intro made samples
  obtain ⟨_, hnone, hinserts, hperm, _⟩ :=
    forecast_canonical .standard (by decide) (by decide) "web" .cpu samples
  have hstart : Forecaster.standard.start? samples = some ⟨-72000, 0, by decide⟩ := by decide +kernel
  refine ⟨?_, hinserts _ (.insert (.inl (by decide)) (.insert (.inr ⟨_, hstart, by decide⟩) (.refl _))),
    hperm _ samples.reverse_perm.symm (by decide +kernel)⟩
  rw [Ne, hnone (by decide), ← window_eq_canonicalWindow]
  decide +kernel

end Capacity.Forecaster

end FleetHealth
