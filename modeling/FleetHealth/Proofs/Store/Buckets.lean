import FleetHealth.Proofs.Binary64.Finite
import FleetHealth.Proofs.Index.Filled
import FleetHealth.Proofs.Instant.Shift
import FleetHealth.Proofs.Words

/-!
# Samples grouped in buckets

The loop over the samples leaves under each start the sum and the number of the finite samples of its
bucket, in the order given. So the averages are told by the buckets alone: what is not finite does not
count, nor does the order of samples of different buckets.
-/
namespace FleetHealth

namespace Instant

/-- Whether the instant is a number of whole milliseconds from the epoch, outside leap seconds. -/
def IsAt (t : Instant) (ms : Int) : Prop := t.linear = ms * 1000000 ∧ t.nano < 1000000000

theorem isAt_of_ofMillis? {ms : Int} {t : Instant} (h : ofMillis? ms = some t) : t.IsAt ms :=
  of_ofLinear? h

theorem IsAt.millis_eq {ms : Int} {t : Instant} (h : t.IsAt ms) : t.millis = ms := by
  obtain ⟨hlinear, hnano⟩ := h
  rw [linear, nanosPerSecond] at hlinear
  rw [millis]
  omega

theorem IsAt.le {ms ms' : Int} {t u : Instant} (ht : t.IsAt ms) (hu : u.IsAt ms') (h : ms ≤ ms') :
    t ≤ u := by
  obtain ⟨hlinear, hnano⟩ := ht
  obtain ⟨hlinear', hnano'⟩ := hu
  rw [linear, nanosPerSecond] at hlinear hlinear'
  rw [le_iff]
  omega

theorem IsAt.lt {ms ms' : Int} {t u : Instant} (ht : t.IsAt ms) (hu : u.IsAt ms') (h : ms < ms') :
    t < u := by
  refine lt_iff_le_and_ne.2 ⟨ht.le hu h.le, ?_⟩
  rintro rfl
  exact h.ne (ht.millis_eq.symm.trans hu.millis_eq)

theorem IsAt.unique {ms : Int} {t u : Instant} (ht : t.IsAt ms) (hu : u.IsAt ms) : t = u :=
  le_antisymm (ht.le hu le_rfl) (hu.le ht le_rfl)

theorem ofMillis?_isSome_iff (ms : Int) : (ofMillis? ms).isSome ↔
    firstSecond * 1000 ≤ ms ∧ ms < (lastSecond + 1) * 1000 := by
  rw [ofMillis?, ofLinear?_isSome_iff, nanosPerSecond, firstSecond, lastSecond]
  omega

end Instant

namespace Buckets

open Binary64

variable {width : Int} {samples samples' : List Sample}

theorem finite_finite (samples : List Sample) :
    Series.finite (Series.finite samples) = Series.finite samples := by
  simp only [Series.finite, List.filter_filter, Bool.and_self]

/-- The finite samples of the bucket with a start, in the order given. -/
def members (width : Int) (samples : List Sample) (key : Int) : List Sample :=
  (Series.finite samples).filter fun s => start width s = key

/-- The sum of the values, in the order given, over their number. -/
def mean (samples : List Sample) : Float :=
  sumFrom 0.0 (samples.map (·.value)) / Float.ofNat samples.length

/-- Sum and number of some samples, if there are any. -/
def tallied (samples : List Sample) : Option (Float × Nat) :=
  if samples = [] then none else some (sumFrom 0.0 (samples.map (·.value)), samples.length)

/-- One sample more is added to the sum and counted. -/
theorem tallied_concat (samples : List Sample) (s : Sample) :
    tallied (samples ++ [s]) = some (tally s.value (tallied samples)) := by
  rw [tallied, if_neg (List.append_ne_nil_of_right_ne_nil _ (List.cons_ne_nil s [])), List.map_append,
    List.map_singleton, sumFrom_concat, List.length_append, List.length_singleton]
  by_cases h : samples = []
  · rw [h]
    rfl
  · rw [tallied, if_neg h]
    rfl

theorem foldl_tally (samples : List Sample) :
    samples.foldl (fun v s => some (tally s.value v)) none = tallied samples := by
  induction samples using List.reverseRecOn with
  | nil => rfl
  | append_singleton samples s ih =>
    rw [List.foldl_append, ih, tallied_concat]
    rfl

/-- The loop leaves under each start what its samples add up to. -/
theorem get?_group (width : Int) (samples : List Sample) (key : Int) :
    (group width samples).get? key = tallied (members width samples key) := by
  rw [group, Index.get?_foldl_alter (start width) fun s => tally s.value, foldl_tally, members]

/-- The averages are told by the buckets. -/
theorem average_congr (h : ∀ key, members width samples key = members width samples' key) :
    average width samples = average width samples' := by
  have hgroup : group width samples = group width samples' :=
    Index.ext_get? fun key => by rw [get?_group, get?_group, h]
  rw [average, average, hgroup]

/-- Sum and number stand under the starts of the buckets that have samples. -/
theorem mem_entries_group {key : Int} {sum : Float} {n : Nat} :
    (key, sum, n) ∈ (group width samples).entries ↔ members width samples key ≠ [] ∧
      sum = sumFrom 0.0 ((members width samples key).map (·.value)) ∧
      n = (members width samples key).length := by
  rw [← Index.get?_eq_some_iff, get?_group, tallied]
  split
  next h => exact iff_of_false nofun fun hc => hc.1 h
  next h =>
    rw [Option.some.injEq, Prod.mk.injEq]
    exact ⟨fun he => ⟨h, he.1.symm, he.2.symm⟩, fun he => ⟨he.2.1.symm, he.2.2.symm⟩⟩

/-- There is an average for each bucket that has samples and starts in the calendar. -/
theorem mem_average {s : Sample} : s ∈ average width samples ↔
    ∃ key, Instant.ofMillis? key = some s.time ∧ members width samples key ≠ [] ∧
      s.value = mean (members width samples key) := by
  rw [average, averages, List.mem_filterMap]
  constructor
  · rintro ⟨⟨key, sum, n⟩, hmem, hs⟩
    obtain ⟨hne, rfl, rfl⟩ := mem_entries_group.1 hmem
    obtain ⟨time, htime, rfl⟩ := Option.map_eq_some_iff.1 hs
    exact ⟨key, htime, hne, rfl⟩
  · rintro ⟨key, htime, hne, hvalue⟩
    refine ⟨(key, _, _), mem_entries_group.2 ⟨hne, rfl, rfl⟩, Option.map_eq_some_iff.2 ⟨s.time, htime, ?_⟩⟩
    rw [← mean, ← hvalue]

/-- The averages are in time order, one for each instant. -/
theorem average_ascending (width : Int) (samples : List Sample) :
    ((average width samples).map (·.time)).Pairwise (· < ·) := by
  rw [List.pairwise_map]
  refine (group width samples).ascending.filterMap _ fun e e' hlt s hs s' hs' => ?_
  obtain ⟨time, htime, rfl⟩ := Option.map_eq_some_iff.1 hs
  obtain ⟨time', htime', rfl⟩ := Option.map_eq_some_iff.1 hs'
  exact (Instant.isAt_of_ofMillis? htime).lt (Instant.isAt_of_ofMillis? htime')
    (Int.compare_eq_lt.1 hlt)

theorem quotient_fits (hw : 0 < width) (s : Sample) : FitsWord (s.time.millis / width) := by
  have hb := s.time.millis_bounds
  have hlow : -10000000000000000 ≤ s.time.millis / width := by
    rw [Int.le_ediv_iff_mul_le hw]
    nlinarith
  have hhigh : s.time.millis / width < 10000000000000001 := by
    refine Int.ediv_lt_of_lt_mul hw ?_
    nlinarith
  rw [FitsWord]
  omega

theorem wordWidth_of_fits {milliseconds : Nat} (h : 1 ≤ milliseconds) (hw : milliseconds < 2 ^ 63) :
    wordWidth milliseconds = milliseconds := by
  have hs : 0 < UInt64.size := Nat.two_pow_pos 64
  rw [wordWidth_eq_bmod h, Int.bmod_eq_iff hs, UInt64.size]
  omega

theorem divides_of_ne_zero (h : width ≠ 0) (samples : List Sample) : divides width samples = true := by
  rw [divides, Bool.or_eq_true, bne_iff_ne]
  exact .inl h

theorem bucketize_of_ne_zero {milliseconds : Nat} (h : wordWidth milliseconds ≠ 0)
    (samples : List Sample) :
    bucketize milliseconds samples = .ok (average (wordWidth milliseconds) samples) := by
  simp only [bucketize, divides_of_ne_zero h, if_true]

/-- Samples grouped by the start of their bucket, the greatest multiple of the width that is not after
them. -/
structure IsGrouping (width : Nat) (samples out : List Sample) : Prop where
  ascending : (out.map (·.time)).Pairwise (· < ·)
  of_bucket : ∀ s ∈ out, ∃ key : Int, s.time.IsAt key ∧ (width : Int) ∣ key ∧
    members width samples key ≠ [] ∧ s.value = mean (members width samples key)
  exists_unique : ∀ x ∈ Series.finite samples,
    firstSecond * 1000 ≤ start width x → start width x < (lastSecond + 1) * 1000 →
      ∃! s, s ∈ out ∧ s.time.IsAt (start width x)
  within : ∀ x ∈ Series.finite samples,
    start width x ≤ x.time.millis ∧ x.time.millis < start width x + width

theorem isGrouping_average {w : Nat} (hw : 1 ≤ w) (samples : List Sample) :
    IsGrouping w samples (average w samples) where
  ascending := average_ascending w samples
  of_bucket s hs := by
    obtain ⟨key, htime, hne, hvalue⟩ := mem_average.1 hs
    obtain ⟨x, hx⟩ := List.exists_mem_of_ne_nil _ hne
    have hkey : start w x = key := of_decide_eq_true (List.mem_filter.1 hx).2
    exact ⟨key, Instant.isAt_of_ofMillis? htime, hkey ▸ Int.dvd_mul_left .., hne, hvalue⟩
  exists_unique x hx hfirst hlast := by
    obtain ⟨time, htime⟩ := Option.isSome_iff_exists.1 ((Instant.ofMillis?_isSome_iff _).2 ⟨hfirst, hlast⟩)
    have hmember : x ∈ members w samples (start w x) := List.mem_filter.2 ⟨hx, decide_eq_true rfl⟩
    have hat := Instant.isAt_of_ofMillis? htime
    refine ⟨⟨time, mean (members w samples (start w x))⟩,
      ⟨mem_average.2 ⟨_, htime, List.ne_nil_of_mem hmember, rfl⟩, hat⟩, fun s ⟨hs, hsat⟩ => ?_⟩
    obtain ⟨key, hstime, _, hvalue⟩ := mem_average.1 hs
    obtain rfl : key = start w x := (Instant.isAt_of_ofMillis? hstime).millis_eq.symm.trans hsat.millis_eq
    obtain rfl : s.time = time := hsat.unique hat
    rw [← hvalue]
  within x _ := start_le (by omega) x

/-- For every width that fits a word, averages are a grouping of the finite samples: no step leaves the
word, and only what is in each bucket, in its order, counts. -/
theorem bucketize_groups (w : Nat) (hw : 1 ≤ w) (hfits : w < 2 ^ 63) (samples : List Sample) :
    (wordWidth w = w ∧ ∀ x ∈ Series.finite samples, FitsWord x.time.millis ∧
      FitsWord (x.time.millis / w) ∧ FitsWord (start w x)) ∧
    (∃ out, bucketize w samples = .ok out ∧ IsGrouping w samples out) ∧
    bucketize w (Series.finite samples) = bucketize w samples ∧
    ∀ samples', (∀ key, members w samples' key = members w samples key) →
      bucketize w samples' = bucketize w samples := by
  have hwidth := wordWidth_of_fits hw hfits
  have hpos : (0 : Int) < w := by omega
  have hword : FitsWord w := by
    rw [FitsWord]
    omega
  have hout (samples : List Sample) : bucketize w samples = .ok (average w samples) := by
    rw [bucketize_of_ne_zero (by omega), hwidth]
  have hcongr (samples' : List Sample) (h : ∀ key, members w samples' key = members w samples key) :
      bucketize w samples' = bucketize w samples := by
    rw [hout, hout, average_congr h]
  refine ⟨⟨hwidth, fun x _ => ⟨x.time.millis_fits, quotient_fits hpos x, start_fits hpos hword x⟩⟩,
    ⟨_, hout samples, isGrouping_average hw samples⟩, hcongr _ fun key => ?_, hcongr⟩
  rw [members, finite_finite, members]

/-- Samples before and after the epoch, in no order. One is no number, and one is in a bucket that starts
before the calendar does. -/
def scattered : List Sample :=
  [⟨⟨-2, 600000000, by decide⟩, 1.0⟩, ⟨.first, 5.0⟩, ⟨.epoch, nan⟩, ⟨⟨-2, 500000000, by decide⟩, 3.0⟩,
    ⟨⟨0, 200000000, by decide⟩, 4.0⟩]

theorem bucketize_groups_scattered :
    1 ≤ 1300 ∧ 1300 < 2 ^ 63 ∧ ∃ out, bucketize 1300 scattered = .ok out ∧
      IsGrouping 1300 scattered out ∧
      (out.map fun s => (s.time.millis, s.value)) = [(-2600, 2.0), (0, 4.0)] := by
  obtain ⟨⟨hwidth, _⟩, ⟨out, hout, hgrouping⟩, _⟩ :=
    bucketize_groups 1300 (by norm_num) (by norm_num) scattered
  refine ⟨by norm_num, by norm_num, out, hout, hgrouping, ?_⟩
  rw [bucketize_of_ne_zero (by rw [hwidth]; decide), hwidth, Except.ok.injEq] at hout
  rw [← hout]
  decide +kernel

end Buckets

end FleetHealth
