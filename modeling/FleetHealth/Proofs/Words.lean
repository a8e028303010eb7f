import FleetHealth.Store.Buckets
import Mathlib

/-!
# Numbers that fit a machine word

The calendar is far smaller than a signed word of milliseconds, so instants, their differences and
the starts of their buckets fit one. The width of a bucket fits only if its seconds are few enough.
-/
namespace FleetHealth

def FitsWord (i : Int) : Prop := -2 ^ 63 ≤ i ∧ i < 2 ^ 63

namespace Instant

theorem second_bounds (t : Instant) : -8334601228800 ≤ t.second ∧ t.second ≤ 8210266876799 :=
  ⟨t.valid.1, t.valid.2.1⟩

theorem nano_lt (t : Instant) : t.nano < 2000000000 := by
  rcases t.valid.2.2 with h | h
  · omega
  · exact h.1

theorem millis_bounds (t : Instant) :
    -10000000000000000 ≤ t.millis ∧ t.millis ≤ 10000000000000000 := by
  have hs := t.second_bounds
  have hn := t.nano_lt
  rw [millis]
  omega

theorem millis_fits (t : Instant) : FitsWord t.millis := by
  have h := t.millis_bounds
  rw [FitsWord]
  omega

theorem since_bounds (t u : Instant) :
    -20000000000000 * nanosPerSecond ≤ t.since u ∧ t.since u ≤ 20000000000000 * nanosPerSecond := by
  have ht := t.second_bounds
  have hu := u.second_bounds
  have hn := t.nano_lt
  have hm := u.nano_lt
  simp only [since, nanosPerSecond]
  split
  · omega
  · split <;> omega

theorem millisSince_fits (t u : Instant) : FitsWord (t.millisSince u) := by
  have h := since_bounds t u
  have ha : (t.millisSince u).natAbs = (t.since u).natAbs / 1000000 := Int.natAbs_tdiv _ _
  rw [nanosPerSecond] at h
  rw [FitsWord]
  omega

theorem linear_bounds (t : Instant) :
    -10000000000000 * nanosPerSecond ≤ t.linear ∧ t.linear ≤ 10000000000000 * nanosPerSecond := by
  have hs := t.second_bounds
  have hn := t.nano_lt
  rw [linear, nanosPerSecond]
  omega

theorem ofSecond?_isInstant {second : Int} {nano : Nat} {t : Instant}
    (h : ofSecond? second nano = some t) : IsInstant second nano := by
  by_contra hn
  rw [ofSecond?, dif_neg hn] at h
  cases h

theorem ofLinear?_bounds {nanos : Int} {t : Instant} (h : ofLinear? nanos = some t) :
    -10000000000000 * nanosPerSecond ≤ nanos ∧ nanos ≤ 10000000000000 * nanosPerSecond := by
  obtain ⟨hl, hu, _⟩ := ofSecond?_isInstant h
  rw [firstSecond] at hl
  rw [lastSecond] at hu
  rw [nanosPerSecond] at *
  omega

/-- A move that stays in the calendar is by no more milliseconds than a word holds. -/
theorem shift?_fits {t t' : Instant} {nanos : Int} (h : t.shift? nanos = some t') :
    FitsWord (nanos.tdiv 1000000) := by
  have ha : (nanos.tdiv 1000000).natAbs = nanos.natAbs / 1000000 := Int.natAbs_tdiv _ _
  have hb := t.linear_bounds
  rw [FitsWord]
  simp only [shift?] at h
  split at h
  · split at h
    · have hl := ofLinear?_bounds h
      rw [nanosPerSecond] at *
      omega
    next hforward =>
      split at h
      · have hl := ofLinear?_bounds h
        rw [nanosPerSecond] at *
        omega
      next hback =>
        -- a move that stays within a leap second is shorter than a second
        have hz : (nanos.tdiv nanosPerSecond).natAbs = nanos.natAbs / 1000000000 :=
          Int.natAbs_tdiv _ _
        omega
  · have hl := ofLinear?_bounds h
    rw [nanosPerSecond] at *
    omega

end Instant

namespace Buckets

/-- The bucket of a sample: its start is not after the sample, and its end is. -/
theorem start_le {width : Int} (hw : 0 < width) (s : Sample) :
    start width s ≤ s.time.millis ∧ s.time.millis < start width s + width := by
  have hle := Int.ediv_mul_le s.time.millis hw.ne'
  have hlt := Int.lt_ediv_add_one_mul_self s.time.millis hw
  rw [Int.add_mul, Int.one_mul] at hlt
  exact ⟨hle, hlt⟩

/-- The start of a bucket that begins before the epoch is no further off than a width. -/
theorem start_fits {width : Int} (hw : 0 < width) (hf : FitsWord width) (s : Sample) :
    FitsWord (start width s) := by
  have hm := s.time.millis_fits
  have hb := s.time.millis_bounds
  obtain ⟨hle, hlt⟩ := start_le hw s
  rw [FitsWord] at *
  rw [start] at *
  -- a wide bucket starts within a width of the epoch, a narrow one within a width of its sample
  by_cases hn : -width ≤ s.time.millis
  · have hq : -1 ≤ s.time.millis / width := by
      rw [Int.le_ediv_iff_mul_le hw]
      omega
    have hp := Int.mul_le_mul_of_nonneg_right hq (Int.le_of_lt hw)
    omega
  · omega

theorem wordWidth_eq_bmod {milliseconds : Nat} (h : 0 < milliseconds) :
    wordWidth milliseconds = Int.bmod (milliseconds : Int) UInt64.size := by
  have hm : max milliseconds 1 = milliseconds := Nat.max_eq_left h
  unfold wordWidth
  congr 2

/-- The width of a bucket is the one asked for as long as its milliseconds fit a word. -/
theorem wordWidth_eq_iff {seconds : Nat} (h : 0 < seconds) :
    wordWidth (seconds * 1000) = (seconds * 1000 : Nat) ↔ seconds * 1000 < 2 ^ 63 := by
  have hs : 0 < UInt64.size := Nat.two_pow_pos 64
  rw [wordWidth_eq_bmod (by omega), Int.bmod_eq_iff hs, UInt64.size]
  omega

theorem wordWidth_eq_zero_iff {seconds : Nat} (h : 0 < seconds) :
    wordWidth (seconds * 1000) = 0 ↔ 2 ^ 61 ∣ seconds := by
  -- a thousand holds three of the word's 64 factors of two, and what is left of it is odd
  have hs : seconds * 1000 = seconds * 125 * 8 := by omega
  have hw : UInt64.size = 2 ^ 61 * 8 := rfl
  rw [wordWidth_eq_bmod (by omega), ← Int.dvd_iff_bmod_eq_zero, Int.natCast_dvd_natCast, hs, hw,
    Nat.mul_dvd_mul_iff_right (by omega), Nat.Coprime.dvd_mul_right (by norm_num)]

end Buckets

end FleetHealth
