import FleetHealth.Proofs.Checked
import FleetHealth.Proofs.Monitor.Operations
import FleetHealth.Settings
import FleetHealth.Proofs.Words

/-!
# Safety of accepted settings

Every operation of an engine against a store has a result, with one exception: correlations divide by
the width of a bucket as a signed word of milliseconds, and of 2^61 seconds that word is zero. The
number of samples of a scan, one more than the window, wraps for the greatest window. Apart from these
two settings nothing leaves its range.
-/
namespace FleetHealth

namespace Engine

variable (e : Engine) (s : Store) (clock : Instant)

def bucketWidth : Int := Buckets.wordWidth (e.settings.correlation.bucketSeconds.toNat * 1000)

/-- Whether some series of a metric has a recent finite sample to put in a bucket. -/
def HasRecent (metric : Metric) : Prop :=
  ∃ series ∈ (s.recentOf clock metric e.settings.correlation.lookbackSeconds.toNat).values,
    Series.finite series.samples ≠ []

theorem all_divides_iff (metric : Metric) :
    ((s.recentOf clock metric e.settings.correlation.lookbackSeconds.toNat).values.all fun series =>
        Buckets.divides e.bucketWidth series.samples) = true ↔
      ¬ (e.bucketWidth = 0 ∧ e.HasRecent s clock metric) := by
  rw [List.all_eq_true, HasRecent, not_and, not_exists]
  simp only [Buckets.divides, Bool.or_eq_true, bne_iff_ne, List.isEmpty_iff, not_and, not_not]
  refine ⟨fun h hw series hs => ?_, fun h series hs => ?_⟩
  · exact (h series hs).resolve_left (not_not.2 hw)
  · exact (Decidable.em (e.bucketWidth = 0)).symm.imp id fun hw => h hw series hs

/-- The series of a metric fail to be bucketed exactly where a sample is to be divided by zero. -/
theorem seriesOn_cases (metric : Metric) :
    (e.bucketWidth = 0 ∧ e.HasRecent s clock metric) ∧
        e.seriesOn s clock metric = .error (.fault .divisionByZero) ∨
      ¬ (e.bucketWidth = 0 ∧ e.HasRecent s clock metric) ∧
        ∃ series, e.seriesOn s clock metric = .ok series := by
  by_cases h : e.bucketWidth = 0 ∧ e.HasRecent s clock metric
  · refine .inl ⟨h, ?_⟩
    have hall := mt (e.all_divides_iff s clock metric).1 (not_not.2 h)
    rw [seriesOn, Store.bucketedAverages]
    exact congrArg _ (congrArg _ (if_neg hall))
  · obtain ⟨series, hs⟩ : ∃ series, s.bucketedAverages clock metric
        e.settings.correlation.lookbackSeconds.toNat e.settings.correlation.bucketSeconds.toNat =
          .ok series := ⟨_, if_pos ((e.all_divides_iff s clock metric).2 h)⟩
    exact .inr ⟨h, (metric, series.values), by rw [seriesOn, hs]; rfl⟩

end Engine

/-- Computations over a list fail where one of them does, if each that fails fails the same way. -/
theorem mapM_cases {α β ε : Type} {f : α → Except ε β} {P : α → Prop} {i : ε}
    (h : ∀ a, P a ∧ f a = .error i ∨ ¬ P a ∧ ∃ b, f a = .ok b) (l : List α) :
    (∃ a ∈ l, P a) ∧ l.mapM f = .error i ∨ (∀ a ∈ l, ¬ P a) ∧ ∃ bs, l.mapM f = .ok bs := by
  induction l with
  | nil => exact .inr ⟨by simp, [], rfl⟩
  | cons a rest ih =>
    rw [List.mapM_cons]
    rcases h a with ⟨ha, he⟩ | ⟨ha, b, hb⟩
    · exact .inl ⟨⟨a, List.mem_cons_self, ha⟩, by rw [he]; rfl⟩
    · rcases ih with ⟨⟨a', hm, ha'⟩, he⟩ | ⟨hr, bs, hbs⟩
      · exact .inl ⟨⟨a', List.mem_cons_of_mem _ hm, ha'⟩, by rw [hb, he]; rfl⟩
      · exact .inr ⟨List.forall_mem_cons.2 ⟨ha, hr⟩, b :: bs, by rw [hb, hbs]; rfl⟩

namespace Engine

variable (e : Engine) (s : Store) (clock : Instant)

theorem pairsOn_error_iff (i : Interruption) :
    e.pairsOn s clock = .error i ↔ i = .fault .divisionByZero ∧ e.bucketWidth = 0 ∧
      ∃ metric ∈ e.settings.correlation.tracked, e.HasRecent s clock metric := by
  rw [pairsOn]
  rcases mapM_cases (e.seriesOn_cases s clock) e.settings.correlation.tracked with
    ⟨⟨metric, hm, hw, hr⟩, he⟩ | ⟨hn, groups, hg⟩
  · rw [he]
    exact ⟨fun h => ⟨(Except.error.inj h).symm, hw, metric, hm, hr⟩, fun h => by rw [h.1]; rfl⟩
  · rw [hg]
    refine ⟨fun h => (by cases h), fun ⟨_, hw, metric, hm, hr⟩ => ?_⟩
    exact absurd ⟨hw, hr⟩ (hn metric hm)

end Engine

namespace Operation

variable {e : Engine} {store : Store} {clock : Instant} {session : Session}

/-- An operation has no result exactly where correlations come to divide by a width of zero. -/
theorem outcome_error_iff (o : Operation) (i : Interruption) :
    o.outcome e store clock session = .error i ↔
      o = .correlations ∧ i = .fault .divisionByZero ∧ e.bucketWidth = 0 ∧
        ∃ metric ∈ e.settings.correlation.tracked, e.HasRecent store clock metric := by
  -- every operation but one has a result, and then neither side holds
  have hok {o : Operation} (ho : o ≠ .correlations)
      (h : ∃ r, o.outcome e store clock session = .ok r) :
      o.outcome e store clock session = .error i ↔ o = .correlations ∧
        i = .fault .divisionByZero ∧ e.bucketWidth = 0 ∧
        ∃ metric ∈ e.settings.correlation.tracked, e.HasRecent store clock metric := by
    obtain ⟨r, hr⟩ := h
    rw [hr]
    exact ⟨fun h => (by cases h), fun h => absurd h.1 ho⟩
  cases o with
  | detect entity metric history current =>
    exact hok nofun ⟨_, e.yields_detect _ entity metric history current session⟩
  | diagnose entity verdicts time =>
    exact hok nofun ⟨_, e.yields_diagnose _ entity verdicts time session⟩
  | forecast entity metric samples => exact hok nofun ⟨_, rfl⟩
  | correlate metric series => exact hok nofun ⟨_, e.yields_correlate _ metric series session⟩
  | scanEntity entity metrics =>
    exact hok nofun ⟨_, e.yields_scanEntity store clock entity metrics session⟩
  | scanFleet time => exact hok nofun ⟨_, e.yields_scanFleet store clock time session⟩
  | correlations =>
    have h : outcome .correlations e store clock session = e.pairsOn store clock :=
      e.yields_correlations store clock session
    have hp := e.pairsOn_error_iff store clock i
    exact ⟨fun hi => ⟨rfl, hp.1 (h.symm.trans hi)⟩, fun hc => h.trans (hp.2 hc.2)⟩
  | entityForecasts entity =>
    exact hok nofun ⟨_, e.yields_entityForecasts store clock entity session⟩
  | fleetForecast now limit => exact hok nofun (e.fleetForecast_ok store clock now limit session)

end Operation

/-- What makes settings safe to run: whatever the store and the operation, there is a result, the
numbers made from the settings are the ones meant, each cut of a list is inside it, and what is asked
of the calendar fits the words that it counts in. -/
structure SafeToRun (s : Settings) : Prop where
  finishes : ∀ e : Engine, e.settings = s → ∀ (o : Operation) (store : Store) (clock : Instant)
    (session : Session), ∃ result, o.outcome e store clock session = .ok result
  window : (s.anomaly.window + 1).toNat = s.anomaly.window.toNat + 1
  width : Buckets.wordWidth (s.correlation.bucketSeconds.toNat * 1000) =
    (s.correlation.bucketSeconds.toNat * 1000 : Nat)
  divisor : 0 < Buckets.wordWidth (s.correlation.bucketSeconds.toNat * 1000)
  starts : ∀ sample, FitsWord
    (Buckets.start (Buckets.wordWidth (s.correlation.bucketSeconds.toNat * 1000)) sample)
  histories : ∀ samples latest, Checked.history? s.anomaly.window.toNat samples latest =
    some (Engine.history s.anomaly.window.toNat samples latest)
  windows : ∀ (n : Nat) (samples : List Sample),
    Checked.lastItems? n samples = some (Series.takeLast n samples)
  points : ∀ samples : List Sample, Checked.tail? s.forecast.actualPoints.toNat samples =
    some (Series.takeLast s.forecast.actualPoints.toNat samples)
  thinned : ∀ samples, Checked.thin? samples s.forecast.maxPoints.toNat =
    some (Capacity.thin samples s.forecast.maxPoints.toNat)
  moves : ∀ (t t' : Instant) nanos, t.shift? nanos = some t' → FitsWord (nanos.tdiv 1000000)
  distances : ∀ t u : Instant, FitsWord t.millis ∧ FitsWord (t.millisSince u)

theorem window_fits_iff (w : UInt64) : (w + 1).toNat = w.toNat + 1 ↔ w.toNat + 1 < 2 ^ 64 := by
  rw [UInt64.toNat_add]
  have h := w.toNat_lt
  simp only [UInt64.reduceToNat]
  omega

/-- Accepted settings are safe to run exactly if one more than the window is a word and the
milliseconds of a bucket are a signed one. Otherwise an operation can still fail only in one way:
correlations with a bucket of a multiple of 2^61 seconds, over a store with something to put in one,
divide by zero. -/
theorem safeToRun_iff (s : Settings) (accepted : s.validate = .ok ()) :
    (SafeToRun s ↔ s.anomaly.window.toNat + 1 < 2 ^ 64 ∧
      s.correlation.bucketSeconds.toNat * 1000 < 2 ^ 63) ∧
    ∀ e : Engine, e.settings = s → ∀ (o : Operation) (store : Store) (clock : Instant)
      (session : Session) (i : Interruption),
        o.outcome e store clock session = .error i ↔
          o = .correlations ∧ i = .fault .divisionByZero ∧
            2 ^ 61 ∣ s.correlation.bucketSeconds.toNat ∧
            ∃ metric ∈ s.correlation.tracked, e.HasRecent store clock metric := by
  have hpos : 0 < s.correlation.bucketSeconds.toNat := by
    have hb := ((Settings.validate_ok_iff s).1 accepted).bucket
    rw [Nat.pos_iff_ne_zero, Ne, ← UInt64.toNat_zero, UInt64.toNat_inj]
    exact hb
  refine ⟨⟨fun h => ⟨?_, ?_⟩, fun ⟨hw, hb⟩ => ?_⟩, ?_⟩
  · exact (window_fits_iff _).1 h.window
  · exact (Buckets.wordWidth_eq_iff hpos).1 h.width
  · have hwidth := (Buckets.wordWidth_eq_iff hpos).2 hb
    have hdiv : 0 < Buckets.wordWidth (s.correlation.bucketSeconds.toNat * 1000) := by
      rw [hwidth]
      omega
    have hfits : FitsWord (Buckets.wordWidth (s.correlation.bucketSeconds.toNat * 1000)) := by
      rw [hwidth, FitsWord]
      omega
    refine ⟨?_, (window_fits_iff _).2 hw, hwidth, hdiv, Buckets.start_fits hdiv hfits,
      Checked.history?_eq _, Checked.lastItems?_eq, Checked.tail?_eq _,
      fun samples => Checked.thin?_eq samples _, fun _ _ _ => Instant.shift?_fits,
      fun t u => ⟨t.millis_fits, t.millisSince_fits u⟩⟩
    rintro e rfl o store clock session
    rcases ho : o.outcome e store clock session with i | result
    · have hz := ((o.outcome_error_iff i).1 ho).2.2.1
      rw [Engine.bucketWidth] at hz
      exact absurd hz (Int.ne_of_gt hdiv)
    · exact ⟨result, rfl⟩
  · rintro e rfl o store clock session i
    rw [Operation.outcome_error_iff, Engine.bucketWidth, Buckets.wordWidth_eq_zero_iff hpos]

theorem standard_accepted : Settings.standard.validate = .ok () := by rfl

theorem standard_safeToRun : Settings.standard.validate = .ok () ∧ SafeToRun Settings.standard :=
  ⟨standard_accepted, (safeToRun_iff Settings.standard standard_accepted).1.2 (by decide)⟩

/-- Settings with buckets of 2^61 seconds, standard otherwise. -/
def wideBuckets : Settings :=
  { Settings.standard with
    correlation := { CorrelationSettings.standard with bucketSeconds := 0x2000000000000000 } }

def loneStore : Store where
  records := ⟨[("web", ⟨none, ⟨[(.cpu, [⟨.epoch, 1.0⟩])], List.pairwise_singleton _ _⟩⟩)],
    List.pairwise_singleton _ _⟩
  pinned := some .epoch

theorem wideBuckets_fault :
    wideBuckets.validate = .ok () ∧
      Operation.correlations.outcome ⟨wideBuckets, Engine.defaultLabel, []⟩ loneStore .epoch
        ⟨.ofTtl 300, .empty⟩ = .error (.fault .divisionByZero) := by
  have hw : (⟨wideBuckets, Engine.defaultLabel, []⟩ : Engine).bucketWidth = 0 := by
    decide +kernel
  have hr : (loneStore.recentOf .epoch .cpu 86400).values = [⟨"web", none, [⟨.epoch, 1.0⟩]⟩] := by
    rfl
  have hf : Series.finite [⟨.epoch, 1.0⟩] = [⟨.epoch, 1.0⟩] := by rfl
  refine ⟨by rfl, (Operation.outcome_error_iff _ _).2 ⟨rfl, rfl, hw, .cpu, by decide, ?_⟩⟩
  refine ⟨⟨"web", none, [⟨.epoch, 1.0⟩]⟩, hr ▸ List.mem_singleton_self _, ?_⟩
  rw [hf]
  exact List.cons_ne_nil _ _

end FleetHealth
