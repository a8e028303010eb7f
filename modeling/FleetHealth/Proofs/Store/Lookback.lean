import FleetHealth.Proofs.Instant.Shift
import FleetHealth.Proofs.Store.Buckets
import FleetHealth.Proofs.Store.FleetRead

/-!
# Lookbacks

A lookback that is longer than a span of time can be, or that leaves the calendar, is cut off at the first
instant. No sample is earlier than that, so what is recent is told by arithmetic without bounds. Both
reads of the fleet keep what is recent, and leave out what has nothing recent.
-/
namespace FleetHealth

namespace Instant

variable {now t u : Instant} {nanos nanos' : Nat}

/-- Whether an instant is not before `now` less a lookback, where neither is bounded. An instant in a leap
second comes after all others of the second that it is written with, and a lookback that does not leave
such a second is told by the nanoseconds in it. -/
def IsWithin (now : Instant) (nanos : Nat) (t : Instant) : Prop :=
  if 1000000000 + nanos ≤ now.nano then
    now.second < t.second ∨ now.second = t.second ∧ now.nano - nanos ≤ t.nano
  else now.linear - nanos ≤ t.second * nanosPerSecond + min t.nano 999999999

instance (now : Instant) (nanos : Nat) (t : Instant) : Decidable (now.IsWithin nanos t) :=
  inferInstanceAs (Decidable (ite _ _ _))

/-- Outside leap seconds instants are points on the line of nanoseconds. -/
theorem isWithin_iff_linear (hnow : now.nano < 1000000000) (ht : t.nano < 1000000000) :
    now.IsWithin nanos t ↔ now.linear - nanos ≤ t.linear := by
  rw [IsWithin, if_neg (by omega), min_eq_left (by omega), linear, linear]

theorem IsWithin.mono (h : now.IsWithin nanos t) (hle : nanos ≤ nanos') : now.IsWithin nanos' t := by
  have hn := now.nano_lt
  simp only [IsWithin, linear, nanosPerSecond] at *
  split at h <;> split <;> omega

theorem isWithin_of_linear_le (h : now.linear - nanos ≤ firstSecond * nanosPerSecond) (t : Instant) :
    now.IsWithin nanos t := by
  have hs := now.second_bounds
  have ht := t.valid.1
  simp only [IsWithin, linear, nanosPerSecond, firstSecond] at *
  split <;> omega

/-- A move back ends at the earliest instant within it. -/
theorem le_iff_isWithin (h : now.shift? (-nanos) = some u) : u ≤ t ↔ now.IsWithin nanos t := by
  have hu := of_shift? h
  have hnow := now.nano_lt
  simp only [IsWithin, le_iff, linear, nanosPerSecond] at *
  split <;> omega

theorem linear_lt_of_ofLinear?_eq_none (h : ofLinear? (now.linear - nanos) = none)
    (hback : now.nano < 1000000000 + nanos) : now.linear - nanos < firstSecond * nanosPerSecond := by
  have hs := now.second_bounds
  have hsome := mt (ofLinear?_isSome_iff (now.linear - nanos)).2 (by rw [h]; exact Bool.false_ne_true)
  simp only [linear, firstSecond, lastSecond, nanosPerSecond] at *
  omega

/-- A move back has no end only where it leaves the calendar. -/
theorem linear_lt_of_shift?_eq_none (h : now.shift? (-nanos) = none) :
    now.linear - nanos < firstSecond * nanosPerSecond := by
  rw [shift?_eq] at h
  split at h
  next hleap =>
    have hnano := now.nano_lt
    rw [if_neg (by omega)] at h
    split at h
    next hback => exact linear_lt_of_ofLinear?_eq_none h (by omega)
    next hback =>
      -- within its leap second there is an instant for every nanosecond
      have hvalid := now.valid
      rw [ofSecond?, dif_pos] at h
      · cases h
      · simp only [IsInstant] at hvalid ⊢
        omega
  next hleap =>
    have hnano : now.nano < 1000000000 := Nat.not_le.1 fun h => hleap (decide_eq_true h)
    exact linear_lt_of_ofLinear?_eq_none h (by omega)

end Instant

namespace Store

variable (s : Store) {now : Instant} (clock : Instant) (nanos : Nat)

/-- A lookback that is no span of time would leave the calendar. -/
theorem cutoffWithin_eq : s.cutoffWithin clock nanos =
    ((s.pinned.getD clock).shift? (-nanos)).getD Instant.first := by
  rw [cutoffWithin, span?]
  split
  next => rfl
  next hlong =>
    rcases h : (s.pinned.getD clock).shift? (-nanos) with _ | u
    · rfl
    · have hends := Instant.of_shift? h
      have hfirst := (s.pinned.getD clock).linear_bounds
      have hlast := u.linear_bounds
      simp only [nanosPerSecond] at hends hfirst hlast
      omega

variable {s}

/-- What is not before the cut-off is within the lookback, reckoned without bounds. -/
theorem cutoffWithin_le_iff (pinned : s.pinned = some now) (t : Instant) :
    s.cutoffWithin clock nanos ≤ t ↔ now.IsWithin nanos t := by
  rw [cutoffWithin_eq, pinned, Option.getD_some]
  rcases h : now.shift? (-nanos) with _ | u
  · exact iff_of_true (Instant.first_le t)
      (Instant.isWithin_of_linear_le (Instant.linear_lt_of_shift?_eq_none h).le t)
  · exact Instant.le_iff_isWithin h

variable (s)

/-- The stored samples of a series within a lookback, in their order. -/
def within (now : Instant) (nanos : Nat) (entity : String) (metric : Metric) : List Sample :=
  (s.series entity metric).filter fun x => decide (now.IsWithin nanos x.time)

variable {s}

theorem since_cutoffWithin (pinned : s.pinned = some now) (entity : String) (metric : Metric) :
    Series.since (s.cutoffWithin clock nanos) (s.series entity metric) =
      s.within now nanos entity metric := by
  simp only [Series.since, within, cutoffWithin_le_iff clock nanos pinned]

/-- What a read of the fleet is to hold: the entities with samples of the wanted metrics within the
lookback, each under its name and with just these. -/
structure IsFleetRead (s : Store) (now : Instant) (nanos : Nat) (metrics : List Metric)
    (read : Index String EntityRecord) : Prop where
  covers : ∀ entity, (read.get? entity).isSome ↔
    ∃ metric ∈ metrics, s.within now nanos entity metric ≠ []
  holds : ∀ entity record, read.get? entity = some record →
    record.displayName = s.displayName entity ∧
      ∀ metric, record.series.get? metric =
        if metric ∈ metrics ∧ s.within now nanos entity metric ≠ [] then
          some (s.within now nanos entity metric)
        else none

/-- What a read of averages is to hold: the entities with samples of the metric within the lookback, each
under its name and with the averages of just these. -/
structure IsAveragesRead (s : Store) (now : Instant) (nanos : Nat) (metric : Metric) (milliseconds : Nat)
    (read : Index String EntitySeries) : Prop where
  covers : ∀ entity, (read.get? entity).isSome ↔ s.within now nanos entity metric ≠ []
  holds : ∀ entity series, read.get? entity = some series →
    series.entity = entity ∧ series.displayName = s.displayName entity ∧
      Buckets.bucketize milliseconds (s.within now nanos entity metric) = .ok series.samples

theorem isFleetRead (pinned : s.pinned = some now) (metrics : List Metric) :
    IsFleetRead s now nanos metrics (s.fleetSamplesWithin clock metrics nanos) := by
  have hseries (entity : String) (metric : Metric) :
      (recentSeries metrics (s.cutoffWithin clock nanos) (s.record entity)).get? metric =
        if metric ∈ metrics ∧ s.within now nanos entity metric ≠ [] then
          some (s.within now nanos entity metric)
        else none := by
    rw [get?_recentSeries, ← since_cutoffWithin clock nanos pinned, series]
  refine ⟨fun entity => ?_, fun entity record h => ?_⟩
  · have hsome : ((s.fleetSamplesWithin clock metrics nanos).get? entity).isSome ↔
        ¬ (recentSeries metrics (s.cutoffWithin clock nanos) (s.record entity)).isEmpty = true := by
      rw [get?_fleetSamplesWithin]
      simp only
      split
      next he => exact iff_of_false Bool.false_ne_true (not_not.2 he)
      next he => exact iff_of_true rfl he
    rw [hsome, Index.isEmpty_iff]
    simp only [hseries, ite_eq_right_iff, reduceCtorEq, imp_false, not_forall, not_not]
  · rw [get?_fleetSamplesWithin] at h
    simp only at h
    split at h
    next => cases h
    next =>
      cases h
      exact ⟨rfl, hseries entity⟩

theorem exists_isAveragesRead (pinned : s.pinned = some now) (metric : Metric) {milliseconds : Nat}
    (hwidth : Buckets.wordWidth milliseconds ≠ 0) :
    ∃ read, s.averagesWithin clock metric nanos milliseconds = .ok read ∧
      IsAveragesRead s now nanos metric milliseconds read := by
  have hdivides : (s.recentWithin clock metric nanos).values.all fun e =>
      Buckets.divides (Buckets.wordWidth milliseconds) e.samples :=
    List.all_eq_true.2 fun e _ => Buckets.divides_of_ne_zero hwidth e.samples
  have hread (entity : String) : (((s.recentWithin clock metric nanos).map fun e =>
        { e with samples := Buckets.average (Buckets.wordWidth milliseconds) e.samples }).get? entity) =
      if s.within now nanos entity metric ≠ [] then
        some ⟨entity, s.displayName entity,
          Buckets.average (Buckets.wordWidth milliseconds) (s.within now nanos entity metric)⟩
      else none := by
    rw [Index.map, Index.get?_filterMap, get?_recentWithin, since_cutoffWithin clock nanos pinned]
    simp only
    split <;> rfl
  refine ⟨_, if_pos hdivides, fun entity => ?_, fun entity series h => ?_⟩
  · rw [hread]
    split
    next h => exact iff_of_true rfl h
    next h => exact iff_of_false Bool.false_ne_true h
  · rw [hread] at h
    split at h
    next =>
      cases h
      exact ⟨rfl, rfl, Buckets.bucketize_of_ne_zero hwidth _⟩
    next => cases h

/-- A longer lookback loses no sample. -/
theorem within_sublist {nanos nanos' : Nat} (h : nanos ≤ nanos') (entity : String) (metric : Metric) :
    (s.within now nanos entity metric).Sublist (s.within now nanos' entity metric) :=
  List.monotone_filter_right _ fun _ hx => decide_eq_true ((of_decide_eq_true hx).mono h)

theorem IsFleetRead.exists_sublist {nanos nanos' : Nat} {metrics : List Metric}
    {read read' : Index String EntityRecord} (h : IsFleetRead s now nanos metrics read)
    (h' : IsFleetRead s now nanos' metrics read') (hle : nanos ≤ nanos') {entity : String}
    {record : EntityRecord} (hrecord : read.get? entity = some record) :
    ∃ record', read'.get? entity = some record' ∧ ∀ metric kept, record.series.get? metric = some kept →
      ∃ kept', record'.series.get? metric = some kept' ∧ kept.Sublist kept' := by
  have hlonger {metric : Metric} (hne : s.within now nanos entity metric ≠ []) :
      s.within now nanos' entity metric ≠ [] :=
    fun hnil => hne (List.sublist_nil.1 (hnil ▸ within_sublist hle entity metric))
  obtain ⟨metric, hm, hne⟩ := (h.covers entity).1 (by rw [hrecord]; rfl)
  obtain ⟨record', hrecord'⟩ :=
    Option.isSome_iff_exists.1 ((h'.covers entity).2 ⟨metric, hm, hlonger hne⟩)
  refine ⟨record', hrecord', fun metric kept hkept => ?_⟩
  rw [(h.holds _ _ hrecord).2] at hkept
  obtain ⟨⟨hm, hne⟩, hkept⟩ := Option.ite_none_right_eq_some.1 hkept
  obtain rfl := Option.some.inj hkept
  exact ⟨_, ((h'.holds _ _ hrecord').2 metric).trans (if_pos ⟨hm, hlonger hne⟩),
    within_sublist hle entity metric⟩

/-- With a pinned now, lookback reads are exact at every size: they keep the stored samples that are not
earlier than now less the lookback, reckoned without bounds, in their order, and leave out the metrics
and the entities without one. So a longer lookback loses no sample, and one that reaches past the calendar
keeps them all. -/
theorem lookback_reads_exact (s : Store) (now clock : Instant) (nanos : Nat)
    (pinned : s.pinned = some now) :
    (∀ metrics, IsFleetRead s now nanos metrics (s.fleetSamplesWithin clock metrics nanos)) ∧
    (∀ metric milliseconds, 1 ≤ milliseconds → milliseconds < 2 ^ 63 →
      ∃ read, s.averagesWithin clock metric nanos milliseconds = .ok read ∧
        IsAveragesRead s now nanos metric milliseconds read) ∧
    (∀ t : Instant, now.nano < 1000000000 → t.nano < 1000000000 →
      (now.IsWithin nanos t ↔ now.linear - nanos ≤ t.linear)) ∧
    (∀ nanos', nanos ≤ nanos' → ∀ metrics entity record,
      (s.fleetSamplesWithin clock metrics nanos).get? entity = some record →
        ∃ record', (s.fleetSamplesWithin clock metrics nanos').get? entity = some record' ∧
          ∀ metric kept, record.series.get? metric = some kept →
            ∃ kept', record'.series.get? metric = some kept' ∧ kept.Sublist kept') ∧
    (now.linear - nanos ≤ firstSecond * nanosPerSecond →
      ∀ entity metric, s.within now nanos entity metric = s.series entity metric) := by
  refine ⟨isFleetRead clock nanos pinned, fun metric milliseconds hpos hfits => ?_,
    fun t hnow ht => Instant.isWithin_iff_linear hnow ht, fun nanos' hle metrics entity record h => ?_,
    fun hpast entity metric => ?_⟩
  · refine exists_isAveragesRead clock nanos pinned metric ?_
    rw [Buckets.wordWidth_of_fits hpos hfits]
    omega
  · exact (isFleetRead clock nanos pinned metrics).exists_sublist (isFleetRead clock nanos' pinned metrics)
      hle h
  · exact List.filter_eq_self.2 fun x _ => decide_eq_true (Instant.isWithin_of_linear_le hpast x.time)

/-- A host with samples at 50, 70 and 110 seconds, and one with a sample at the epoch. -/
def twoHosts : Store where
  records := (Index.empty.insert "db" ⟨none, Index.empty.insert .cpu [⟨.epoch, 1.0⟩]⟩).insert "web"
    ⟨some "Web", Index.empty.insert .cpu [⟨⟨50, 0, by decide⟩, 1.0⟩, ⟨⟨70, 0, by decide⟩, 2.0⟩,
      ⟨⟨110, 0, by decide⟩, 4.0⟩]⟩
  pinned := some ⟨110, 0, by decide⟩

/-- A lookback of 40 seconds reaches the sample at 70 seconds and not the other host. -/
theorem lookback_reads_exact_twoHosts :
    let now : Instant := ⟨110, 0, by decide⟩
    twoHosts.pinned = some now ∧
      IsFleetRead twoHosts now 40000000000 [.memory, .cpu]
        (twoHosts.fleetSamplesWithin .epoch [.memory, .cpu] 40000000000) ∧
      (∃ read, twoHosts.averagesWithin .epoch .cpu 40000000000 60000 = .ok read ∧
        IsAveragesRead twoHosts now 40000000000 .cpu 60000 read) ∧
      ((twoHosts.within now 40000000000 "web" .cpu).map fun x => (x.time.second, x.value)) =
        [(70, 2.0), (110, 4.0)] ∧
      (twoHosts.within now 40000000000 "db" .cpu).length = 0 := by
  intro now
  have hpinned : twoHosts.pinned = some now := rfl
  obtain ⟨hfleet, haverages, _⟩ := lookback_reads_exact twoHosts now .epoch 40000000000 hpinned
  exact ⟨hpinned, hfleet _, haverages .cpu 60000 (by norm_num) (by norm_num), by decide +kernel,
    by decide +kernel⟩

end Store

end FleetHealth
