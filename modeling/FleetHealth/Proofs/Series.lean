import FleetHealth.Proofs.Instant
import FleetHealth.Proofs.Sorting
import FleetHealth.Sample
import Mathlib.Data.List.TakeDrop

/-!
# Series

The last items of a series, with and without its newest. A series put in time order holds the samples of
each instant in the order it was given them, so the last sample is the last one given of those at the
newest instant, and sorting a part of a series first changes nothing.
-/
namespace FleetHealth.Series

/-! ### Ends -/

variable {α : Type}

theorem length_takeLast (n : Nat) (l : List α) : (takeLast n l).length = min n l.length := by
  rw [takeLast, List.length_drop]
  omega

/-- Without the newest of one item more there are the items before the newest. -/
theorem dropLast_takeLast (n : Nat) (l : List α) :
    (takeLast (n + 1) l).dropLast = takeLast n l.dropLast := by
  rw [takeLast, takeLast, List.dropLast_drop_eq_drop_dropLast, List.length_dropLast]
  congr 1
  omega

theorem getLast?_takeLast (n : Nat) {l : List α} {last : α} (h : l.getLast? = some last) :
    (takeLast (n + 1) l).getLast? = some last := by
  have hl : 0 < l.length := List.length_pos_of_mem (List.mem_of_getLast? h)
  rw [takeLast, List.getLast?_drop, if_neg (by omega), h]

theorem takeLast_takeLast {m n : Nat} (h : m ≤ n) (l : List α) :
    takeLast m (takeLast n l) = takeLast m l := by
  simp only [takeLast, List.drop_drop, List.length_drop]
  congr 1
  omega

/-! ### Time order -/

/-- The samples that no sample is later than, in their order. -/
def newest (samples : List Sample) : List Sample :=
  samples.filter fun s => samples.all fun t => decide (t.time ≤ s.time)

theorem time_order : SortOrder fun a b : Sample => decide (a.time ≤ b.time) :=
  .of_compare (compareOn Sample.time) fun a b => by
    change decide ((compare a.time b.time).isLE = true) = (compare a.time b.time).isLE
    exact Bool.decide_eq_true

theorem sortByTime_perm (samples : List Sample) : (sortByTime samples).Perm samples :=
  List.mergeSort_perm samples _

theorem sortByTime_ascending (samples : List Sample) :
    (sortByTime samples).Pairwise fun a b => a.time ≤ b.time :=
  (time_order.pairwise samples).imp of_decide_eq_true

theorem sortByTime_append (samples more : List Sample) :
    sortByTime (sortByTime samples ++ more) = sortByTime (samples ++ more) :=
  time_order.mergeSort_append samples more

theorem sortByTime_filter (samples : List Sample) (p : Sample → Bool) :
    sortByTime (samples.filter p) = (sortByTime samples).filter p :=
  time_order.mergeSort_filter samples p

theorem sortByTime_of_ascending {samples : List Sample}
    (h : samples.Pairwise fun a b => a.time ≤ b.time) : sortByTime samples = samples :=
  List.mergeSort_of_pairwise (h.imp decide_eq_true)

/-- Series with the same samples at each instant, in the same order, are one in time order. -/
theorem sortByTime_eq {samples samples' : List Sample}
    (h : ∀ t, samples.filter (fun s => s.time = t) = samples'.filter fun s => s.time = t) :
    sortByTime samples = sortByTime samples' := by
  have htie (a b : Sample) :
      (decide (a.time ≤ b.time) && decide (b.time ≤ a.time)) = decide (b.time = a.time) := by
    rw [← Bool.decide_and, decide_eq_decide]
    refine ⟨fun h => Instant.le_antisymm h.2 h.1, fun h => ?_⟩
    rw [h]
    exact ⟨Instant.le_refl _, Instant.le_refl _⟩
  refine time_order.mergeSort_eq fun a => ?_
  simp only [htie, h]

/-- Samples of one instant keep their order. -/
theorem filter_sortByTime (samples : List Sample) (t : Instant) :
    (sortByTime samples).filter (fun s => s.time = t) = samples.filter fun s => s.time = t := by
  refine time_order.filter_mergeSort samples fun a _ b _ ha hb => ?_
  rw [of_decide_eq_true ha, of_decide_eq_true hb]
  exact decide_eq_true (Instant.le_refl t)

theorem newest_sortByTime (samples : List Sample) : newest (sortByTime samples) = newest samples := by
  have hp := sortByTime_perm samples
  unfold newest
  simp only [hp.all_eq]
  refine time_order.filter_mergeSort samples fun a ha b _ _ hb => ?_
  exact List.all_eq_true.1 hb a ha

theorem ascending_of_isSorted {samples : List Sample} (h : isSorted samples) :
    samples.Pairwise fun a b => a.time ≤ b.time := by
  induction samples with
  | nil => exact .nil
  | cons a rest ih =>
    cases rest with
    | nil => exact List.pairwise_singleton _ _
    | cons b rest =>
      rw [isSorted, Bool.and_eq_true, decide_eq_true_eq] at h
      have hrest := ih h.2
      refine List.pairwise_cons.2 ⟨fun c hc => ?_, hrest⟩
      rcases List.mem_cons.1 hc with rfl | hc
      · exact h.1
      · exact Instant.le_trans h.1 ((List.pairwise_cons.1 hrest).1 c hc)

/-- In time order no sample is later than the last. -/
theorem le_getLast? {samples : List Sample} {last : Sample}
    (h : samples.Pairwise fun a b => a.time ≤ b.time) (hl : samples.getLast? = some last) :
    ∀ s ∈ samples, s.time ≤ last.time := by
  obtain ⟨before, rfl⟩ := List.getLast?_eq_some_iff.1 hl
  intro s hs
  rcases List.mem_append.1 hs with hs | hs
  · exact (List.pairwise_append.1 h).2.2 s hs last List.mem_cons_self
  · obtain rfl := List.mem_singleton.1 hs
    exact Instant.le_refl _

/-- Of samples in time order the newest is recent if any is. -/
theorem getLast?_since {samples : List Sample} {cutoff : Instant}
    (h : samples.Pairwise fun a b => a.time ≤ b.time) (hne : since cutoff samples ≠ []) :
    (since cutoff samples).getLast? = samples.getLast? := by
  rcases samples.eq_nil_or_concat' with rfl | ⟨before, last, rfl⟩
  · rfl
  · obtain ⟨s, hs⟩ := List.exists_mem_of_ne_nil _ hne
    obtain ⟨hm, hc⟩ := List.mem_filter.1 hs
    have hlast : cutoff ≤ last.time :=
      Instant.le_trans (of_decide_eq_true hc) (le_getLast? h List.getLast?_concat s hm)
    unfold since
    simp [List.filter_append, hlast]

/-- In time order the last sample is the last of the newest. -/
theorem getLast?_newest {samples : List Sample}
    (h : samples.Pairwise fun a b => a.time ≤ b.time) :
    (newest samples).getLast? = samples.getLast? := by
  rcases samples.eq_nil_or_concat' with rfl | ⟨before, last, rfl⟩
  · rfl
  · have hlast : (before ++ [last]).all fun t => decide (t.time ≤ last.time) :=
      List.all_eq_true.2 fun t ht => decide_eq_true (le_getLast? h List.getLast?_concat t ht)
    unfold newest
    rw [List.filter_append, List.filter_singleton, hlast]
    simp

end FleetHealth.Series
