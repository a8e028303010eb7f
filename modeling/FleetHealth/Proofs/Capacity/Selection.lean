import FleetHealth.Proofs.Capacity.Urgency
import FleetHealth.Proofs.FiniteResults

/-!
# A fleet forecast as a selection

The forecasts of a fleet stand in one line by urgency, and a fleet forecast is the front of that line:
nothing left out stands before anything kept, and a shorter answer is the beginning of a longer one.
-/
namespace FleetHealth.Capacity

namespace Forecast

/-- A crossing comes before a later one, and before none at all. -/
inductive CrossesSooner : Option Float → Option Float → Prop where
  | sooner {x y : Float} (h : Binary64.rank x < Binary64.rank y) : CrossesSooner (some x) (some y)
  | told (x : Float) : CrossesSooner (some x) none

/-- What makes one forecast more urgent than another. Each mark counts where those before it leave the
two alike. -/
inductive Precedes (a b : Forecast) : Prop where
  | rising (here : a.trend = .increasing) (there : b.trend ≠ .increasing) : Precedes a b
  | crossing (trends : a.trend = .increasing ↔ b.trend = .increasing)
      (sooner : CrossesSooner a.hoursToThreshold b.hoursToThreshold) : Precedes a b
  | entity (trends : a.trend = .increasing ↔ b.trend = .increasing)
      (crossings : ¬ CrossesSooner b.hoursToThreshold a.hoursToThreshold)
      (before : a.entity < b.entity) : Precedes a b
  | metric (trends : a.trend = .increasing ↔ b.trend = .increasing)
      (crossings : ¬ CrossesSooner b.hoursToThreshold a.hoursToThreshold)
      (entities : a.entity = b.entity) (before : a.metric.position < b.metric.position) :
      Precedes a b

theorem compareCrossing_eq_lt {x y : Option Float} :
    compareCrossing x y = .lt ↔ CrossesSooner x y := by
  constructor
  · intro h
    rcases x with _ | x <;> rcases y with _ | y <;> simp only [compareCrossing, reduceCtorEq] at h
    · exact .told x
    · exact .sooner (Int.compare_eq_lt.1 h)
  · rintro (h | _)
    · exact Int.compare_eq_lt.2 h
    · rfl

theorem compareCrossing_swap (x y : Option Float) :
    compareCrossing y x = (compareCrossing x y).swap := by
  rcases x with _ | x <;> rcases y with _ | y
  · rfl
  · rfl
  · rfl
  · exact Std.OrientedOrd.eq_swap

theorem compareCrossing_eq_gt {x y : Option Float} :
    compareCrossing x y = .gt ↔ CrossesSooner y x := by
  rw [← compareCrossing_eq_lt, compareCrossing_swap x y, Ordering.swap_eq_lt]

theorem compare_rising_eq_lt {a b : Forecast} :
    compare (decide (b.trend = .increasing)) (decide (a.trend = .increasing)) = .lt ↔
      a.trend = .increasing ∧ b.trend ≠ .increasing := by
  by_cases ha : a.trend = .increasing <;> by_cases hb : b.trend = .increasing <;>
    simp [ha, hb, Ord.compare]

theorem compare_rising_eq_eq {a b : Forecast} :
    compare (decide (b.trend = .increasing)) (decide (a.trend = .increasing)) = .eq ↔
      (a.trend = .increasing ↔ b.trend = .increasing) := by
  by_cases ha : a.trend = .increasing <;> by_cases hb : b.trend = .increasing <;>
    simp [ha, hb]

/-- The comparison by which forecasts are sorted goes by these marks. -/
theorem urgency_eq_lt {a b : Forecast} : urgency a b = .lt ↔ a.Precedes b := by
  have hstring (s t : String) : compare s t = .lt ↔ s < t := compareOfLessAndEq_eq_lt
  have hmetric : compare a.metric b.metric = .lt ↔ a.metric.position < b.metric.position :=
    Nat.compare_eq_lt
  rw [urgency, Ordering.then_eq_lt, Ordering.then_eq_lt, Ordering.then_eq_lt, compare_rising_eq_lt,
    compare_rising_eq_eq, compareCrossing_eq_lt, hstring, hmetric, Std.LawfulEqOrd.compare_eq_iff_eq]
  constructor
  · rintro (⟨ha, hb⟩ | ⟨ht, hs | ⟨hc, he | ⟨he, hm⟩⟩⟩)
    · exact .rising ha hb
    · exact .crossing ht hs
    · exact .entity ht (by rw [← compareCrossing_eq_gt, hc]; nofun) he
    · exact .metric ht (by rw [← compareCrossing_eq_gt, hc]; nofun) he hm
  · -- where the second does not cross sooner, either the first does or the two tie
    have htie (h : ¬ CrossesSooner b.hoursToThreshold a.hoursToThreshold) :
        CrossesSooner a.hoursToThreshold b.hoursToThreshold ∨
          compareCrossing a.hoursToThreshold b.hoursToThreshold = .eq := by
      rw [← compareCrossing_eq_gt] at h
      rw [← compareCrossing_eq_lt]
      rcases hc : compareCrossing a.hoursToThreshold b.hoursToThreshold with _ | _ | _
      · exact .inl rfl
      · exact .inr rfl
      · exact absurd hc h
    rintro (⟨ha, hb⟩ | ⟨ht, hs⟩ | ⟨ht, hc, he⟩ | ⟨ht, hc, he, hm⟩)
    · exact .inl ⟨ha, hb⟩
    · exact .inr ⟨ht, .inl hs⟩
    · exact .inr ⟨ht, (htie hc).imp id fun hc => ⟨hc, .inl he⟩⟩
    · exact .inr ⟨ht, (htie hc).imp id fun hc => ⟨hc, .inr ⟨he, hm⟩⟩⟩

theorem urgency_isLE {a b : Forecast} : (urgency a b).isLE ↔ ¬ b.Precedes a := by
  have hswap : urgency a b = (urgency b a).swap :=
    @Std.OrientedCmp.eq_swap _ compareUrgency _ a b
  rw [← urgency_eq_lt, hswap]
  cases urgency b a <;> simp

/-- All of some forecasts in a line, none of them before one that precedes it. -/
structure IsLine (all line : List Forecast) : Prop where
  perm : line.Perm all
  inOrder : line.Pairwise fun a b => ¬ b.Precedes a

variable {all line line' : List Forecast}

theorem isLine_rank (all : List Forecast) : IsLine all (rank all) where
  perm := List.mergeSort_perm _ _
  inOrder := (urgency_order.pairwise all).imp urgency_isLE.1

/-- Where only one forecast has a key, there is only one way to line up. -/
theorem IsLine.unique (hsame : ∀ a ∈ all, ∀ b ∈ all, a.key = b.key → a = b)
    (h : IsLine all line) (h' : IsLine all line') : line = line' := by
  have hle {l : List Forecast} (hl : IsLine all l) : l.Pairwise fun a b => (urgency a b).isLE :=
    hl.inOrder.imp urgency_isLE.2
  refine (h.perm.trans h'.perm.symm).eq_of_pairwise (fun a b ha hb hab hba => ?_) (hle h) (hle h')
  exact hsame a (h.perm.subset ha) b (h'.perm.subset hb) (key_eq_of_urgency hab hba)

/-- What stands in line is not moved by ranking it again. -/
theorem rank_rank (all : List Forecast) : rank (rank all) = rank all :=
  List.mergeSort_of_pairwise (urgency_order.pairwise all)

end Forecast

namespace Forecaster

variable (f : Forecaster) {hours : Float}

theorem eq_roundTo_of_forecast {entity : String} {metric : Metric} {samples : List Sample}
    {made : Forecast} (h : f.forecast entity metric samples = some made)
    (hh : hours ∈ made.hoursToThreshold) : ∃ x, hours = Binary64.roundTo x 1 := by
  obtain ⟨_, _, _, rfl⟩ := exists_of_forecast h
  exact ⟨_, (of_mem_hoursToThreshold hh).2.2.2.2.2⟩

end Forecaster

namespace FleetForecaster

variable (f : FleetForecaster) {fleet : Index String EntityRecord}

theorem eq_roundTo_of_mem_candidates {c : Forecast} {hours : Float} (hc : c ∈ f.candidates fleet)
    (h : hours ∈ c.hoursToThreshold) : ∃ x, hours = Binary64.roundTo x 1 := by
  obtain ⟨record, _, _, hmade⟩ := f.mem_candidates.1 hc
  obtain ⟨samples, made, _, _, hmade, hc⟩ := f.candidate?_eq_some_iff.1 hmade
  rw [hc] at h
  exact f.forecaster.eq_roundTo_of_forecast hmade h

/-- Crossings that are told come in the order of numbers. -/
theorem crossesSooner_iff_lt {x y : Float} (hx : ∃ z, x = Binary64.roundTo z 1)
    (hy : ∃ z, y = Binary64.roundTo z 1) : Forecast.CrossesSooner (some x) (some y) ↔ x < y := by
  have hfinite {x : Float} (h : ∃ z, x = Binary64.roundTo z 1) : x.isNaN = false := by
    obtain ⟨z, rfl⟩ := h
    exact Binary64.isNaN_eq_false (Binary64.isFinite_roundTo z (by decide) (by decide))
  have hsign {x : Float} (h : ∃ z, x = Binary64.roundTo z 1) : ¬ Binary64.IsNegativeZero x := by
    obtain ⟨z, rfl⟩ := h
    exact Binary64.not_isNegativeZero_roundTo z (by decide) (by decide)
  have hrank : Forecast.CrossesSooner (some x) (some y) ↔ Binary64.rank x < Binary64.rank y :=
    ⟨fun | .sooner h => h, .sooner⟩
  rw [hrank, Binary64.rank_lt_iff (hsign hx) (hsign hy), Binary64.lt_iff, hfinite hx, hfinite hy]
  simp

variable (fleet) in
/-- A fleet forecast is the front of the one line of all forecasts: those of the tracked metrics that
have enough samples, each made from the thinned series, with the name of its entity. In that line rising
series stand first, then the soonest crossings, and ties go by entity and metric. So nothing left out
precedes anything kept, a shorter answer begins a longer one, and ranking neither moves what is in line
nor shows in which order forecasts of different series were given. -/
theorem mostUrgent_selects :
    let all := f.candidates fleet
    (∀ c, c ∈ all ↔ ∃ record samples made, fleet.get? c.entity = some record ∧
        c.metric ∈ f.tracked ∧ record.series.get? c.metric = some samples ∧
        f.forecaster.minSamples ≤ samples.length ∧
        f.forecaster.forecast c.entity c.metric (thin samples f.maxPoints) = some made ∧
        c = { made with displayName := record.displayName }) ∧
      (∀ a ∈ all, ∀ b ∈ all, a.key = b.key → a = b) ∧
      (f.tracked.Nodup → (all.map Forecast.key).Nodup) ∧
      (∀ a ∈ all, ∀ b ∈ all, ∀ x ∈ a.hoursToThreshold, ∀ y ∈ b.hoursToThreshold,
        (Forecast.CrossesSooner (some x) (some y) ↔ x < y)) ∧
      (∃ line, (∀ line', Forecast.IsLine all line' ↔ line' = line) ∧ ∀ limit,
        f.mostUrgent fleet limit = line.take (min limit all.length) ∧
        (f.mostUrgent fleet limit).length = min limit all.length ∧
        ∀ kept ∈ f.mostUrgent fleet limit, ∀ omitted ∈ line.drop limit, ¬ omitted.Precedes kept) ∧
      (∀ m n, m ≤ n → f.mostUrgent fleet m = (f.mostUrgent fleet n).take m) ∧
      (∀ given : List Forecast, Forecast.rank (Forecast.rank given) = Forecast.rank given ∧
        ((given.map Forecast.key).Nodup → ∀ given', given'.Perm given →
          Forecast.rank given' = Forecast.rank given)) := by
  intro all
  have hrepeats := f.repeats_candidates fleet
  have hline : Forecast.IsLine all (Forecast.rank all) := Forecast.isLine_rank all
  refine ⟨fun c => ?_, hrepeats.same, fun hn => hrepeats.nodup fun _ =>
    List.nodup_iff_count_le_one.1 hn _, fun a ha b hb x hx y hy => ?_,
    ⟨Forecast.rank all, fun line' => ⟨fun h => h.unique hrepeats.same hline, fun h => h ▸ hline⟩,
      fun limit => ⟨?_, ?_, fun kept hk omitted ho => ?_⟩⟩, fun m n hmn => ?_,
    fun given => ⟨Forecast.rank_rank given, fun hdistinct given' hp => ?_⟩⟩
  · rw [f.mem_candidates]
    simp only [f.candidate?_eq_some_iff]
    constructor
    · rintro ⟨record, hr, ht, samples, made, hs, hlen, hm, hc⟩
      exact ⟨record, samples, made, hr, ht, hs, hlen, hm, hc⟩
    · rintro ⟨record, samples, made, hr, ht, hs, hlen, hm, hc⟩
      exact ⟨record, hr, ht, samples, made, hs, hlen, hm, hc⟩
  · exact crossesSooner_iff_lt (f.eq_roundTo_of_mem_candidates ha hx)
      (f.eq_roundTo_of_mem_candidates hb hy)
  · rw [mostUrgent, ← hline.perm.length_eq, ← List.take_eq_take_min]
  · rw [mostUrgent, List.length_take, hline.perm.length_eq]
  · have hsplit : (f.mostUrgent fleet limit ++ (Forecast.rank all).drop limit).Pairwise
        fun a b => ¬ b.Precedes a := by
      rw [mostUrgent, List.take_append_drop]
      exact hline.inOrder
    exact (List.pairwise_append.1 hsplit).2.2 kept hk omitted ho
  · rw [mostUrgent, mostUrgent, List.take_take, min_eq_left hmn]
  · have hgiven : Forecast.IsLine given (Forecast.rank given') :=
      ⟨(Forecast.isLine_rank given').perm.trans hp, (Forecast.isLine_rank given').inOrder⟩
    exact hgiven.unique (fun a ha b hb => List.inj_on_of_nodup_map hdistinct ha hb)
      (Forecast.isLine_rank given)

end FleetForecaster

end FleetHealth.Capacity
