import FleetHealth.Proofs.Capacity.Eligibility
import FleetHealth.Proofs.Index.Filled
import FleetHealth.Proofs.Repeats

/-!
# The most urgent forecasts

Forecasts of a fleet are ranked by urgency, and only forecasts of one metric of one entity can tie.
There is one such forecast, so the ranking does not show in which order the fleet was gone through.
-/
namespace FleetHealth.Capacity

namespace Forecast

def key (f : Forecast) : String × Metric := (f.entity, f.metric)

instance : Std.TransCmp fun a b : Forecast =>
    compare (decide (b.trend = .increasing)) (decide (a.trend = .increasing)) :=
  inferInstanceAs (Std.TransCmp fun a b =>
    compareOn (fun f : Forecast => decide (f.trend = .increasing)) b a)

/-- Where there is a crossing, first; then by its total order. -/
theorem compareCrossing_eq (a b : Option Float) : compareCrossing a b =
    compareLex (compareOn Option.isNone) (compareOn fun x => (x.map Binary64.rank).getD 0) a b := by
  rcases a with _ | a <;> rcases b with _ | b <;> rfl

instance : Std.TransCmp fun a b : Forecast =>
    compareCrossing a.hoursToThreshold b.hoursToThreshold := by
  simp only [compareCrossing_eq]
  exact inferInstanceAs (Std.TransCmp (compareLex (compareOn fun f : Forecast =>
    f.hoursToThreshold.isNone) (compareOn fun f => (f.hoursToThreshold.map Binary64.rank).getD 0)))

def compareUrgency : Forecast → Forecast → Ordering :=
  compareLex (fun a b => compare (decide (b.trend = .increasing)) (decide (a.trend = .increasing)))
    (compareLex (fun a b => compareCrossing a.hoursToThreshold b.hoursToThreshold)
      (compareLex (compareOn entity) (compareOn metric)))

instance : Std.TransCmp compareUrgency :=
  inferInstanceAs (Std.TransCmp (compareLex _ (compareLex _
    (compareLex (compareOn entity) (compareOn metric)))))

theorem urgency_order : SortOrder fun a b : Forecast => (urgency a b).isLE :=
  .of_compare compareUrgency fun _ _ => rfl

/-- Forecasts that tie are of one metric of one entity. -/
theorem key_eq_of_urgency {a b : Forecast} (hab : (urgency a b).isLE) (hba : (urgency b a).isLE) :
    a.key = b.key := by
  have heq : compareUrgency a b = .eq := Std.OrientedCmp.isLE_antisymm hab hba
  obtain ⟨he, hm⟩ := compareLex_eq_eq.1 (compareLex_eq_eq.1 (compareLex_eq_eq.1 heq).2).2
  exact Prod.ext (Std.LawfulEqOrd.eq_of_compare he) (Std.LawfulEqOrd.eq_of_compare hm)

end Forecast

namespace FleetForecaster

variable (f : FleetForecaster) (fleet : Index String EntityRecord)

theorem repeats_candidates :
    Repeats Forecast.key (fun k => f.tracked.count k.2) (f.candidates fleet) := by
  have hkey {entity : String} {record : EntityRecord} {metric : Metric} {c : Forecast}
      (h : f.candidate? entity record metric = some c) : c.key = (entity, metric) :=
    Prod.ext (f.key_of_candidate? h).1 (f.key_of_candidate? h).2
  refine .flatMap_of_nodup Prod.fst (List.pairwise_map.2 fleet.keys_distinct)
    (fun entry _ => .under_heading _ fun _ _ => hkey) fun entry _ c hc => ?_
  obtain ⟨metric, _, hc⟩ := List.mem_filterMap.1 hc
  exact congrArg Prod.fst (hkey hc)

theorem repeats_mostUrgent (limit : Nat) :
    Repeats Forecast.key (fun k => f.tracked.count k.2) (f.mostUrgent fleet limit) :=
  ((f.repeats_candidates fleet).perm (List.mergeSort_perm _ _)).sublist (List.take_sublist _ _)

/-- The most urgent forecasts of a fleet gone through in some order. -/
def mostUrgentIn (walk : List (String × EntityRecord)) (limit : Nat) : List Forecast :=
  (Forecast.rank (walk.flatMap fun (entity, record) =>
    f.tracked.filterMap (f.candidate? entity record))).take limit

variable {fleet}

theorem mostUrgentIn_eq {walk : List (String × EntityRecord)} (h : walk.Perm fleet.entries)
    (limit : Nat) : f.mostUrgentIn walk limit = f.mostUrgent fleet limit := by
  have hsame := (f.repeats_candidates fleet).same
  have hperm : (f.candidates fleet).Perm (walk.flatMap fun (entity, record) =>
      f.tracked.filterMap (f.candidate? entity record)) := h.symm.flatMap_right _
  rw [mostUrgentIn, mostUrgent, Forecast.rank, Forecast.rank,
    Forecast.urgency_order.mergeSort_congr hperm fun a ha b hb hab hba =>
      hsame a ha b hb (Forecast.key_eq_of_urgency hab hba)]

end FleetForecaster

end FleetHealth.Capacity
