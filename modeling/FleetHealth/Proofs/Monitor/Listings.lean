import FleetHealth.Proofs.Capacity.Urgency
import FleetHealth.Proofs.FiniteResults
import FleetHealth.Proofs.Monitor.EntityScan
import FleetHealth.Proofs.Monitor.SharedMemo

/-!
# How often things are reported

The tracked metrics are worked through as they are listed, so what is tracked twice is reported twice,
in the same words. Nothing else makes a report come again: neither the entities, nor the merging of
metrics, nor the memo.
-/
namespace FleetHealth

open Capacity

variable {α κ : Type} [DecidableEq κ]

/-- Reports of a key come at most as often as its metric is tracked and do not differ. Where no metric
is tracked twice, there is one at most. -/
structure ReportedAsTracked (tracked : List Metric) (metric : κ → Metric) (key : α → κ)
    (reports : List α) : Prop where
  repeats : Repeats key (fun k => tracked.count (metric k)) reports
  once : tracked.Nodup → (reports.map key).Nodup

theorem ReportedAsTracked.of_repeats {tracked : List Metric} {metric : κ → Metric} {key : α → κ}
    {reports : List α} (h : Repeats key (fun k => tracked.count (metric k)) reports) :
    ReportedAsTracked tracked metric key reports where
  repeats := h
  once hn := h.nodup fun _ => List.nodup_iff_count_le_one.1 hn _

def Verdict.key (v : Verdict) : String × Metric := (v.entity, v.metric)

/-- The two entities of a pair in no order, and their metric. -/
def Correlation.Pair.key (p : Correlation.Pair) : Metric × Sym2 String :=
  (p.metric, s(p.entityA, p.entityB))

theorem Store.entities_nodup (s : Store) : s.entities.Nodup :=
  List.pairwise_map.2 s.records.keys_distinct

namespace Engine

variable (e : Engine) (s : Store)

theorem key_of_verdictOn {entity : String} {metric : Metric} {v : Verdict}
    (h : e.verdictOn s entity metric = some v) : v.key = (entity, metric) := by
  obtain ⟨latest, _, hv⟩ := Option.bind_eq_some_iff.1 h
  obtain ⟨_, _, _, rfl⟩ := Detector.of_judge hv
  rfl

theorem key_of_forecastOn {entity : String} {metric : Metric} {f : Forecast}
    (h : e.forecastOn s entity metric = some f) : f.key = (entity, metric) := by
  obtain ⟨made, hm, rfl⟩ := Option.map_eq_some_iff.1 h
  obtain ⟨he, hk, _⟩ := Forecaster.of_forecast hm
  exact Prod.ext he hk

theorem repeats_fleetScanOn (time : Instant) :
    Repeats Verdict.key (fun k => e.settings.anomaly.tracked.count k.2)
      (e.fleetScanOn s time).verdicts := by
  have hverdicts : (e.fleetScanOn s time).verdicts = s.entities.flatMap fun entity =>
      e.settings.anomaly.tracked.filterMap (e.verdictOn s entity) := List.flatMap_map ..
  have hnodup : (s.entities.map id).Nodup := by
    rw [List.map_id]
    exact s.entities_nodup
  rw [hverdicts]
  refine .flatMap_of_nodup Prod.fst hnodup
    (fun entity _ => Repeats.under_heading _ fun _ _ => e.key_of_verdictOn s) fun entity _ v hv => ?_
  obtain ⟨metric, _, hv⟩ := List.mem_filterMap.1 hv
  exact congrArg Prod.fst (e.key_of_verdictOn s hv)

end Engine

namespace Correlation.Correlator

theorem repeats_correlate (c : Correlator) (metric : Metric) (series : List EntitySeries) :
    Repeats Pair.key (fun _ => 1) (c.correlate metric series) := by
  have hselected : (c.select series).Pairwise fun a b => a.entity ≠ b.entity :=
    (ranking series).distinct.sublist (List.take_sublist _ _)
  have hkeys : (((c.run metric series).related).map Pair.key).Nodup :=
    List.pairwise_map.2 ((related_distinct hselected metric).imp fun hne he =>
      hne (congrArg Prod.snd he))
  exact (Repeats.of_nodup hkeys).perm (List.mergeSort_perm _ _)

theorem metric_of_mem_correlate {c : Correlator} {metric : Metric} {series : List EntitySeries}
    {p : Pair} (h : p ∈ c.correlate metric series) : p.metric = metric := by
  rw [correlate, sortPairs, List.mem_mergeSort, mem_related] at h
  obtain ⟨_, _, _, _, rfl⟩ := h
  rfl

end Correlation.Correlator

theorem bind_eq_ok_iff {ε β γ : Type} {x : Except ε β} {f : β → Except ε γ} {c : γ} :
    x >>= f = .ok c ↔ ∃ b, x = .ok b ∧ f b = .ok c := by
  cases x with
  | error i => exact ⟨nofun, fun ⟨_, h, _⟩ => nomatch h⟩
  | ok b => exact ⟨fun h => ⟨b, rfl, h⟩, fun ⟨_, hb, h⟩ => Except.ok.inj hb ▸ h⟩

theorem map_eq_ok_iff {ε β γ : Type} {x : Except ε β} {f : β → γ} {c : γ} :
    x.map f = .ok c ↔ ∃ b, x = .ok b ∧ f b = c := by
  cases x <;> simp [Except.map]

/-- Results that tell what they were computed from stand as that stood. -/
theorem of_mapM_ok {ε β : Type} {f : α → Except ε β} (source : β → α) {l : List α} {bs : List β}
    (hsource : ∀ a b, f a = .ok b → source b = a) (h : l.mapM f = .ok bs) :
    bs.map source = l ∧ ∀ b ∈ bs, f (source b) = .ok b := by
  induction l generalizing bs with
  | nil =>
    cases h
    exact ⟨rfl, nofun⟩
  | cons a rest ih =>
    rw [List.mapM_cons] at h
    obtain ⟨b, ha, h⟩ := bind_eq_ok_iff.1 h
    obtain ⟨others, hr, h⟩ := bind_eq_ok_iff.1 h
    cases h
    obtain ⟨hmap, hall⟩ := ih hr
    have hb : source b = a := hsource a b ha
    exact ⟨by rw [List.map_cons, hb, hmap], List.forall_mem_cons.2 ⟨by rw [hb, ha], hall⟩⟩

namespace Engine

variable (e : Engine) (s : Store) (clock : Instant)

theorem metric_of_seriesOn {metric : Metric} {group : Metric × List EntitySeries}
    (h : e.seriesOn s clock metric = .ok group) : group.1 = metric := by
  obtain ⟨_, _, rfl⟩ := map_eq_ok_iff.1 h
  rfl

theorem repeats_pairsOn {pairs : List Correlation.Pair} (h : e.pairsOn s clock = .ok pairs) :
    Repeats Correlation.Pair.key (fun k => e.settings.correlation.tracked.count k.1) pairs := by
  obtain ⟨groups, hg, rfl⟩ := map_eq_ok_iff.1 h
  obtain ⟨htracked, hread⟩ := of_mapM_ok Prod.fst (fun _ _ => e.metric_of_seriesOn s clock) hg
  let found (group : Metric × List EntitySeries) : List Correlation.Pair :=
    e.correlator.correlate group.1 group.2
  have hr : Repeats Correlation.Pair.key (fun k => (groups.map Prod.fst).count k.1 * 1)
      (groups.flatMap found) := by
    refine .flatMap Prod.fst (fun group _ => e.correlator.repeats_correlate group.1 group.2)
      (fun group _ p hp => Correlation.Correlator.metric_of_mem_correlate hp)
      fun group hg group' hg' hk => ?_
    -- a metric is read the same way each time
    have he := hread group hg
    rw [hk, hread group' hg'] at he
    rw [Except.ok.inj he]
  rw [htracked] at hr
  exact (hr.mono fun k => Nat.le_of_eq (Nat.mul_one _)).perm (List.mergeSort_perm _ _)

end Engine

namespace SharedMemo

variable {settings : ForecastSettings}

/-- Served or not, a call has the most urgent forecasts of some fleet. -/
theorem mostUrgent_of_call {w : World} (hw : Faithful settings w) (m : Sharer settings)
    {now limit : Nat} {access : Access} {forecasts : List Forecast}
    (h : (w.call m.engine now limit access).result = .ok forecasts) :
    ∃ fleet, forecasts = settings.fleetForecaster.mostUrgent fleet limit := by
  rcases call_ending w m.engine now limit access with
    ⟨_, hg, hr, _⟩ | ⟨fleet, _, _, hr, _⟩ | ⟨_, _, _, hr, _⟩
  · obtain rfl := Except.ok.inj (hr.symm.trans h)
    obtain ⟨entry, he, hle, ht⟩ := Memo.get?_eq_some hg
    obtain ⟨fleet, _, hres⟩ := hw entry he
    exact ⟨fleet, by rw [ht, hres, FleetForecaster.mostUrgent_take _ _ hle]⟩
  · obtain rfl := Except.ok.inj (hr.symm.trans h)
    exact ⟨fleet, by rw [m.fleetForecaster]⟩
  · cases hr.symm.trans h

end SharedMemo

namespace Engine

variable (e : Engine)

/-- With any settings and over any store, verdicts, pairs and forecasts are reported as often as their
metric is tracked, at most, and those of one key are one and the same. Forecasts of the fleet keep to
that also where they come from a memo that engines share. -/
theorem reported_as_tracked (store : Store) (clock : Instant) (session : Session) :
    (∀ time, ∃ scan, ((e.scanFleet time).exec (store.source clock) session).1 = .ok scan ∧
      ReportedAsTracked e.settings.anomaly.tracked Prod.snd Verdict.key scan.verdicts) ∧
    (∀ pairs, (e.correlations.exec (store.source clock) session).1 = .ok pairs →
      ReportedAsTracked e.settings.correlation.tracked Prod.fst Correlation.Pair.key pairs) ∧
    (∀ entity, ∃ forecasts,
      ((e.entityForecasts entity).exec (store.source clock) session).1 = .ok forecasts ∧
        ReportedAsTracked e.settings.forecast.tracked Prod.snd Forecast.key forecasts) ∧
    ∀ (ttlSeconds : Nat) (earlier : List (SharedMemo.Step e.settings.forecast)) (now limit : Nat)
      (access : SharedMemo.Access) (forecasts : List Forecast),
      let w := (SharedMemo.World.start store ttlSeconds session.journal).run earlier
      (w.call e now limit access).result = .ok forecasts →
        ReportedAsTracked e.settings.forecast.tracked Prod.snd Forecast.key forecasts := by
  refine ⟨fun time => ⟨_, e.yields_scanFleet store clock time session, ?_⟩, fun pairs h => ?_,
    fun entity => ⟨_, e.yields_entityForecasts store clock entity session, ?_⟩, ?_⟩
  · exact .of_repeats (e.repeats_fleetScanOn store time)
  · rw [e.yields_correlations store clock session] at h
    exact .of_repeats (e.repeats_pairsOn store clock h)
  · exact .of_repeats (Repeats.under_heading _ fun _ _ => e.key_of_forecastOn store)
  · intro ttlSeconds earlier now limit access forecasts w h
    have hw : SharedMemo.Faithful e.settings.forecast w :=
      SharedMemo.run_faithful (SharedMemo.start_faithful store ttlSeconds session.journal) earlier
    obtain ⟨fleet, rfl⟩ := SharedMemo.mostUrgent_of_call hw ⟨e, rfl⟩ h
    exact .of_repeats (e.settings.forecast.fleetForecaster.repeats_mostUrgent fleet limit)

/-- Standard settings, but one metric tracked twice for verdicts. -/
def trackedTwice : Settings :=
  { Settings.standard with anomaly := { AnomalySettings.standard with tracked := [.cpu, .cpu] } }

/-- Such settings pass the check, and then a scan has two verdicts on one metric of one entity. -/
theorem scanFleet_trackedTwice :
    trackedTwice.validate = .ok () ∧
      ∃ scan, (((⟨trackedTwice, defaultLabel, []⟩ : Engine).scanFleet .epoch).exec
          (tiedStore.source .epoch) ⟨.ofTtl 300, .empty⟩).1 = .ok scan ∧
        (scan.verdicts.map Verdict.key).count ("web", .cpu) = 2 := by
  refine ⟨rfl, _, (⟨trackedTwice, defaultLabel, []⟩ : Engine).yields_scanFleet _ _ _ _, ?_⟩
  decide +kernel

end Engine

end FleetHealth
