import FleetHealth.Proofs.Capacity.Eligibility
import FleetHealth.Proofs.Monitor.Operations
import FleetHealth.Proofs.Series
import FleetHealth.Proofs.Store.Lookback

/-!
# Forecasts of one entity and of the fleet

The forecasts of one entity are made from everything stored of it, those of the fleet from one read
of what is recent. Where a series is recent as a whole and short enough not to be thinned, both ways
come to the same forecast.
-/
namespace FleetHealth

open Capacity

namespace Engine

variable (e : Engine) (s : Store)

theorem forecastOn_eq_some_iff (entity : String) {metric : Metric}
    (hlong : (s.series entity metric).length < UInt64.size) (c : Forecast) :
    e.forecastOn s entity metric = some c ↔ ∃ made,
      e.fleetForecaster.forecaster.forecast entity metric (s.series entity metric) = some made ∧
        c = { made with displayName := s.displayName entity } := by
  have hall : s.recent entity metric 0xFFFFFFFFFFFFFFFF = s.series entity metric := by
    rw [Store.recent, Series.takeLast, Nat.sub_eq_zero_of_le (Nat.le_of_lt_succ hlong),
      List.drop_zero]
  rw [forecastOn, forecast, hall, Option.map_eq_some_iff]
  simp only [eq_comm]

theorem mem_entityForecasts_iff (entity : String) {metric : Metric}
    (tracked : metric ∈ e.settings.forecast.tracked) (c : Forecast) :
    (c ∈ e.settings.forecast.tracked.filterMap (e.forecastOn s entity) ∧ c.metric = metric) ↔
      e.forecastOn s entity metric = some c := by
  have hkey {m : Metric} (h : e.forecastOn s entity m = some c) : c.metric = m := by
    obtain ⟨made, hm, rfl⟩ := Option.map_eq_some_iff.1 h
    exact (Forecaster.of_forecast hm).2.1
  rw [List.mem_filterMap]
  constructor
  · rintro ⟨⟨m, _, hm⟩, rfl⟩
    rwa [hkey hm]
  · intro h
    exact ⟨⟨metric, tracked, h⟩, hkey h⟩

/-- A fleet read keeps a series that is recent as a whole. -/
theorem stored_fleetSamples {now clock : Instant} {metrics : List Metric} {lookback : Nat}
    {entity : String} {metric : Metric} (pinned : s.pinned = some now) (tracked : metric ∈ metrics)
    (recent : ∀ cutoff, now.shift? (-(lookback * nanosPerSecond)) = some cutoff →
      ∀ x ∈ s.series entity metric, cutoff ≤ x.time) :
    stored (s.fleetSamples clock metrics lookback) entity metric = s.series entity metric := by
  have hcutoff : ∀ x ∈ s.series entity metric, s.cutoff clock lookback ≤ x.time := by
    intro x hx
    have hnanos : ((lookback * 1000000000 : ℕ) : ℤ) = lookback * nanosPerSecond := Int.natCast_mul ..
    rw [Store.cutoff, Store.cutoffWithin_eq, pinned, Option.getD_some, hnanos]
    rcases hc : now.shift? (-(lookback * nanosPerSecond)) with _ | cutoff
    · exact Instant.first_le x.time
    · exact recent cutoff hc x hx
  exact (s.series_fleetSamplesWithin clock _ entity tracked).trans
    (Series.since_eq_self hcutoff)

/-- Of a series that is recent as a whole and not thinned, the forecasts of the entity and those of the
fleet, made afresh and with room for all, tell the same. -/
theorem forecasts_agree (now : Instant) (entity : String) (metric : Metric) (moment limit : Nat)
    (clock clock' : Instant) (session session' : Session)
    (pinned : s.pinned = some now)
    (tracked : metric ∈ e.settings.forecast.tracked)
    (short : (s.series entity metric).length ≤ e.settings.forecast.maxPoints.toNat)
    (recent : ∀ cutoff,
      now.shift? (-(e.settings.forecast.fleetLookbackSeconds.toNat * nanosPerSecond)) = some cutoff →
        ∀ x ∈ s.series entity metric, cutoff ≤ x.time)
    (covered : (e.fleetForecaster.candidates (s.fleetSamples clock' e.settings.forecast.tracked
      e.settings.forecast.fleetLookbackSeconds.toNat)).length ≤ limit)
    (cold : session'.memo.entry = none) :
    ∃ single fleet,
      ((e.entityForecasts entity).exec (s.source clock) session).1 = .ok single ∧
      ((e.fleetForecast moment limit).exec (s.source clock') session').1 = .ok fleet ∧
      ((∃ f ∈ single, f.metric = metric) ↔ ∃ f ∈ fleet, f.entity = entity ∧ f.metric = metric) ∧
      ∀ f ∈ single, f.metric = metric →
        ∀ g ∈ fleet, g.entity = entity → g.metric = metric → f = g := by
  let fleet := s.fleetSamples clock' e.settings.forecast.tracked
    e.settings.forecast.fleetLookbackSeconds.toNat
  have hstored : stored fleet entity metric = s.series entity metric :=
    stored_fleetSamples s pinned tracked recent
  have hsingle := e.mem_entityForecasts_iff s entity tracked
  have hon := e.forecastOn_eq_some_iff s entity
    (Nat.lt_of_le_of_lt short (UInt64.toNat_lt _))
  have hfleet (c : Forecast) :
      (c ∈ e.fleetForecaster.mostUrgent fleet limit ∧ c.entity = entity ∧ c.metric = metric) ↔
        e.forecastOn s entity metric = some c := by
    have hmin : 0 < e.fleetForecaster.forecaster.minSamples :=
      Nat.lt_of_lt_of_le Nat.zero_lt_two (Nat.le_max_right ..)
    rw [e.fleetForecaster.mem_mostUrgent_iff covered hmin tracked, hstored,
      thin_of_length_le (show _ ≤ e.fleetForecaster.maxPoints from short), hon]
    refine exists_congr fun made => and_congr_right fun hm => ?_
    -- a series with a forecast is not empty, so the read has a record of its entity
    have hne : stored fleet entity metric ≠ [] := hstored ▸ Forecaster.ne_nil_of_forecast hm
    rcases hg : fleet.get? entity with _ | record
    · exact absurd (by rw [stored, hg]; rfl) hne
    · rw [Option.bind_some, s.displayName_fleetSamplesWithin _ _ _ hg]
  have hmemo : session'.memo.get? moment limit = none := by
    rw [Memo.get?, cold]
    rfl
  obtain ⟨_, hforecast, _⟩ := e.exec_fleetForecast_miss (s.source clock') hmemo rfl
  refine ⟨_, _, e.yields_entityForecasts s clock entity session, congrArg Prod.fst hforecast, ?_, ?_⟩
  · exact exists_congr fun c => (hsingle c).trans (hfleet c).symm
  · intro f hf hfm g hg hge hgm
    have hsome := (hsingle f).1 ⟨hf, hfm⟩
    rw [(hfleet g).1 ⟨hg, hge, hgm⟩] at hsome
    exact (Option.some.inj hsome).symm

/-- A rise over five hours, ten minutes after its end. -/
def risingStore : Store where
  records := Index.empty.insert "web" ⟨some "Web", Index.empty.insert .cpu FleetForecaster.fiveHours⟩
  pinned := some ⟨15000, 0, by decide⟩

theorem forecasts_agree_risingStore :
    let e : Engine := ⟨.standard, defaultLabel, []⟩
    let session : Session := ⟨.ofTtl 300, .empty⟩
    ∃ single fleet,
      ((e.entityForecasts "web").exec (risingStore.source .epoch) session).1 = .ok single ∧
      ((e.fleetForecast 0 1).exec (risingStore.source .epoch) session).1 = .ok fleet ∧
      ∃ f ∈ single, f.metric = .cpu ∧ f ∈ fleet := by
  intro e session
  have hcutoff : (⟨15000, 0, by decide⟩ : Instant).shift?
      (-(e.settings.forecast.fleetLookbackSeconds.toNat * nanosPerSecond)) =
        some ⟨-6600, 0, by decide⟩ := by decide +kernel
  have hrecent : ∀ x ∈ risingStore.series "web" .cpu, (⟨-6600, 0, by decide⟩ : Instant) ≤ x.time := by
    decide +kernel
  obtain ⟨single, fleet, hs, hf, hiff, heq⟩ :=
    forecasts_agree e risingStore ⟨15000, 0, by decide⟩ "web" .cpu 0 1 .epoch .epoch session session
      rfl (by decide) (by decide +kernel)
      (fun cutoff hc => by rwa [← Option.some.inj (hcutoff.symm.trans hc)]) (by decide +kernel) rfl
  obtain ⟨f, hmade⟩ := Option.isSome_iff_exists.1
    (show (e.forecastOn risingStore "web" .cpu).isSome by decide +kernel)
  have hsingle : single = e.settings.forecast.tracked.filterMap (e.forecastOn risingStore "web") :=
    Except.ok.inj (hs.symm.trans (e.yields_entityForecasts risingStore .epoch "web" session))
  obtain ⟨hmem, hm⟩ := (e.mem_entityForecasts_iff risingStore "web" (by decide) f).2 hmade
  rw [← hsingle] at hmem
  obtain ⟨g, hg, hge, hgm⟩ := hiff.1 ⟨f, hmem, hm⟩
  exact ⟨single, fleet, hs, hf, f, hmem, hm, heq f hmem hm g hg hge hgm ▸ hg⟩

end Engine

end FleetHealth
