import FleetHealth.Proofs.Monitor.Runs

/-!
# Operations of the engine

What each operation of the engine comes to. A fleet forecast is served from the memo, or makes one
read and stores what it finds, or is refused and stores nothing. The other operations, against a store
that answers every read, yield results that are plain functions of the store.
-/
namespace FleetHealth

open Capacity

namespace Engine

section fleetForecast

variable (e : Engine) {now limit : Nat} (source : Source) {s : Session}

/-- The one read of a fleet forecast that the memo does not serve. -/
abbrev fleetRead : Read :=
  .fleetSamples e.settings.forecast.tracked e.settings.forecast.fleetLookbackSeconds

theorem exec_fleetForecast_hit {forecasts : List Forecast}
    (h : s.memo.get? now limit = some forecasts) :
    ∃ s', (e.fleetForecast now limit).exec source s = (.ok forecasts, s') ∧
      s'.memo = s.memo ∧ s'.journal.reads = s.journal.reads := by
  rw [fleetForecast, Run.exec_bind, Run.exec_memo]
  simp only [h]
  exact ⟨_, rfl, rfl, rfl⟩

theorem exec_fleetForecast_miss {fleet : Index String EntityRecord}
    (h : s.memo.get? now limit = none) (hf : source s.journal.reads e.fleetRead = .ok fleet) :
    ∃ s', (e.fleetForecast now limit).exec source s =
        (.ok (e.fleetForecaster.mostUrgent fleet limit), s') ∧
      s'.memo = s.memo.store now limit (e.fleetForecaster.mostUrgent fleet limit) ∧
      s'.journal.reads = s.journal.reads ++ [e.fleetRead] := by
  -- the lookup is counted before the read, and a count is no read
  let looked : Session := { s with journal := s.journal.addCount (.memoLookups false) 1 }
  have hr : _ = (_, looked.noting e.fleetRead) := Run.exec_read_ok e.label hf
  rw [fleetForecast, Run.exec_bind, Run.exec_memo]
  simp only [h]
  rw [Run.exec_bind, Run.exec_count]
  simp only
  rw [Run.exec_bind, hr]
  exact ⟨_, rfl, rfl, rfl⟩

theorem exec_fleetForecast_error {i : Interruption}
    (h : s.memo.get? now limit = none) (hf : source s.journal.reads e.fleetRead = .error i) :
    ∃ s', (e.fleetForecast now limit).exec source s = (.error i, s') ∧
      s'.memo = s.memo ∧ s'.journal.reads = s.journal.reads ++ [e.fleetRead] := by
  let looked : Session := { s with journal := s.journal.addCount (.memoLookups false) 1 }
  obtain ⟨s', hr, hm, hj⟩ := Run.exec_read_error e.label (s := looked) hf
  rw [fleetForecast, Run.exec_bind, Run.exec_memo]
  simp only [h]
  rw [Run.exec_bind, Run.exec_count]
  simp only
  rw [Run.exec_bind, hr]
  exact ⟨s', rfl, hm, hj⟩

end fleetForecast

theorem yields_detect (e : Engine) (source : Source) (entity : String) (metric : Metric)
    (history : List Sample) (current : Float) :
    Run.Yields source (e.detect entity metric history current)
      (.ok (e.detector.judge entity metric history current)) := by
  intro s
  rcases hj : e.detector.judge entity metric history current with _ | v
  · simp only [detect, hj]
    rfl
  · simp only [detect, hj]
    cases v.isAnomalous <;> rfl

theorem yields_diagnose (e : Engine) (source : Source) (entity : String) (verdicts : List Verdict)
    (time : Instant) :
    Run.Yields source (e.diagnose entity verdicts time)
      (.ok (e.scorer.diagnose entity verdicts time)) := by
  intro s
  rcases hd : e.scorer.diagnose entity verdicts time with _ | d <;>
    simp only [diagnose, hd] <;> rfl

theorem yields_correlate (e : Engine) (source : Source) (metric : Metric)
    (series : List EntitySeries) :
    Run.Yields source (e.correlate metric series) (.ok (e.correlator.correlate metric series)) :=
  fun _ => rfl

section onStore

variable (e : Engine) (s : Store) (clock : Instant)

/-- The verdict on the newest stored sample of a metric. -/
def verdictOn (entity : String) (metric : Metric) : Option Verdict :=
  (s.latest? entity metric).bind fun latest =>
    e.detector.judge entity metric
      (history e.settings.anomaly.window.toNat
        (s.recent entity metric (e.settings.anomaly.window + 1).toNat) latest) latest.value

/-- The verdicts on the tracked metrics of an entity, and their diagnosis. -/
def findingsOn (time : Instant) (entity : String) : List Verdict × Option Diagnosis :=
  let verdicts := e.settings.anomaly.tracked.filterMap (e.verdictOn s entity)
  (verdicts, e.scorer.diagnose entity verdicts time)

def fleetScanOn (time : Instant) : FleetScan :=
  let findings := s.entities.map (e.findingsOn s time)
  ⟨findings.flatMap (·.1), Diagnosis.sortByScore (findings.filterMap (·.2))⟩

def forecastOn (entity : String) (metric : Metric) : Option Forecast :=
  (e.forecast entity metric (s.recent entity metric 0xFFFFFFFFFFFFFFFF)).map
    fun f => { f with displayName := s.displayName entity }

def seriesOn (metric : Metric) : Except Interruption (Metric × List EntitySeries) :=
  let c := e.settings.correlation
  ((s.bucketedAverages clock metric c.lookbackSeconds.toNat c.bucketSeconds.toNat).mapError
    .fault).map fun series => (metric, series.values)

def pairsOn : Except Interruption (List Correlation.Pair) :=
  (e.settings.correlation.tracked.mapM (e.seriesOn s clock)).map fun groups =>
    Correlation.sortPairs
      (groups.map fun (metric, series) => e.correlator.correlate metric series).flatten

theorem yields_judgeLatest (entity : String) (metric : Metric) :
    Run.Yields (s.source clock) (e.judgeLatest entity metric) (.ok (e.verdictOn s entity metric)) := by
  have hr : Run.Yields (s.source clock)
      (Run.read e.label (.recentSamples entity metric (e.settings.anomaly.window + 1)))
      (.ok (s.recent entity metric (e.settings.anomaly.window + 1).toNat)) :=
    Run.yields_read fun _ => rfl
  have hl : Run.Yields (s.source clock) (Run.read e.label (.latestValue entity metric))
      (.ok (s.latest? entity metric)) := Run.yields_read fun _ => rfl
  refine hr.bind_ok (hl.bind_ok ?_)
  rcases h : s.latest? entity metric with _ | latest
  · simp only [verdictOn, h, Option.bind_none]
    exact Run.yields_pure none
  · simp only [verdictOn, h, Option.bind_some]
    exact e.yields_detect _ entity metric _ latest.value

theorem yields_scanEntity (entity : String) (metrics : List Metric) :
    Run.Yields (s.source clock) (e.scanEntity entity metrics)
      (.ok (metrics.filterMap (e.verdictOn s entity))) :=
  Run.Yields.mapM_found (e.yields_judgeLatest s clock entity) (Run.yields_pure _)

theorem yields_examine (time : Instant) (entity : String) :
    Run.Yields (s.source clock) (e.examine time entity) (.ok (e.findingsOn s time entity)) :=
  (e.yields_scanEntity s clock entity _).bind_ok
    ((e.yields_diagnose _ entity _ time).bind_ok (Run.yields_pure _))

theorem yields_scanFleet (time : Instant) :
    Run.Yields (s.source clock) (e.scanFleet time) (.ok (e.fleetScanOn s time)) := by
  have hl : Run.Yields (s.source clock) (Run.read e.label .listEntities) (.ok s.entities) :=
    Run.yields_read fun _ => rfl
  refine hl.bind_ok ((Run.Yields.mapM_ok (e.yields_examine s clock time)).bind_ok ?_)
  exact (Run.yields_count _ _).bind_ok ((Run.yields_emit _).bind_ok (Run.yields_pure _))

theorem yields_forecastMetric (entity : String) (metric : Metric) :
    Run.Yields (s.source clock) (e.forecastMetric entity (s.displayName entity) metric)
      (.ok (e.forecastOn s entity metric)) := by
  have hr : Run.Yields (s.source clock)
      (Run.read e.label (.recentSamples entity metric 0xFFFFFFFFFFFFFFFF))
      (.ok (s.recent entity metric 0xFFFFFFFFFFFFFFFF)) := Run.yields_read fun _ => rfl
  exact hr.bind_ok (Run.yields_pure _)

theorem yields_entityForecasts (entity : String) :
    Run.Yields (s.source clock) (e.entityForecasts entity)
      (.ok (e.settings.forecast.tracked.filterMap (e.forecastOn s entity))) := by
  have hn : Run.Yields (s.source clock) (Run.read e.label (.displayName entity))
      (.ok (s.displayName entity)) := Run.yields_read fun _ => rfl
  let tell (forecasts : List Forecast) : Run (List Forecast) := do
    Run.count .forecasts forecasts.length
    return forecasts
  exact hn.bind_ok (Run.Yields.mapM_found (k := tell) (e.yields_forecastMetric s clock entity)
    ((Run.yields_count _ _).bind_ok (Run.yields_pure _)))

theorem yields_readSeries (metric : Metric) :
    Run.Yields (s.source clock) (e.readSeries metric) (e.seriesOn s clock metric) := by
  have hr : Run.Yields (s.source clock)
      (Run.read e.label (.bucketedAverages metric e.settings.correlation.lookbackSeconds
        e.settings.correlation.bucketSeconds))
      ((s.bucketedAverages clock metric e.settings.correlation.lookbackSeconds.toNat
        e.settings.correlation.bucketSeconds.toNat).mapError .fault) :=
    Run.yields_read fun _ => rfl
  let g (series : Index String EntitySeries) : Except Interruption (Metric × List EntitySeries) :=
    .ok (metric, series.values)
  exact hr.bind (g := g) fun _ _ => (Run.yields_emit _).bind_ok (Run.yields_pure _)

theorem yields_correlations :
    Run.Yields (s.source clock) e.correlations (e.pairsOn s clock) := by
  let g (groups : List (Metric × List EntitySeries)) : Except Interruption (List Correlation.Pair) :=
    .ok (Correlation.sortPairs
      (groups.map fun (metric, series) => e.correlator.correlate metric series).flatten)
  refine (Run.Yields.mapM (e.yields_readSeries s clock)).bind (g := g) fun groups _ => ?_
  have hc : Run.Yields (s.source clock)
      (groups.mapM fun (metric, series) => e.correlate metric series)
      (.ok (groups.map fun (metric, series) => e.correlator.correlate metric series)) :=
    Run.Yields.mapM_ok fun ⟨metric, series⟩ => e.yields_correlate _ metric series
  refine hc.bind_ok ?_
  refine (Run.yields_count _ _).bind_ok ((Run.yields_count _ _).bind_ok ?_)
  exact (Run.yields_emit _).bind_ok (Run.yields_pure _)

/-- Against a store a fleet forecast always has a result, though it hangs on the memo. -/
theorem fleetForecast_ok (now limit : Nat) (session : Session) :
    ∃ forecasts, ((e.fleetForecast now limit).exec (s.source clock) session).1 = .ok forecasts := by
  rcases h : session.memo.get? now limit with _ | forecasts
  · obtain ⟨s', he, _⟩ := e.exec_fleetForecast_miss (s.source clock) h rfl
    exact ⟨_, congrArg Prod.fst he⟩
  · obtain ⟨s', he, _⟩ := e.exec_fleetForecast_hit (s.source clock) h
    exact ⟨_, congrArg Prod.fst he⟩

end onStore

end Engine

end FleetHealth
