import FleetHealth.Proofs.Diagnosis.Fleet
import FleetHealth.Proofs.FiniteResults
import FleetHealth.Proofs.Monitor.Operations

/-!
# Scans of a fleet

A fleet scan goes through the listed entities one by one and diagnoses each as it comes. Its verdicts
are those of the single scans in a row, and its diagnoses are those of the flat list of verdicts,
whatever the rules ask, whatever the source answers and however its answers change from read to read.
-/
namespace FleetHealth

/-- A later session with no reads in between and the same memo. -/
structure Session.Quiet (s s' : Session) : Prop where
  memo : s'.memo = s.memo
  reads : s'.journal.reads = s.journal.reads

namespace Engine

variable {e : Engine} {source : Source} {s s' : Session} {time : Instant}

/-- Entities scanned one after the other, each with the verdicts of its scan. The next scan starts from
where the last one ended, but for what was told and counted of its diagnosis. -/
inductive Scanned (e : Engine) (source : Source) : Session → List (String × List Verdict) → Prop
  | nil (s : Session) : Scanned e source s []
  | cons {s t t' : Session} {entity : String} {verdicts : List Verdict}
      {rest : List (String × List Verdict)}
      (scan : (e.scanEntity entity e.settings.anomaly.tracked).exec source s = (.ok verdicts, t))
      (quiet : t.Quiet t') (others : Scanned e source t' rest) :
      Scanned e source s ((entity, verdicts) :: rest)

theorem exec_diagnose (e : Engine) (source : Source) (entity : String) (verdicts : List Verdict)
    (time : Instant) (s : Session) :
    ∃ s', (e.diagnose entity verdicts time).exec source s =
      (.ok (e.scorer.diagnose entity verdicts time), s') ∧ s.Quiet s' := by
  rcases h : e.scorer.diagnose entity verdicts time with _ | d
  · simp only [diagnose, h]
    exact ⟨s, rfl, rfl, rfl⟩
  · simp only [diagnose, h]
    exact ⟨_, rfl, rfl, rfl⟩

/-- An entity is scanned, and what is found is diagnosed without another read. -/
theorem exec_examine_ok {entity : String} {found : List Verdict × Option Diagnosis}
    (h : (e.examine time entity).exec source s = (.ok found, s')) :
    ∃ t, (e.scanEntity entity e.settings.anomaly.tracked).exec source s = (.ok found.1, t) ∧
      found.2 = e.scorer.diagnose entity found.1 time ∧ t.Quiet s' := by
  obtain ⟨verdicts, t, hscan, h⟩ := Run.exec_bind_ok h
  obtain ⟨diagnosis, t', hd, h⟩ := Run.exec_bind_ok h
  obtain ⟨t'', hd', hq⟩ := e.exec_diagnose source entity verdicts time t
  rw [hd'] at hd
  cases hd
  cases h
  exact ⟨t, hscan, rfl, hq⟩

theorem scanned_of_exec {ids : List String} {examined : List (List Verdict × Option Diagnosis)}
    (h : (ids.mapM (e.examine time)).exec source s = (.ok examined, s')) :
    ∃ parts, parts.map Prod.fst = ids ∧ e.Scanned source s parts ∧
      examined = parts.map fun p => (p.2, e.scorer.diagnose p.1 p.2 time) := by
  induction ids generalizing s examined with
  | nil =>
    cases h
    exact ⟨[], rfl, .nil _, rfl⟩
  | cons entity rest ih =>
    rw [List.mapM_cons] at h
    obtain ⟨found, t, hf, h⟩ := Run.exec_bind_ok h
    obtain ⟨others, t', ho, h⟩ := Run.exec_bind_ok h
    cases h
    obtain ⟨t'', hscan, hd, hq⟩ := exec_examine_ok hf
    obtain ⟨parts, rfl, hs, rfl⟩ := ih ho
    refine ⟨(entity, found.1) :: parts, rfl, .cons hscan hq hs, ?_⟩
    rw [List.map_cons, ← hd]

theorem returns_detect (e : Engine) (entity : String) (metric : Metric) (history : List Sample)
    (current : Float) :
    Run.Returns (fun found : Option Verdict => ∀ v ∈ found, v.entity = entity)
      (e.detect entity metric history current) := by
  intro source s found s' h
  have hy := e.yields_detect source entity metric history current s
  rw [h] at hy
  intro v hv
  obtain ⟨_, _, _, rfl⟩ := Detector.of_judge ((Except.ok.inj hy).symm.trans hv)
  rfl

/-- A scan of an entity has verdicts on that entity only. -/
theorem returns_scanEntity (e : Engine) (entity : String) (metrics : List Metric) :
    Run.Returns (fun verdicts : List Verdict => ∀ v ∈ verdicts, v.entity = entity)
      (e.scanEntity entity metrics) := by
  have hlatest (metric : Metric) :
      Run.Returns (fun found : Option Verdict => ∀ v ∈ found, v.entity = entity)
        (e.judgeLatest entity metric) := by
    refine Run.Returns.after fun samples => Run.Returns.after fun latest => ?_
    cases latest with
    | none => exact Run.returns_pure nofun
    | some latest => exact e.returns_detect entity metric _ latest.value
  refine (Run.Returns.mapM hlatest).bind fun found hfound => Run.returns_pure fun v hv => ?_
  obtain ⟨o, ho, hv⟩ := List.mem_filterMap.1 hv
  exact hfound o ho v hv

theorem Scanned.entity_eq {parts : List (String × List Verdict)} (h : e.Scanned source s parts) :
    ∀ p ∈ parts, ∀ v ∈ p.2, v.entity = p.1 := by
  induction h with
  | nil s => nofun
  | cons scan _ _ ih =>
    exact List.forall_mem_cons.2 ⟨e.returns_scanEntity _ _ _ _ _ _ scan, ih⟩

theorem settled_scanEntity (h : ∀ earlier earlier' r, source earlier r = source earlier' r)
    (entity : String) (metrics : List Metric) : Run.Settled source (e.scanEntity entity metrics) := by
  have hlatest (metric : Metric) : Run.Settled source (e.judgeLatest entity metric) := by
    refine (Run.settled_read h _ _).bind fun samples => (Run.settled_read h _ _).bind fun latest => ?_
    cases latest with
    | none => exact Run.settled_pure none
    | some latest => exact (e.yields_detect source entity metric _ latest.value).settled
  exact (Run.Settled.mapM hlatest).bind fun found => Run.settled_pure _

/-- Where answers do not change, each part of a fleet scan is what a scan of the entity gives at any
time. -/
theorem Scanned.yields {parts : List (String × List Verdict)}
    (steady : ∀ earlier earlier' r, source earlier r = source earlier' r)
    (h : e.Scanned source s parts) : ∀ p ∈ parts,
      Run.Yields source (e.scanEntity p.1 e.settings.anomaly.tracked) (.ok p.2) := by
  induction h with
  | nil s => nofun
  | cons scan _ _ ih =>
    refine List.forall_mem_cons.2 ⟨fun t => ?_, ih⟩
    rw [settled_scanEntity steady _ _ t, congrArg Prod.fst scan]

/-- A scan of a fleet and the diagnosis of a flat list of verdicts agree. If no entity is listed twice,
a scan that ends well has the verdicts of the scans of the entities in the order of the list, and the
diagnoses of these verdicts taken together: the same records in the same order, higher scores first
and ties by entity. Mixing the verdicts of different entities makes no difference to that. -/
theorem scanFleet_agrees (e : Engine) (source : Source) (time : Instant) (s s' : Session)
    (scan : FleetScan)
    (distinct : ∀ ids : List String, source s.journal.reads .listEntities = .ok ids → ids.Nodup)
    (finished : (e.scanFleet time).exec source s = (.ok scan, s')) :
    ∃ parts : List (String × List Verdict),
      source s.journal.reads .listEntities = .ok (parts.map Prod.fst) ∧
      e.Scanned source (s.noting .listEntities) parts ∧
      ((∀ earlier earlier' r, source earlier r = source earlier' r) → ∀ p ∈ parts,
        Run.Yields source (e.scanEntity p.1 e.settings.anomaly.tracked) (.ok p.2)) ∧
      scan.verdicts = parts.flatMap (·.2) ∧
      scan.diagnoses = e.scorer.diagnoseFleet scan.verdicts time ∧
      scan.diagnoses.Pairwise Diagnosis.RanksHigher ∧
      ∀ mixed : List Verdict,
        (∀ entity, mixed.filter (fun v => v.entity = entity) =
          scan.verdicts.filter fun v => v.entity = entity) →
        e.scorer.diagnoseFleet mixed time = scan.diagnoses := by
  obtain ⟨ids, t, hl, h⟩ := Run.exec_bind_ok finished
  obtain ⟨examined, t', hx, h⟩ := Run.exec_bind_ok h
  -- nothing is read after the entities are examined
  cases h
  have hlisted : source s.journal.reads .listEntities = .ok ids ∧ t = s.noting .listEntities := by
    rcases hs : source s.journal.reads .listEntities with i | answer
    · obtain ⟨_, he, _⟩ := Run.exec_read_error e.label hs
      rw [he] at hl
      cases hl
    · rw [Run.exec_read_ok e.label hs] at hl
      cases hl
      exact ⟨rfl, rfl⟩
  obtain ⟨hids, rfl⟩ := hlisted
  obtain ⟨parts, rfl, hparts, rfl⟩ := scanned_of_exec hx
  have hdistinct : parts.Pairwise fun a b => a.1 ≠ b.1 := List.pairwise_map.1 (distinct _ hids)
  have hverdicts : (parts.map fun p => (p.2, e.scorer.diagnose p.1 p.2 time)).flatMap (·.1) =
      parts.flatMap (·.2) := List.flatMap_map ..
  have hdiagnoses : (parts.map fun p => (p.2, e.scorer.diagnose p.1 p.2 time)).filterMap (·.2) =
      parts.filterMap fun p => e.scorer.diagnose p.1 p.2 time := List.filterMap_map ..
  have hfleet := Scorer.diagnoseFleet_flatMap hdistinct e.scorer time hparts.entity_eq
  simp only [hverdicts, hdiagnoses]
  refine ⟨parts, hids, hparts, fun steady => hparts.yields steady, rfl, hfleet.symm,
    Scorer.ranked_diagnoses hdistinct, fun mixed hm => ?_⟩
  rw [← hfleet]
  exact Scorer.diagnoseFleet_congr e.scorer time hm

/-- Six samples for each of two entities. -/
def twoEntities : Store where
  records :=
    let values : List Float := [10.0, 11.0, 9.0, 10.0, 10.0, 50.0]
    let record : EntityRecord := ⟨none, Index.empty.insert .cpu (values.map fun v => ⟨.epoch, v⟩)⟩
    (Index.empty.insert "web" record).insert "db" record
  pinned := none

/-- A rule for one entity alone, and after it the standard ones. -/
def rulesOfWeb : List Rule :=
  ⟨.resourceExhaustion, fun f => f.verdicts.any (·.entity == "web")⟩ :: Rule.standard 2.0

/-- What a scan tells of each entity goes by the first rule that asks for it. -/
theorem exists_diagnosis_twoEntities :
    ∀ found ∈ [("db", Pattern.cpuSpike), ("web", .resourceExhaustion)],
      ∃ d ∈ ((⟨.standard, defaultLabel, rulesOfWeb⟩ : Engine).fleetScanOn twoEntities .epoch).diagnoses,
        d.entity = found.1 ∧ d.pattern = some found.2 := by
  intro found hfound
  let e : Engine := ⟨.standard, defaultLabel, rulesOfWeb⟩
  let verdicts := (e.findingsOn twoEntities .epoch found.1).1
  let listed := (verdicts.filter e.scorer.isElevated).map Deviation.ofVerdict
  have hentity : found.1 ∈ twoEntities.entities := by
    revert found
    decide
  have hlisted : listed.Pairwise (Scorer.deviatesMore · ·) ∧ listed.isEmpty = false ∧
      ¬ Binary64.roundTo (rootMeanSquare (listed.map (·.zScore.abs))) 2 < e.scorer.minScore ∧
      Rule.classify? e.rules ⟨verdicts, listed⟩ = some found.2 := by
    revert found
    decide +kernel
  obtain ⟨hsorted, hne, hscore, hpattern⟩ := hlisted
  obtain ⟨made, hmade, hname, _, hclassified⟩ :=
    Scorer.diagnose_of_pairwise found.1 .epoch rfl hsorted (List.isEmpty_eq_false_iff.1 hne) hscore
  exact ⟨made, List.mem_mergeSort.2 (List.mem_filterMap.2 ⟨_, List.mem_map_of_mem hentity, hmade⟩),
    hname, hclassified.trans hpattern⟩

theorem scanFleet_agrees_twoEntities :
    let e : Engine := ⟨.standard, defaultLabel, rulesOfWeb⟩
    let source := twoEntities.source .epoch
    let s : Session := ⟨.ofTtl 300, .empty⟩
    (∀ ids : List String, source s.journal.reads .listEntities = .ok ids → ids.Nodup) ∧
      ∃ scan s', (e.scanFleet .epoch).exec source s = (.ok scan, s') ∧
        scan.verdicts.map (·.entity) = ["db", "web"] ∧
        scan.diagnoses = e.scorer.diagnoseFleet scan.verdicts .epoch ∧
        (∃ d ∈ scan.diagnoses, d.entity = "db" ∧ d.pattern = some .cpuSpike) ∧
        ∃ d ∈ scan.diagnoses, d.entity = "web" ∧ d.pattern = some .resourceExhaustion := by
  intro e source s
  have hdistinct (ids : List String) (h : source s.journal.reads .listEntities = .ok ids) :
      ids.Nodup := by
    obtain rfl : ["db", "web"] = ids := Except.ok.inj h
    decide
  have hscan := e.yields_scanFleet twoEntities .epoch .epoch s
  have hverdicts : (e.fleetScanOn twoEntities .epoch).verdicts.map (·.entity) = ["db", "web"] := by
    decide +kernel
  rcases hx : (e.scanFleet .epoch).exec source s with ⟨r, s'⟩
  rw [show twoEntities.source .epoch = source from rfl, hx] at hscan
  obtain rfl : r = _ := hscan
  obtain ⟨_, _, _, _, _, hd, _⟩ := scanFleet_agrees e source .epoch s s' _ hdistinct hx
  exact ⟨hdistinct, _, s', rfl, hverdicts, hd,
    exists_diagnosis_twoEntities ("db", _) (by decide),
    exists_diagnosis_twoEntities ("web", _) (by decide)⟩

end Engine

end FleetHealth
