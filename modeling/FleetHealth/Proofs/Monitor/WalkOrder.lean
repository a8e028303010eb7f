import FleetHealth.Proofs.Capacity.Urgency
import FleetHealth.Proofs.Correlation.Selection
import FleetHealth.Proofs.Monitor.Refusals
import FleetHealth.Proofs.Store.WalkedReads
import FleetHealth.Proofs.Store.Walks

/-!
# Results in any order

Operations against a store that was loaded from a snapshot, with every hash map on the way walked in
whatever order: the series of an entity, the entities of the store, and the maps that are read from it.
Each collects what it walks and then sorts it by a total order, so it comes out as if the maps were
walked in the order of their keys.
-/
namespace FleetHealth

/-- Two runs end alike: interrupted in the same way, or with results that are related, and in the same
session. -/
inductive Alike {α β : Type} (R : α → β → Prop) :
    Except Interruption α × Session → Except Interruption β × Session → Prop
  | ok {a : α} {b : β} (s : Session) (related : R a b) : Alike R (.ok a, s) (.ok b, s)
  | error (i : Interruption) (s : Session) : Alike R (.error i, s) (.error i, s)

namespace Alike

variable {α α' β β' : Type} {source : Source} {s : Session} {R : α → β → Prop} {Q : α' → β' → Prop}

theorem eq {o o' : Except Interruption α × Session} (h : Alike Eq o o') : o = o' := by
  cases h with
  | ok s related => rw [related]
  | error i s => rfl

theorem refl (o : Except Interruption α × Session) : Alike Eq o o := by
  obtain ⟨i | a, s⟩ := o
  · exact .error i s
  · exact .ok s rfl

theorem bind {x : Run α} {y : Run β} {f : α → Run α'} {g : β → Run β'}
    (h : Alike R (x.exec source s) (y.exec source s))
    (hf : ∀ a b t, R a b → Alike Q ((f a).exec source t) ((g b).exec source t)) :
    Alike Q ((x >>= f).exec source s) ((y >>= g).exec source s) := by
  rw [Run.exec_bind, Run.exec_bind]
  generalize x.exec source s = o at h
  generalize y.exec source s = o' at h
  cases h with
  | ok t related => exact hf _ _ t related
  | error i t => exact .error i t

theorem mapM {γ : Type} {f : γ → Run α} {g : γ → Run β} {l : List γ}
    (h : ∀ c s, Alike R ((f c).exec source s) ((g c).exec source s)) :
    Alike (List.Forall₂ R) ((l.mapM f).exec source s) ((l.mapM g).exec source s) := by
  induction l generalizing s with
  | nil => exact .ok s .nil
  | cons c rest ih =>
    rw [List.mapM_cons, List.mapM_cons]
    exact (h c s).bind fun a b t hab => ih.bind fun as bs t hrest => .ok t (.cons hab hrest)

/-- A read that ends well has the answer of the source. -/
theorem read (source : Source) (s : Session) (label : String) (r : Read) :
    Alike (fun a b => a = b ∧ source s.journal.reads r = .ok a)
      ((Run.read label r).exec source s) ((Run.read label r).exec source s) := by
  rcases hr : source s.journal.reads r with i | a
  · obtain ⟨t, he, _⟩ := Run.exec_read_error label hr
    rw [he]
    exact .error i t
  · rw [Run.exec_read_ok label hr]
    exact .ok _ ⟨rfl, rfl⟩

end Alike

namespace Engine

variable (e : Engine) (orders : Orders)

/-- The series of a metric as they come from the map that is read. -/
def readSeriesIn (metric : Metric) : Run (Metric × List EntitySeries) := do
  let s := e.settings.correlation
  let series ← Run.read e.label (.bucketedAverages metric s.lookbackSeconds s.bucketSeconds)
  Run.emit (.seriesRead metric (series : Index String EntitySeries).size)
  let session ← get
  return (metric, (orders.averaged session.journal.reads series).map (·.2))

def correlationsIn : Run (List Correlation.Pair) := do
  let groups ← e.settings.correlation.tracked.mapM (e.readSeriesIn orders)
  e.relateAll groups

/-- Forecast a fleet that was read, as it comes from the map, and remember the forecasts. -/
def forecastWalked (now limit : Nat) (fleet : Index String EntityRecord) :
    Run (List Capacity.Forecast) := do
  let session ← get
  let forecasts := e.fleetForecaster.mostUrgentIn (orders.sampled session.journal.reads fleet) limit
  Run.setMemo ((← Run.memo).store now limit forecasts)
  Run.count .forecasts forecasts.length
  Run.count (.runs .forecast) 1
  Run.emit (.forecastRun e.label forecasts false)
  return forecasts

def fleetForecastIn (now limit : Nat) : Run (List Capacity.Forecast) := do
  match (← Run.memo).get? now limit with
  | some forecasts => do
    Run.count (.memoLookups true) 1
    Run.emit (.forecastRun e.label forecasts true)
    return forecasts
  | none => do
    Run.count (.memoLookups false) 1
    let fleet ← Run.read e.label e.fleetRead
    e.forecastWalked orders now limit fleet

theorem fleetForecastIn_eq (now limit : Nat) :
    e.fleetForecastIn orders now limit = e.fleetForecast now limit := by
  have hwalked : e.forecastWalked orders now limit = fun fleet => do
      let forecasts := e.fleetForecaster.mostUrgent fleet limit
      Run.setMemo ((← Run.memo).store now limit forecasts)
      Run.count .forecasts forecasts.length
      Run.count (.runs .forecast) 1
      Run.emit (.forecastRun e.label forecasts false)
      return forecasts := by
    funext fleet
    unfold forecastWalked
    simp only [e.fleetForecaster.mostUrgentIn_eq (orders.sampled_perm _ fleet) limit]
    rfl
  unfold fleetForecastIn
  rw [hwalked]
  rfl

/-- One series for each entity, the same ones, in whatever order. -/
structure SameSeries (g g' : Metric × List EntitySeries) : Prop where
  metric : g.1 = g'.1
  perm : g.2.Perm g'.2
  distinct : g.2.Pairwise fun a b => a.entity ≠ b.entity

variable {orders} {s : Store} {clock : Instant}

theorem readSeriesIn_alike (metric : Metric) (session : Session) :
    Alike SameSeries ((e.readSeriesIn orders metric).exec (s.source clock) session)
      ((e.readSeries metric).exec (s.source clock) session) := by
  refine (Alike.read _ session e.label _).bind fun series _ t ⟨he, ha⟩ => ?_
  subst he
  have hanswer : s.bucketedAverages clock metric e.settings.correlation.lookbackSeconds.toNat
      e.settings.correlation.bucketSeconds.toNat = .ok series := by
    rw [Store.source, Store.answer] at ha
    generalize s.bucketedAverages clock metric _ _ = answer at ha ⊢
    rcases answer with fault | averages
    · cases ha
    · exact congrArg Except.ok (Except.ok.inj ha)
  have hperm := (orders.averaged_perm t.journal.reads series).map Prod.snd
  refine .ok _ ⟨rfl, hperm, ?_⟩
  exact (hperm.pairwise_iff fun h => h.symm).2 (Store.averages_distinct hanswer)

theorem mapM_eq_of_forall₂ {α β : Type} {R : α → α → Prop} {f : α → Run β} {l l' : List α}
    (h : List.Forall₂ R l l') (hf : ∀ a b, R a b → f a = f b) : l.mapM f = l'.mapM f := by
  induction h with
  | nil => rfl
  | cons hab _ ih => rw [List.mapM_cons, List.mapM_cons, ih, hf _ _ hab]

theorem correlate_eq {g g' : Metric × List EntitySeries} (h : SameSeries g g') :
    e.correlate g.1 g.2 = e.correlate g'.1 g'.2 := by
  unfold correlate
  rw [h.metric, e.correlator.run_perm _ h.perm h.distinct]

theorem relateAll_eq {groups groups' : List (Metric × List EntitySeries)}
    (h : List.Forall₂ SameSeries groups groups') : e.relateAll groups = e.relateAll groups' := by
  rw [relateAll, relateAll, mapM_eq_of_forall₂ h fun _ _ hg => e.correlate_eq hg, h.length_eq]

theorem correlationsIn_eq (session : Session) :
    (e.correlationsIn orders).exec (s.source clock) session =
      e.correlations.exec (s.source clock) session := by
  refine Alike.eq ?_
  refine (Alike.mapM fun metric t => e.readSeriesIn_alike metric t).bind fun groups groups' t h => ?_
  rw [e.relateAll_eq h]
  exact Alike.refl _

end Engine

/-- Perform an operation with the maps that it reads walked in some order. -/
def Operation.performIn (e : Engine) (orders : Orders) : (o : Operation) → Run o.Result
  | .correlations => e.correlationsIn orders
  | .fleetForecast now limit => e.fleetForecastIn orders now limit
  | o => o.perform e

/-- An operation ends as it does with every map walked in the order of its keys, and leaves the same
session behind. -/
theorem Operation.performIn_eq (o : Operation) (e : Engine) (orders : Orders) (s : Store)
    (clock : Instant) (session : Session) :
    (o.performIn e orders).exec (s.sourceIn clock orders) session =
      (o.perform e).exec (s.source clock) session := by
  rw [Store.sourceIn_eq]
  cases o with
  | correlations => exact e.correlationsIn_eq session
  | fleetForecast now limit =>
    exact congrArg (fun run : Run (List Capacity.Forecast) => run.exec (s.source clock) session)
      (e.fleetForecastIn_eq orders now limit)
  | _ => rfl

/-- With a pinned now a store does not look at the clock. -/
theorem Store.source_of_pinned {s : Store} {now : Instant} (h : s.pinned = some now)
    (clock clock' : Instant) : s.source clock = s.source clock' := by
  have hcutoff : s.cutoffWithin clock = s.cutoffWithin clock' := by
    funext nanos
    rw [cutoffWithin, cutoffWithin, h, Option.getD_some, Option.getD_some]
  have hrecent (metric : Metric) (nanos : Nat) :
      s.recentWithin clock metric nanos = s.recentWithin clock' metric nanos := by
    rw [recentWithin, recentWithin, hcutoff]
  funext earlier r
  cases r with
  | bucketedAverages metric lookback width =>
    simp only [source, answer, bucketedAverages, averagesWithin, hrecent]
  | fleetSamples metrics lookback =>
    simp only [source, answer, fleetSamples, fleetSamplesWithin, hcutoff]
  | _ => rfl

/-- Against a store, sessions with nothing in the memo give an operation one outcome. -/
theorem Operation.outcome_of_cold (o : Operation) (e : Engine) (s : Store) (clock : Instant)
    {session session' : Session} (cold : session.memo.entry = none)
    (cold' : session'.memo.entry = none) :
    o.outcome e s clock session = o.outcome e s clock session' := by
  cases o with
  | detect entity metric history current =>
    exact (e.yields_detect _ entity metric history current).settled session session'
  | diagnose entity verdicts time =>
    exact (e.yields_diagnose _ entity verdicts time).settled session session'
  | forecast => rfl
  | correlate metric series => exact (e.yields_correlate _ metric series).settled session session'
  | scanEntity entity metrics =>
    exact (e.yields_scanEntity s clock entity metrics).settled session session'
  | scanFleet time => exact (e.yields_scanFleet s clock time).settled session session'
  | correlations => exact (e.yields_correlations s clock).settled session session'
  | entityForecasts entity => exact (e.yields_entityForecasts s clock entity).settled session session'
  | fleetForecast now limit =>
    have hmiss {session : Session} (h : session.memo.entry = none) :
        session.memo.get? now limit = none := by
      rw [Capacity.Memo.get?, h]
      rfl
    obtain ⟨_, h, _⟩ := e.exec_fleetForecast_miss (s.source clock) (hmiss cold) rfl
    obtain ⟨_, h', _⟩ := e.exec_fleetForecast_miss (s.source clock) (hmiss cold') rfl
    exact (congrArg Prod.fst h).trans (congrArg Prod.fst h').symm

/-- The same diagnosis, stamped with another time. -/
def Diagnosis.stamped (time : Instant) (d : Diagnosis) : Diagnosis := { d with time := time }

def FleetScan.stamped (scan : FleetScan) (time : Instant) : FleetScan :=
  { scan with diagnoses := scan.diagnoses.map (Diagnosis.stamped time) }

theorem Scorer.diagnose_stamped (s : Scorer) (entity : String) (verdicts : List Verdict)
    (time time' : Instant) : s.diagnose entity verdicts time' =
      (s.diagnose entity verdicts time).map (Diagnosis.stamped time') := by
  simp only [diagnose]
  split <;> rfl

/-- The time of a diagnosis has no part in its place. -/
theorem Diagnosis.sortByScore_stamped (time : Instant) (ds : List Diagnosis) :
    sortByScore (ds.map (stamped time)) = (sortByScore ds).map (stamped time) :=
  (List.map_mergeSort (r := precedes) (s := precedes) (f := stamped time) fun _ _ _ _ => rfl).symm

namespace Engine

theorem fleetScanOn_stamped (e : Engine) (s : Store) (time time' : Instant) :
    e.fleetScanOn s time' = (e.fleetScanOn s time).stamped time' := by
  have hverdicts : (s.entities.map (e.findingsOn s time')).flatMap (·.1) =
      (s.entities.map (e.findingsOn s time)).flatMap (·.1) := by
    rw [List.flatMap_map, List.flatMap_map]
    rfl
  have hdiagnoses : (s.entities.map (e.findingsOn s time')).filterMap (·.2) =
      ((s.entities.map (e.findingsOn s time)).filterMap (·.2)).map (Diagnosis.stamped time') := by
    rw [List.filterMap_map, List.filterMap_map, List.map_filterMap]
    congr 1
    funext entity
    exact e.scorer.diagnose_stamped entity _ time time'
  simp only [fleetScanOn, FleetScan.stamped, hverdicts, hdiagnoses, Diagnosis.sortByScore_stamped]

end Engine

/-- Nothing depends on the order of a snapshot or of a hash map. A snapshot with one entry an entity
and a pinned now is loaded into one store whichever way it is walked. Whatever the orders in which that
store and its answers are walked, each read has the answer that it has in key order, each operation the
outcome, at any time of the clock and from any session with nothing in its memo, and scans at
different times differ in the time stamped on their diagnoses only. -/
theorem order_independent (snapshot : Snapshot) (now : Instant)
    (distinct : (snapshot.entities.map (·.entity)).Nodup) (pinned : snapshot.asOf = some now)
    (walk : snapshot.Walk) (orders : Orders) (e : Engine) (clock clock' : Instant) :
    let store := Store.ofSnapshot snapshot
    let source := (Store.ofWalk walk).sourceIn clock orders
    Store.ofWalk walk = store ∧
      (∀ earlier r, source earlier r = store.answer clock' r) ∧
      ∀ session session' : Session, session.memo.entry = none → session'.memo.entry = none →
        (∀ o : Operation,
          ((o.performIn e orders).exec source session).1 = o.outcome e store clock' session') ∧
        ∀ time time', ∃ scan,
          ((e.scanFleet time).exec source session).1 = .ok scan ∧
          (Operation.scanFleet time').outcome e store clock' session' = .ok (scan.stamped time') := by
  intro store source
  have hstore : Store.ofWalk walk = store := Store.ofWalk_eq walk distinct
  have hpinned : store.pinned = some now := (Store.pinned_ofSnapshot snapshot).trans pinned
  have hclock : store.source clock = store.source clock' := Store.source_of_pinned hpinned ..
  have hsource : source = store.source clock' := by
    rw [← hclock, ← Store.sourceIn_eq store clock orders, ← hstore]
  refine ⟨hstore, fun earlier r => congrFun (congrFun hsource earlier) r,
    fun session session' cold cold' => ⟨fun o => ?_, fun time time' => ?_⟩⟩
  · have ho := o.performIn_eq e orders store clock session
    rw [Store.sourceIn_eq, hclock, ← hsource] at ho
    rw [ho, hsource]
    exact o.outcome_of_cold e store clock' cold cold'
  · refine ⟨e.fleetScanOn store time, ?_, ?_⟩
    · rw [hsource]
      exact e.yields_scanFleet store clock' time session
    · rw [← e.fleetScanOn_stamped store time time']
      exact e.yields_scanFleet store clock' time' session'

/-- Two entities, with a name and two series for the first. -/
def twoEntries : Snapshot where
  asOf := some .epoch
  entities :=
    [⟨"web", some "Web",
        (Index.empty.insert .cpu [⟨.epoch, 1.0⟩]).insert .memory [⟨.epoch, 2.0⟩]⟩,
      ⟨"db", none, Index.empty.insert .cpu [⟨.epoch, 3.0⟩]⟩]

/-- The way through a snapshot from its end, each entity's series from its end. -/
def Snapshot.backwards (snapshot : Snapshot) : snapshot.Walk where
  visits := snapshot.entities.reverse.map fun e => (e, e.series.entries.reverse)
  entities := by
    rw [List.map_map]
    exact (List.Perm.of_eq (List.map_id _)).trans (List.reverse_perm _)
  series v hv := by
    obtain ⟨e, _, rfl⟩ := List.mem_map.1 hv
    exact List.reverse_perm _

def Orders.backwards : Orders where
  stored _ i := i.entries.reverse
  averaged _ i := i.entries.reverse
  sampled _ i := i.entries.reverse
  stored_perm _ _ := List.reverse_perm _
  averaged_perm _ _ := List.reverse_perm _
  sampled_perm _ _ := List.reverse_perm _

theorem order_independent_twoEntries :
    let e : Engine := ⟨.standard, Engine.defaultLabel, []⟩
    let session : Session := ⟨.ofTtl 300, .empty⟩
    (twoEntries.entities.map (·.entity)).Nodup ∧ twoEntries.asOf = some .epoch ∧
      Store.ofWalk twoEntries.backwards = Store.ofSnapshot twoEntries ∧
      ∀ o : Operation,
        ((o.performIn e .backwards).exec
            ((Store.ofWalk twoEntries.backwards).sourceIn .epoch .backwards) session).1 =
          o.outcome e (Store.ofSnapshot twoEntries) .epoch session := by
  intro e session
  have hdistinct : (twoEntries.entities.map (·.entity)).Nodup := by decide
  obtain ⟨hstore, _, hoperations⟩ := order_independent twoEntries .epoch hdistinct rfl
    twoEntries.backwards .backwards e .epoch .epoch
  exact ⟨hdistinct, rfl, hstore, (hoperations session session rfl rfl).1⟩

end FleetHealth
