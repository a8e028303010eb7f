import FleetHealth.Proofs.Monitor.FleetScan
import FleetHealth.Proofs.Monitor.Safety

/-!
# Counters and events account for results

A journal only grows. What an operation that ends well adds to it tells its results, each once: counters
by their numbers, events by the anomalous verdicts in their order and by the diagnoses. Operations inside
others tell their own part, and a forecast from the memo is told no second time.
-/
namespace FleetHealth

open Capacity

namespace Event

/-- The verdict that an event reports. -/
def verdict? : Event → Option Verdict
  | anomalyDetected _ v => some v
  | _ => none

/-- The diagnosis that an event reports. -/
def diagnosis? : Event → Option Diagnosis
  | diagnosed _ d => some d
  | _ => none

/-- The name under which an event is written. -/
def IsNamed (e : Event) (name : String) : Prop := ("event", Json.string name) ∈ e.fields

theorem isSome_verdict? (e : Event) : e.verdict?.isSome ↔ e.IsNamed "anomaly_detected" := by
  cases e <;> simp [verdict?, IsNamed, fields]

theorem isSome_diagnosis? (e : Event) : e.diagnosis?.isSome ↔ e.IsNamed "composite_anomaly" := by
  cases e <;> simp [diagnosis?, IsNamed, fields]

theorem level_of_diagnosis? {e : Event} {d : Diagnosis} (h : e.diagnosis? = some d) :
    e.level = .warn ↔ d.severity = .high ∨ d.severity = .critical := by
  cases e with
  | diagnosed source diagnosis =>
    obtain rfl := Option.some.inj h
    rcases hs : diagnosis.severity with _ | _ | _ | _ <;> simp [level, hs, Severity.isUrgent]
  | _ => cases h

end Event

/-- Results of operations, as far as they are told. -/
structure Output where
  verdicts : List Verdict
  diagnoses : List Diagnosis
  pairs : List Correlation.Pair
  /-- Forecasts that were made, not those that came from a memo. -/
  forecasts : List Forecast
  fleetForecasts : Nat

namespace Output

def none : Output := ⟨[], [], [], [], 0⟩

def ofVerdicts (verdicts : List Verdict) : Output := { none with verdicts := verdicts }

def ofDiagnoses (diagnoses : List Diagnosis) : Output := { none with diagnoses := diagnoses }

def ofPairs (pairs : List Correlation.Pair) : Output := { none with pairs := pairs }

def ofForecasts (forecasts : List Forecast) : Output := { none with forecasts := forecasts }

/-- A fleet forecast for which these were made. -/
def ofFleetForecast (made : List Forecast) : Output :=
  { none with forecasts := made, fleetForecasts := 1 }

instance : Append Output where
  append o p := ⟨o.verdicts ++ p.verdicts, o.diagnoses ++ p.diagnoses, o.pairs ++ p.pairs,
    o.forecasts ++ p.forecasts, o.fleetForecasts + p.fleetForecasts⟩

def concat (outputs : List Output) : Output := outputs.foldr (· ++ ·) none

@[simp]
theorem mk_append_mk (vs vs' : List Verdict) (ds ds' : List Diagnosis)
    (ps ps' : List Correlation.Pair) (fs fs' : List Forecast) (n n' : Nat) :
    (⟨vs, ds, ps, fs, n⟩ ++ ⟨vs', ds', ps', fs', n'⟩ : Output) =
      ⟨vs ++ vs', ds ++ ds', ps ++ ps', fs ++ fs', n + n'⟩ := rfl

theorem none_append (o : Output) : none ++ o = o := by
  change Output.mk _ _ _ _ _ = o
  simp [none]

theorem append_none (o : Output) : o ++ none = o := by
  change Output.mk _ _ _ _ _ = o
  simp [none]

@[simp]
theorem concat_cons (o : Output) (outputs : List Output) :
    concat (o :: outputs) = o ++ concat outputs := rfl

/-- What was found for each of some metrics is the list of what was found at all. -/
theorem concat_found (found : List (Option Verdict)) :
    concat (found.map fun v => ofVerdicts v.toList) = ofVerdicts (found.filterMap id) := by
  induction found with
  | nil => rfl
  | cons v rest ih =>
    rw [List.map_cons, concat_cons, ih]
    cases v <;> rfl

theorem concat_examined (examined : List (List Verdict × Option Diagnosis)) :
    concat (examined.map fun x => ofVerdicts x.1 ++ ofDiagnoses x.2.toList) =
      ofVerdicts (examined.flatMap (·.1)) ++ ofDiagnoses (examined.filterMap (·.2)) := by
  induction examined with
  | nil => rfl
  | cons x rest ih =>
    obtain ⟨verdicts, diagnosis⟩ := x
    rw [List.map_cons, concat_cons, ih]
    cases diagnosis <;> simp [ofVerdicts, ofDiagnoses, none]

end Output

/-- The journal tells the results, each of them once, and nothing that is no result. -/
structure Journal.AccountsFor (j : Journal) (o : Output) : Prop where
  verdicts : j.growth .verdicts = o.verdicts.length
  anomalies : ∀ metric, j.growth (.anomalies metric) =
    o.verdicts.countP fun v => v.isAnomalous && v.metric = metric
  diagnoses : ∀ severity, j.growth (.diagnoses severity) =
    o.diagnoses.countP fun d => d.severity = severity
  pairs : j.growth .correlatedPairs = o.pairs.length
  forecasts : j.growth .forecasts = o.forecasts.length
  lookups : j.growth (.memoLookups true) + j.growth (.memoLookups false) = o.fleetForecasts
  misses : j.growth (.memoLookups false) = j.reads.countP fun r => r.operation = "fleet_samples"
  anomalyEvents : j.events.filterMap Event.verdict? = o.verdicts.filter (·.isAnomalous)
  diagnosisEvents : (j.events.filterMap Event.diagnosis?).Perm o.diagnoses

namespace Journal.AccountsFor

theorem append {j k : Journal} {o p : Output} (h : j.AccountsFor o) (h' : k.AccountsFor p) :
    (j ++ k).AccountsFor (o ++ p) where
  verdicts := by
    rw [growth_append, h.verdicts, h'.verdicts]
    exact List.length_append.symm
  anomalies metric := by
    rw [growth_append, h.anomalies, h'.anomalies]
    exact List.countP_append.symm
  diagnoses severity := by
    rw [growth_append, h.diagnoses, h'.diagnoses]
    exact List.countP_append.symm
  pairs := by
    rw [growth_append, h.pairs, h'.pairs]
    exact List.length_append.symm
  forecasts := by
    rw [growth_append, h.forecasts, h'.forecasts]
    exact List.length_append.symm
  lookups := by
    rw [growth_append, growth_append, Nat.add_add_add_comm, h.lookups, h'.lookups]
    rfl
  misses := by
    rw [growth_append, h.misses, h'.misses, reads_append, List.countP_append]
  anomalyEvents := by
    rw [events_append, List.filterMap_append, h.anomalyEvents, h'.anomalyEvents]
    exact (List.filter_append ..).symm
  diagnosisEvents := by
    rw [events_append, List.filterMap_append]
    exact h.diagnosisEvents.append h'.diagnosisEvents

/-- Diagnoses are told in the order in which they are made, whatever order they are handed out in. -/
theorem reorder {j : Journal} {o : Output} {diagnoses : List Diagnosis} (h : j.AccountsFor o)
    (hd : o.diagnoses.Perm diagnoses) : j.AccountsFor { o with diagnoses := diagnoses } where
  verdicts := h.verdicts
  anomalies := h.anomalies
  diagnoses severity := (h.diagnoses severity).trans (hd.countP_eq _)
  pairs := h.pairs
  forecasts := h.forecasts
  lookups := h.lookups
  misses := h.misses
  anomalyEvents := h.anomalyEvents
  diagnosisEvents := h.diagnosisEvents.trans hd

theorem empty : Journal.empty.AccountsFor .none := by
  constructor <;> simp [Journal.empty, Output.none]

/-- Any other read than that of the fleet tells no result. -/
theorem read {r : Read} (h : r.operation ≠ "fleet_samples") :
    (⟨[r], [], []⟩ : Journal).AccountsFor .none := by
  constructor <;> simp [h, Output.none]

theorem event {e : Event} (hv : e.verdict? = .none) (hd : e.diagnosis? = .none) :
    (⟨[], [e], []⟩ : Journal).AccountsFor .none := by
  constructor <;> simp [hv, hd, Output.none]

theorem runs (kind : RunKind) (n : Nat) :
    (⟨[], [], [(.runs kind, n)]⟩ : Journal).AccountsFor .none := by
  constructor <;> simp [Output.none]

theorem pairs_counted (pairs : List Correlation.Pair) :
    (⟨[], [], [(.correlatedPairs, pairs.length)]⟩ : Journal).AccountsFor (.ofPairs pairs) := by
  constructor <;> simp [Output.ofPairs, Output.none]

theorem forecasts_counted (forecasts : List Forecast) :
    (⟨[], [], [(.forecasts, forecasts.length)]⟩ : Journal).AccountsFor (.ofForecasts forecasts) := by
  constructor <;> simp [Output.ofForecasts, Output.none]

/-- A fleet forecast that the memo serves. -/
theorem hit : (⟨[], [], [(.memoLookups true, 1)]⟩ : Journal).AccountsFor (.ofFleetForecast []) := by
  constructor <;> simp [Output.ofFleetForecast, Output.none]

/-- A fleet forecast that the memo does not serve makes the one read of the fleet. -/
theorem miss {r : Read} (h : r.operation = "fleet_samples") :
    (⟨[], [], [(.memoLookups false, 1)]⟩ ++ ⟨[r], [], []⟩ : Journal).AccountsFor
      (.ofFleetForecast []) := by
  constructor <;> simp [h, Output.ofFleetForecast, Output.none]

theorem verdict {v : Verdict} (h : v.isAnomalous = false) :
    (⟨[], [], [(.verdicts, 1)]⟩ : Journal).AccountsFor (.ofVerdicts [v]) := by
  constructor <;> simp [h, Output.ofVerdicts, Output.none]

theorem anomaly (source : String) {v : Verdict} (h : v.isAnomalous = true) :
    (⟨[], [], [(.verdicts, 1)]⟩ ++ (⟨[], [], [(.anomalies v.metric, 1)]⟩ ++
      ⟨[], [.anomalyDetected source v], []⟩) : Journal).AccountsFor (.ofVerdicts [v]) := by
  constructor <;> simp [h, Output.ofVerdicts, Output.none, Event.verdict?, Event.diagnosis?,
    List.countP_cons]

theorem diagnosis (source : String) (d : Diagnosis) :
    (⟨[], [], [(.diagnoses d.severity, 1)]⟩ ++ ⟨[], [.diagnosed source d], []⟩ : Journal).AccountsFor
      (.ofDiagnoses [d]) := by
  constructor <;> simp [Output.ofDiagnoses, Output.none, Event.verdict?, Event.diagnosis?,
    List.countP_cons]

end Journal.AccountsFor

namespace Run

variable {α β : Type}

/-- What a run that ends well notes has the property, together with its result. -/
def Notes (P : α → Journal → Prop) (x : Run α) : Prop :=
  ∀ source s a s', x.exec source s = (.ok a, s') → ∃ j, s'.journal = s.journal ++ j ∧ P a j

theorem Notes.mono {P Q : α → Journal → Prop} {x : Run α} (h : Notes P x)
    (hPQ : ∀ a j, P a j → Q a j) : Notes Q x := by
  intro source s a s' hx
  obtain ⟨j, hj, hP⟩ := h source s a s' hx
  exact ⟨j, hj, hPQ a j hP⟩

/-- The rest of a run is noted after what came before it. -/
theorem Notes.bind {P : α → Journal → Prop} {Q : β → Journal → Prop} {x : Run α} {f : α → Run β}
    (hx : Notes P x) (hf : ∀ a j, P a j → Notes (fun b k => Q b (j ++ k)) (f a)) :
    Notes Q (x >>= f) := by
  intro source s b s' h
  obtain ⟨a, t, ha, hb⟩ := exec_bind_ok h
  obtain ⟨j, hj, hP⟩ := hx source s a t ha
  obtain ⟨k, hk, hQ⟩ := hf a j hP source t b s' hb
  exact ⟨j ++ k, by rw [hk, hj, Journal.append_assoc], hQ⟩

theorem notes_pure {Q : α → Journal → Prop} {a : α} (h : Q a .empty) : Notes Q (pure a) := by
  intro source s b s' hb
  cases hb
  exact ⟨.empty, (Journal.append_empty _).symm, h⟩

theorem notes_count (c : Counter) (n : Nat) :
    Notes (fun _ j => j = ⟨[], [], [(c, n)]⟩) (count c n) := by
  intro source s a s' hs
  cases hs
  exact ⟨_, Journal.addCount_eq_append .., rfl⟩

theorem notes_emit (e : Event) : Notes (fun _ j => j = ⟨[], [e], []⟩) (emit e) := by
  intro source s a s' hs
  cases hs
  exact ⟨_, Journal.addEvent_eq_append .., rfl⟩

theorem notes_read (label : String) (r : Read) :
    Notes (fun _ j => j = ⟨[r], [], []⟩) (read label r) := by
  intro source s a s' h
  rcases hs : source s.journal.reads r with i | answer
  · obtain ⟨s'', he, _⟩ := exec_read_error label hs
    rw [he] at h
    cases h
  · rw [exec_read_ok label hs] at h
    cases h
    exact ⟨_, Journal.addRead_eq_append .., rfl⟩

/-- What a run that ends well notes tells this of its result. -/
abbrev Accounts (output : α → Output) (x : Run α) : Prop :=
  Notes (fun a j => j.AccountsFor (output a)) x

/-- A run that ends well has this result and tells none. -/
abbrev Concludes (a : α) (x : Run α) : Prop := Notes (fun b j => j.AccountsFor .none ∧ b = a) x

theorem accounts_memo : Accounts (fun _ => .none) memo := by
  intro source s a s' h
  cases h
  exact ⟨_, (Journal.append_empty _).symm, .empty⟩

theorem accounts_setMemo (m : Memo) : Accounts (fun _ => .none) (setMemo m) := by
  intro source s a s' h
  cases h
  exact ⟨_, (Journal.append_empty _).symm, .empty⟩

theorem accounts_runs (kind : RunKind) (n : Nat) : Accounts (fun _ => .none) (count (.runs kind) n) :=
  (notes_count _ _).mono fun _ _ hj => hj ▸ .runs kind n

theorem accounts_emit {e : Event} (hv : e.verdict? = none) (hd : e.diagnosis? = none) :
    Accounts (fun _ => .none) (emit e) :=
  (notes_emit e).mono fun _ _ hj => hj ▸ .event hv hd

theorem accounts_read {r : Read} (h : r.operation ≠ "fleet_samples") (label : String) :
    Accounts (fun _ => .none) (read label r) :=
  (notes_read label r).mono fun _ _ hj => hj ▸ .read h

theorem concludes_pure (a : α) : Concludes a (pure a) := notes_pure ⟨.empty, rfl⟩

/-- A part that tells no result leaves what is told to the rest. -/
theorem Accounts.before {x : Run α} {f : α → Run β} {output : β → Output}
    (hx : Accounts (fun _ => .none) x) (hf : ∀ a, Accounts output (f a)) :
    Accounts output (x >>= f) :=
  hx.bind fun a j hj => (hf a).mono fun b k hk => by
    rw [← Output.none_append (output b)]
    exact hj.append hk

theorem Concludes.after {x : Run α} {f : α → Run β} {b : β}
    (hx : Accounts (fun _ => .none) x) (hf : ∀ a, Concludes b (f a)) : Concludes b (x >>= f) :=
  hx.bind fun a j hj => (hf a).mono fun b' k ⟨hk, hb⟩ => by
    rw [← Output.none_append .none]
    exact ⟨hj.append hk, hb⟩

/-- A part that tells the results leaves nothing to be told. -/
theorem Accounts.conclude {x : Run α} {f : α → Run β} {g : α → β} {told : α → Output}
    {output : β → Output} (hx : Accounts told x) (hf : ∀ a, Concludes (g a) (f a))
    (h : ∀ a (j : Journal), j.AccountsFor (told a) → j.AccountsFor (output (g a))) :
    Accounts output (x >>= f) := by
  refine hx.bind fun a j hj => (hf a).mono fun b k ⟨hk, hb⟩ => ?_
  rw [hb, ← Output.append_none (output (g a))]
  exact (h a j hj).append hk

theorem Accounts.mapM {f : α → Run β} {output : β → Output} {l : List α}
    (h : ∀ a, Accounts output (f a)) :
    Accounts (fun bs => Output.concat (bs.map output)) (l.mapM f) := by
  induction l with
  | nil => exact notes_pure .empty
  | cons a rest ih =>
    rw [List.mapM_cons]
    refine (h a).bind fun b j hj => ih.bind fun bs k hk => notes_pure ?_
    rw [Journal.append_empty]
    exact hj.append hk

theorem concat_none (l : List α) : Output.concat (l.map fun _ => .none) = .none := by
  induction l with
  | nil => rfl
  | cons a rest ih => rw [List.map_cons, Output.concat_cons, ih, Output.none_append]

theorem Accounts.mapM_none {f : α → Run β} {l : List α} (h : ∀ a, Accounts (fun _ => .none) (f a)) :
    Accounts (fun _ => .none) (l.mapM f) :=
  (Accounts.mapM h).mono fun bs _ hj => concat_none bs ▸ hj

end Run

namespace Engine

open Run

variable (e : Engine)

theorem accounts_detect (entity : String) (metric : Metric) (history : List Sample)
    (current : Float) :
    Accounts (fun found : Option Verdict => .ofVerdicts found.toList)
      (e.detect entity metric history current) := by
  unfold detect
  split
  next => exact notes_pure .empty
  next v _ =>
    refine (notes_count _ _).bind fun _ i hi => ?_
    subst hi
    rcases hv : v.isAnomalous with _ | _
    · exact notes_pure (by simpa using .verdict hv)
    · refine (notes_count _ _).bind fun _ j hj => (notes_emit _).bind fun _ k hk => notes_pure ?_
      subst hj hk
      rw [Journal.append_empty]
      exact .anomaly e.label hv

theorem accounts_diagnose (entity : String) (verdicts : List Verdict) (time : Instant) :
    Accounts (fun found : Option Diagnosis => .ofDiagnoses found.toList)
      (e.diagnose entity verdicts time) := by
  unfold diagnose
  split
  next => exact notes_pure .empty
  next d _ =>
    refine (notes_count _ _).bind fun _ i hi => (notes_emit _).bind fun _ j hj => notes_pure ?_
    subst hi hj
    rw [Journal.append_empty]
    exact .diagnosis e.label d

theorem accounts_judgeLatest (entity : String) (metric : Metric) :
    Accounts (fun found : Option Verdict => .ofVerdicts found.toList)
      (e.judgeLatest entity metric) := by
  refine (accounts_read (by simp [Read.operation]) _).before fun samples =>
    (accounts_read (by simp [Read.operation]) _).before fun latest => ?_
  cases latest with
  | none => exact notes_pure .empty
  | some latest => exact e.accounts_detect _ _ _ _

theorem accounts_scanEntity (entity : String) (metrics : List Metric) :
    Accounts .ofVerdicts (e.scanEntity entity metrics) := by
  refine (Accounts.mapM (e.accounts_judgeLatest entity)).conclude (fun _ => concludes_pure _)
    fun found j hj => ?_
  rwa [Output.concat_found] at hj

theorem accounts_examine (time : Instant) (entity : String) :
    Accounts (fun found => .ofVerdicts found.1 ++ .ofDiagnoses found.2.toList)
      (e.examine time entity) := by
  refine (e.accounts_scanEntity _ _).bind fun verdicts j hj =>
    (e.accounts_diagnose _ _ _).bind fun diagnosis k hk => notes_pure ?_
  rw [Journal.append_empty]
  exact hj.append hk

theorem accounts_scanFleet (time : Instant) :
    Accounts (fun scan => .ofVerdicts scan.verdicts ++ .ofDiagnoses scan.diagnoses)
      (e.scanFleet time) := by
  refine (accounts_read (by simp [Read.operation]) _).before fun ids =>
    (Accounts.mapM (e.accounts_examine time)).conclude (fun examined =>
      Concludes.after (accounts_runs _ _) fun _ => Concludes.after (accounts_emit rfl rfl) fun _ =>
        concludes_pure _) fun examined j hj => ?_
  rw [Output.concat_examined] at hj
  -- the diagnoses were told as the entities came and are handed out by score
  exact hj.reorder (List.mergeSort_perm _ _).symm

theorem accounts_readSeries (metric : Metric) :
    Accounts (fun _ => .none) (e.readSeries metric) :=
  (accounts_read (by simp [Read.operation]) _).before fun _ =>
    (accounts_emit rfl rfl).before fun _ => notes_pure .empty

theorem accounts_correlate (metric : Metric) (series : List EntitySeries) :
    Accounts (fun _ => .none) (e.correlate metric series) :=
  (accounts_emit rfl rfl).before fun _ => notes_pure .empty

theorem accounts_correlations : Accounts .ofPairs e.correlations := by
  refine (Accounts.mapM_none e.accounts_readSeries).before fun groups =>
    (Accounts.mapM_none fun (metric, series) => e.accounts_correlate metric series).before
      fun pairs => ?_
  have hcount : Accounts (fun _ => .ofPairs (Correlation.sortPairs pairs.flatten)) _ :=
    (notes_count .correlatedPairs _).mono fun _ _ hj => hj ▸ .pairs_counted _
  exact hcount.conclude (fun _ => Concludes.after (accounts_runs _ _) fun _ =>
    Concludes.after (accounts_emit rfl rfl) fun _ => concludes_pure _) fun _ _ hj => hj

theorem accounts_forecastMetric (entity : String) (name : Option String) (metric : Metric) :
    Accounts (fun _ => .none) (e.forecastMetric entity name metric) :=
  (accounts_read (by simp [Read.operation]) _).before fun _ => notes_pure .empty

theorem accounts_entityForecasts (entity : String) :
    Accounts .ofForecasts (e.entityForecasts entity) := by
  refine (accounts_read (by simp [Read.operation]) _).before fun name =>
    (Accounts.mapM_none (e.accounts_forecastMetric entity name)).before fun found => ?_
  have hcount : Accounts (fun _ => .ofForecasts (found.filterMap id)) _ :=
    (notes_count .forecasts _).mono fun _ _ hj => hj ▸ .forecasts_counted _
  exact hcount.conclude (fun _ => concludes_pure _) fun _ _ hj => hj

/-- Forecasts that the memo serves were told when they were made. -/
theorem exec_fleetForecast_accounts {source : Source} {now limit : Nat} {s s' : Session}
    {forecasts : List Forecast}
    (h : (e.fleetForecast now limit).exec source s = (.ok forecasts, s')) :
    ∃ j, s'.journal = s.journal ++ j ∧ j.AccountsFor
      (.ofFleetForecast (if (s.memo.get? now limit).isSome then [] else forecasts)) := by
  rw [fleetForecast, exec_bind, exec_memo] at h
  simp only at h
  rcases hm : s.memo.get? now limit with _ | served
  · rw [hm] at h
    refine (?_ : Accounts .ofFleetForecast _) source s forecasts s' h
    refine (notes_count (.memoLookups false) 1).bind fun _ i hi =>
      (notes_read _ e.fleetRead).bind fun fleet j hj => ?_
    -- past the lookup and the read only the forecasts are left to tell
    refine Notes.mono (P := fun made k => k.AccountsFor (.ofForecasts made)) ?_ fun made k hk => ?_
    · have hcount : Accounts
          (fun _ => .ofForecasts (e.fleetForecaster.mostUrgent fleet limit)) _ :=
        (notes_count .forecasts _).mono fun _ _ hj => hj ▸ .forecasts_counted _
      exact accounts_memo.before fun m => (accounts_setMemo _).before fun _ =>
        hcount.conclude (fun _ => Concludes.after (accounts_runs .forecast 1) fun _ =>
          Concludes.after (accounts_emit rfl rfl) fun _ => concludes_pure _) fun _ _ hj => hj
    · subst hi hj
      rw [← Journal.append_assoc]
      exact (Journal.AccountsFor.miss rfl).append hk
  · rw [hm] at h
    refine (?_ : Accounts (fun _ => .ofFleetForecast []) _) source s forecasts s' h
    have hhit : Accounts (fun _ => .ofFleetForecast []) _ :=
      (notes_count (.memoLookups true) 1).mono fun _ _ hj => hj ▸ .hit
    exact hhit.conclude (fun _ => Concludes.after (accounts_emit rfl rfl) fun _ => concludes_pure _)
      fun _ _ hj => hj

end Engine

namespace Operation

def isFleetForecast : Operation → Bool
  | fleetForecast .. => true
  | _ => false

/-- What is told of an operation that ends well and starts with this memo. -/
def output (memo : Memo) : (o : Operation) → o.Result → Output
  | detect .., found => .ofVerdicts (Option.toList found)
  | diagnose .., found => .ofDiagnoses (Option.toList found)
  | forecast .., _ => .none
  | correlate .., _ => .none
  | scanEntity .., verdicts => .ofVerdicts verdicts
  | scanFleet _, scan =>
    .ofVerdicts (FleetScan.verdicts scan) ++ .ofDiagnoses (FleetScan.diagnoses scan)
  | correlations, pairs => .ofPairs pairs
  | entityForecasts _, forecasts => .ofForecasts forecasts
  | fleetForecast now limit, forecasts =>
    .ofFleetForecast (if (memo.get? now limit).isSome then [] else forecasts)

theorem fleetForecasts_output (memo : Memo) (o : Operation) (result : o.Result) :
    (o.output memo result).fleetForecasts = if o.isFleetForecast then 1 else 0 := by
  cases o <;> rfl

/-- An operation that ends well tells its results. -/
theorem exec_accounts (o : Operation) (e : Engine) {source : Source} {s s' : Session}
    {result : o.Result} (h : (o.perform e).exec source s = (.ok result, s')) :
    ∃ j, s'.journal = s.journal ++ j ∧ j.AccountsFor (o.output s.memo result) := by
  cases o with
  | detect => exact e.accounts_detect _ _ _ _ source s result s' h
  | diagnose => exact e.accounts_diagnose _ _ _ source s result s' h
  | forecast =>
    refine (Run.notes_pure .empty : Run.Accounts (fun _ => .none) _) source s result s' h
  | correlate => exact e.accounts_correlate _ _ source s result s' h
  | scanEntity => exact e.accounts_scanEntity _ _ source s result s' h
  | scanFleet => exact e.accounts_scanFleet _ source s result s' h
  | correlations => exact e.accounts_correlations source s result s' h
  | entityForecasts => exact e.accounts_entityForecasts _ source s result s' h
  | fleetForecast => exact e.exec_fleetForecast_accounts h

end Operation

/-- An operation that ended well: whose it was, what it asked, the memo it found and its result. -/
structure Call where
  engine : Engine
  source : Source
  memo : Memo
  operation : Operation
  result : operation.Result

def Call.output (c : Call) : Output := c.operation.output c.memo c.result

/-- Calls one after the other that keep one journal. Before each of them the engine, the store and the
memo may change in any way. -/
inductive Calls : Journal → List Call → Journal → Prop where
  | nil (j : Journal) : Calls j [] j
  | cons {j j' : Journal} {c : Call} {rest : List Call} {t : Session}
      (ends : (c.operation.perform c.engine).exec c.source ⟨c.memo, j⟩ = (.ok c.result, t))
      (others : Calls t.journal rest j') : Calls j (c :: rest) j'

theorem Calls.accounts {j j' : Journal} {calls : List Call} (h : Calls j calls j') :
    ∃ added, j' = j ++ added ∧ added.AccountsFor (.concat (calls.map Call.output)) := by
  induction h with
  | nil j => exact ⟨.empty, (Journal.append_empty j).symm, .empty⟩
  | cons ends _ ih =>
    obtain ⟨own, hown, htold⟩ := Operation.exec_accounts _ _ ends
    obtain ⟨added, rfl, hadded⟩ := ih
    exact ⟨own ++ added, by rw [hown, Journal.append_assoc], htold.append hadded⟩

/-- Over any run of operations that end well, with any stores and engines, the counters grow by what the
operations hand out: verdicts, the anomalous ones by metric, diagnoses by severity, pairs, and forecasts
that were made and not taken from a memo. Lookups of the memo are as many as fleet forecasts, and misses
as many as reads of the fleet. The events tell each anomalous verdict once, in the order of the verdicts,
and each diagnosis once, as a warning where its severity is high or critical and only there. -/
theorem calls_accounted {j j' : Journal} {calls : List Call} (h : Calls j calls j') :
    let told := Output.concat (calls.map Call.output)
    ∃ added : Journal, j'.reads = j.reads ++ added.reads ∧ j'.events = j.events ++ added.events ∧
      (∀ c, j'.growth c = j.growth c + added.growth c) ∧ added.AccountsFor told ∧
      told.fleetForecasts = calls.countP (·.operation.isFleetForecast) ∧
      ∀ e ∈ added.events,
        (e.verdict?.isSome ↔ e.IsNamed "anomaly_detected") ∧
        (e.diagnosis?.isSome ↔ e.IsNamed "composite_anomaly") ∧
        ∀ d, e.diagnosis? = some d →
          (e.level = .warn ↔ d.severity = .high ∨ d.severity = .critical) := by
  intro told
  obtain ⟨added, rfl, hadded⟩ := h.accounts
  refine ⟨added, rfl, rfl, fun c => Journal.growth_append j added c, hadded, ?_, fun e _ =>
    ⟨e.isSome_verdict?, e.isSome_diagnosis?, fun d => Event.level_of_diagnosis?⟩⟩
  have hcalls (l : List Call) : (Output.concat (l.map Call.output)).fleetForecasts =
      l.countP (·.operation.isFleetForecast) := by
    induction l with
    | nil => rfl
    | cons c rest ih =>
      rw [List.countP_cons, ← ih, ← c.operation.fleetForecasts_output c.memo c.result, Nat.add_comm]
      rfl
  exact hcalls calls

/-- A scan of two entities with a high sample each, then a fleet forecast with an empty memo. -/
theorem calls_accounted_twoEntities :
    ∃ calls j', Calls .empty calls j' ∧ calls.length = 2 ∧ j'.growth .verdicts = 2 ∧
      j'.growth (.anomalies .cpu) = 2 ∧
      j'.growth (.memoLookups true) + j'.growth (.memoLookups false) = 1 := by
  let e : Engine := ⟨.standard, Engine.defaultLabel, []⟩
  let source := Engine.twoEntities.source .epoch
  let memo : Memo := .ofTtl 300
  rcases hscan : (e.scanFleet .epoch).exec source ⟨memo, .empty⟩ with ⟨r, t⟩
  have hy := e.yields_scanFleet Engine.twoEntities .epoch .epoch ⟨memo, .empty⟩
  rw [hscan] at hy
  obtain rfl : r = _ := hy
  rcases hforecast : (e.fleetForecast 0 5).exec source ⟨memo, t.journal⟩ with ⟨r', t'⟩
  obtain ⟨forecasts, hf⟩ := e.fleetForecast_ok Engine.twoEntities .epoch 0 5 ⟨memo, t.journal⟩
  rw [hforecast] at hf
  obtain rfl : r' = _ := hf
  let calls : List Call :=
    [⟨e, source, memo, .scanFleet .epoch, e.fleetScanOn Engine.twoEntities .epoch⟩,
      ⟨e, source, memo, .fleetForecast 0 5, forecasts⟩]
  have hcalls : Calls .empty calls t'.journal := .cons hscan (.cons hforecast (.nil _))
  obtain ⟨added, _, _, hgrowth, htold, hfleet, _⟩ := calls_accounted hcalls
  -- a fleet forecast has no part in the verdicts
  have hverdicts : (Output.concat (calls.map Call.output)).verdicts =
      (e.fleetScanOn Engine.twoEntities .epoch).verdicts :=
    (List.append_nil _).trans (List.append_nil _)
  have hempty (c : Counter) : Journal.empty.growth c = 0 := rfl
  refine ⟨calls, _, hcalls, rfl, ?_, ?_, ?_⟩
  · rw [hgrowth, htold.verdicts, hverdicts, hempty]
    decide +kernel
  · rw [hgrowth, htold.anomalies, hverdicts, hempty]
    decide +kernel
  · rw [hgrowth, hgrowth, Nat.add_add_add_comm, htold.lookups, hfleet]
    rfl

end FleetHealth
