import FleetHealth.Proofs.Monitor.Safety

/-!
# Refused reads

A store may answer or refuse each read as it likes. An operation ends at the first refusal, with the
error of that read: the refusal is counted once, the memo stays, and no total of finished operations
grows. Only what comes after the last read of an operation changes the memo or such a total, so a run
is taken apart into a part that reads and leaves them alone, and a part that reads nothing.
-/
namespace FleetHealth

/-- How a store answers or refuses reads. What was read before may change the answer. -/
abbrev Replies := List Read → (r : Read) → Except StoreError r.Answer

namespace Replies

def source (p : Replies) : Source := fun earlier r => (p earlier r).mapError .refused

/-- The refusals met by some reads, each with its read, where `before` was read before them. -/
def refusals (p : Replies) (before : List Read) : List Read → List (Read × StoreError)
  | [] => []
  | r :: rest =>
    match p before r with
    | .ok _ => p.refusals (before ++ [r]) rest
    | .error error => (r, error) :: p.refusals (before ++ [r]) rest

theorem refusals_append (p : Replies) (before reads more : List Read) :
    p.refusals before (reads ++ more) =
      p.refusals before reads ++ p.refusals (before ++ reads) more := by
  induction reads generalizing before with
  | nil => simp [refusals]
  | cons r rest ih =>
    simp only [List.cons_append, refusals]
    split <;> simp [ih]

end Replies

/-- Whether a total is one of finished operations. -/
def Counter.ofFinished : Counter → Bool
  | correlatedPairs | forecasts | runs _ => true
  | _ => false

def Counter.isStoreError : Counter → Bool
  | storeErrors _ => true
  | _ => false

/-- The same memo and the same totals of finished operations. -/
structure Session.Unfinished (s s' : Session) : Prop where
  memo : s'.memo = s.memo
  totals : ∀ c, c.ofFinished → s'.journal.growth c = s.journal.growth c

theorem Session.Unfinished.trans {s s' s'' : Session} (h : s.Unfinished s')
    (h' : s'.Unfinished s'') : s.Unfinished s'' where
  memo := h'.memo.trans h.memo
  totals c hc := (h'.totals c hc).trans (h.totals c hc)

namespace Run

variable {α β : Type} {p : Replies} {s : Session}

/-- How a run ends: with every read answered, or at a read that is refused. `Kept` tells what a run
with every read answered leaves alone. -/
inductive Ending (p : Replies) (Kept : Session → Session → Prop) (s : Session) :
    Except Interruption α × Session → Prop where
  | finished {a : α} {s' : Session} (made : List Read)
      (reads : s'.journal.reads = s.journal.reads ++ made)
      (answered : p.refusals s.journal.reads made = [])
      (errors : ∀ c, c.isStoreError → s'.journal.growth c = s.journal.growth c)
      (kept : Kept s s') : Ending p Kept s (.ok a, s')
  | refused {s' : Session} (earlier : List Read) (r : Read) (error : StoreError)
      (reads : s'.journal.reads = s.journal.reads ++ (earlier ++ [r]))
      (answered : p.refusals s.journal.reads earlier = [])
      (refusal : p (s.journal.reads ++ earlier) r = .error error)
      (errors : ∀ c, c.isStoreError → s'.journal.growth c =
        s.journal.growth c + if .storeErrors r.operation = c then 1 else 0)
      (unfinished : s.Unfinished s') : Ending p Kept s (.error (.refused error), s')

/-- The run ends in one of these ways, from whatever session. -/
def Ends (p : Replies) (Kept : Session → Session → Prop) (x : Run α) : Prop :=
  ∀ s, Ending p Kept s (x.exec p.source s)

/-- The run leaves the memo and the totals of finished operations alone. -/
abbrev Reads (p : Replies) (x : Run α) : Prop := Ends p Session.Unfinished x

abbrev Stops (p : Replies) (x : Run α) : Prop := Ends p (fun _ _ => True) x

theorem Ending.mono {K K' : Session → Session → Prop} {o : Except Interruption α × Session}
    (hK : ∀ s', K s s' → K' s s') (h : Ending p K s o) : Ending p K' s o := by
  cases h with
  | finished made reads answered errors kept =>
    exact .finished made reads answered errors (hK _ kept)
  | refused earlier r error reads answered refusal errors unfinished =>
    exact .refused earlier r error reads answered refusal errors unfinished

/-- An ending that follows some answered reads has these before its own. -/
theorem Ending.after {K : Session → Session → Prop} {s' : Session} {made : List Read}
    {o : Except Interruption α × Session} (reads : s'.journal.reads = s.journal.reads ++ made)
    (answered : p.refusals s.journal.reads made = [])
    (errors : ∀ c, c.isStoreError → s'.journal.growth c = s.journal.growth c)
    (unfinished : s.Unfinished s') (hK : ∀ s'', K s' s'' → K s s'') (h : Ending p K s' o) :
    Ending p K s o := by
  cases h with
  | finished made' reads' answered' errors' kept =>
    refine .finished (made ++ made') ?_ ?_ ?_ (hK _ kept)
    · rw [reads', reads, List.append_assoc]
    · rw [p.refusals_append, answered, ← reads, answered', List.nil_append]
    · exact fun c hc => (errors' c hc).trans (errors c hc)
  | refused earlier r error reads' answered' refusal errors' unfinished' =>
    refine .refused (made ++ earlier) r error ?_ ?_ ?_ ?_ (unfinished.trans unfinished')
    · rw [reads', reads, List.append_assoc, List.append_assoc]
    · rw [p.refusals_append, answered, ← reads, answered', List.nil_append]
    · rw [← List.append_assoc, ← reads, refusal]
    · exact fun c hc => by rw [errors' c hc, errors c hc]

theorem Reads.stops {x : Run α} (h : Reads p x) : Stops p x := fun s =>
  (h s).mono fun _ _ => trivial

theorem Ends.bind {K : Session → Session → Prop} {x : Run α} {f : α → Run β}
    (hK : ∀ {s s' s''}, s.Unfinished s' → K s' s'' → K s s'')
    (hx : Reads p x) (hf : ∀ a, Ends p K (f a)) : Ends p K (x >>= f) := by
  intro s
  rw [exec_bind]
  have h := hx s
  generalize x.exec p.source s = o at h
  cases h with
  | finished made reads answered errors unfinished =>
    exact (hf _ _).after reads answered errors unfinished fun _ => hK unfinished
  | refused earlier r error reads answered refusal errors unfinished =>
    exact .refused earlier r error reads answered refusal errors unfinished

theorem Reads.bind {x : Run α} {f : α → Run β} (hx : Reads p x) (hf : ∀ a, Reads p (f a)) :
    Reads p (x >>= f) := Ends.bind Session.Unfinished.trans hx hf

theorem Reads.bind_stops {x : Run α} {f : α → Run β} (hx : Reads p x) (hf : ∀ a, Stops p (f a)) :
    Stops p (x >>= f) := Ends.bind (fun _ _ => trivial) hx hf

theorem reads_pure (a : α) : Reads p (pure a) := fun _ =>
  .finished [] (List.append_nil _).symm rfl (fun _ _ => rfl) ⟨rfl, fun _ _ => rfl⟩

theorem reads_emit (e : Event) : Reads p (emit e) := fun _ =>
  .finished [] (List.append_nil _).symm rfl (fun _ _ => rfl) ⟨rfl, fun _ _ => rfl⟩

theorem reads_memo : Reads p memo := fun _ =>
  .finished [] (List.append_nil _).symm rfl (fun _ _ => rfl) ⟨rfl, fun _ _ => rfl⟩

/-- A count in the middle of an operation. -/
theorem reads_count {c : Counter} (n : Nat) (hc : c.ofFinished = false)
    (he : c.isStoreError = false) : Reads p (count c n) := by
  have hne {c' : Counter} {f : Counter → Bool} (h : f c = false) (h' : f c') : c ≠ c' := by
    rintro rfl
    rw [h] at h'
    cases h'
  refine fun _ => .finished [] (List.append_nil _).symm rfl (fun c' h' => ?_) ⟨rfl, fun c' h' => ?_⟩
  · rw [Journal.growth_addCount, if_neg (hne he h'), Nat.add_zero]
  · rw [Journal.growth_addCount, if_neg (hne hc h'), Nat.add_zero]

theorem reads_read (label : String) (r : Read) : Reads p (read label r) := by
  intro s
  rcases h : p s.journal.reads r with error | answer
  · have hs : p.source s.journal.reads r = .error (.refused error) := by rw [Replies.source, h]; rfl
    rw [exec_read, hs]
    refine .refused [] r error rfl rfl (by rw [List.append_nil, h]) (fun c _ => ?_)
      ⟨rfl, fun c hc => ?_⟩
    · exact Journal.growth_addCount ..
    · refine (Journal.growth_addCount ..).trans ?_
      rw [if_neg (by rintro rfl; cases hc)]
      rfl
  · have hs : p.source s.journal.reads r = .ok answer := by rw [Replies.source, h]; rfl
    rw [exec_read_ok label hs]
    exact .finished [r] rfl (by simp [Replies.refusals, h]) (fun _ _ => rfl) ⟨rfl, fun _ _ => rfl⟩

theorem Reads.mapM {f : α → Run β} {l : List α} (h : ∀ a, Reads p (f a)) : Reads p (l.mapM f) := by
  induction l with
  | nil => exact reads_pure []
  | cons a rest ih =>
    rw [List.mapM_cons]
    exact (h a).bind fun b => ih.bind fun bs => reads_pure (b :: bs)

/-- The run makes no read. -/
def Silent (x : Run α) : Prop :=
  ∀ source s, ∃ a s', x.exec source s = (.ok a, s') ∧ s'.journal.reads = s.journal.reads ∧
    ∀ c, c.isStoreError → s'.journal.growth c = s.journal.growth c

theorem silent_pure (a : α) : Silent (pure a) := fun _ s => ⟨a, s, rfl, rfl, fun _ _ => rfl⟩

theorem silent_emit (e : Event) : Silent (emit e) := fun _ _ =>
  ⟨(), _, rfl, rfl, fun _ _ => rfl⟩

theorem silent_memo : Silent memo := fun _ s => ⟨s.memo, s, rfl, rfl, fun _ _ => rfl⟩

theorem silent_setMemo (m : Capacity.Memo) : Silent (setMemo m) := fun _ _ =>
  ⟨(), _, rfl, rfl, fun _ _ => rfl⟩

theorem silent_count {c : Counter} (n : Nat) (h : c.isStoreError = false) : Silent (count c n) := by
  refine fun _ _ => ⟨(), _, rfl, rfl, fun c' h' => (Journal.growth_addCount ..).trans ?_⟩
  rw [if_neg, Nat.add_zero]
  rintro rfl
  rw [h] at h'
  cases h'

theorem Silent.bind {x : Run α} {f : α → Run β} (hx : Silent x) (hf : ∀ a, Silent (f a)) :
    Silent (x >>= f) := by
  intro source s
  obtain ⟨a, s', hs, hr, hc⟩ := hx source s
  obtain ⟨b, s'', hs', hr', hc'⟩ := hf a source s'
  refine ⟨b, s'', ?_, hr'.trans hr, fun c h => (hc' c h).trans (hc c h)⟩
  rw [exec_bind, hs]
  exact hs'

theorem Silent.mapM {f : α → Run β} {l : List α} (h : ∀ a, Silent (f a)) : Silent (l.mapM f) := by
  induction l with
  | nil => exact silent_pure []
  | cons a rest ih =>
    rw [List.mapM_cons]
    exact (h a).bind fun b => ih.bind fun bs => silent_pure (b :: bs)

theorem Silent.stops {x : Run α} (h : Silent x) : Stops p x := by
  intro s
  obtain ⟨a, s', hs, hr, hc⟩ := h p.source s
  rw [hs]
  exact .finished [] (by rw [hr, List.append_nil]) rfl hc trivial

/-- A run that ends well has made these reads. -/
def Asks (x : Run α) (reads : List Read) : Prop :=
  ∀ source s a s', x.exec source s = (.ok a, s') →
    s'.journal.reads = s.journal.reads ++ reads

theorem Silent.asks {x : Run α} (h : Silent x) : Asks x [] := by
  intro source s a s' hs
  obtain ⟨_, _, hs', hr, _⟩ := h source s
  rw [hs] at hs'
  obtain ⟨_, rfl⟩ := Prod.mk.inj hs'
  rw [hr, List.append_nil]

theorem asks_read (label : String) (r : Read) : Asks (read label r) [r] := by
  intro source s a s' h
  rcases hs : source s.journal.reads r with i | answer
  · obtain ⟨s'', he, _⟩ := exec_read_error label hs
    rw [he] at h
    cases h
  · rw [exec_read_ok label hs] at h
    obtain ⟨_, rfl⟩ := Prod.mk.inj h
    rfl

theorem Asks.bind {x : Run α} {f : α → Run β} {reads more : List Read} (hx : Asks x reads)
    (hf : ∀ a, Asks (f a) more) : Asks (x >>= f) (reads ++ more) := by
  intro source s b s' h
  rw [exec_bind] at h
  rcases hs : x.exec source s with ⟨i | a, t⟩
  · rw [hs] at h
    cases h
  · rw [hs] at h
    rw [hf a source t b s' h, hx source s a t hs, List.append_assoc]

theorem Asks.mapM {f : α → Run β} {reads : α → List Read} {l : List α}
    (h : ∀ a, Asks (f a) (reads a)) : Asks (l.mapM f) (l.flatMap reads) := by
  induction l with
  | nil => exact (silent_pure []).asks
  | cons a rest ih =>
    rw [List.mapM_cons, List.flatMap_cons]
    refine (h a).bind fun b => ?_
    have hrest := ih.bind fun bs => (silent_pure (b :: bs)).asks
    rwa [List.append_nil] at hrest

end Run

namespace Engine

variable (e : Engine) {p : Replies}

theorem reads_detect (entity : String) (metric : Metric) (history : List Sample) (current : Float) :
    Run.Reads p (e.detect entity metric history current) := by
  unfold detect
  split
  next => exact Run.reads_pure none
  next v _ =>
    refine (Run.reads_count 1 rfl rfl).bind fun _ => ?_
    cases v.isAnomalous with
    | false => exact Run.reads_pure (some v)
    | true =>
      exact (Run.reads_count 1 rfl rfl).bind fun _ =>
        (Run.reads_emit _).bind fun _ => Run.reads_pure (some v)

theorem reads_diagnose (entity : String) (verdicts : List Verdict) (time : Instant) :
    Run.Reads p (e.diagnose entity verdicts time) := by
  unfold diagnose
  split
  next => exact Run.reads_pure none
  next d _ =>
    exact (Run.reads_count 1 rfl rfl).bind fun _ =>
      (Run.reads_emit _).bind fun _ => Run.reads_pure (some d)

theorem reads_judgeLatest (entity : String) (metric : Metric) :
    Run.Reads p (e.judgeLatest entity metric) := by
  refine (Run.reads_read _ _).bind fun samples => (Run.reads_read _ _).bind fun latest => ?_
  cases latest with
  | none => exact Run.reads_pure none
  | some latest => exact e.reads_detect _ _ _ _

theorem reads_scanEntity (entity : String) (metrics : List Metric) :
    Run.Reads p (e.scanEntity entity metrics) :=
  (Run.Reads.mapM (e.reads_judgeLatest entity)).bind fun _ => Run.reads_pure _

theorem reads_examine (time : Instant) (entity : String) : Run.Reads p (e.examine time entity) :=
  (e.reads_scanEntity _ _).bind fun _ => (e.reads_diagnose _ _ _).bind fun _ => Run.reads_pure _

theorem reads_readSeries (metric : Metric) : Run.Reads p (e.readSeries metric) :=
  (Run.reads_read _ _).bind fun _ => (Run.reads_emit _).bind fun _ => Run.reads_pure _

theorem reads_forecastMetric (entity : String) (name : Option String) (metric : Metric) :
    Run.Reads p (e.forecastMetric entity name metric) :=
  (Run.reads_read _ _).bind fun _ => Run.reads_pure _

/-- The one read of correlations for a metric. -/
abbrev seriesRead (metric : Metric) : Read :=
  .bucketedAverages metric e.settings.correlation.lookbackSeconds
    e.settings.correlation.bucketSeconds

theorem asks_readSeries (metric : Metric) :
    Run.Asks (e.readSeries metric) [e.seriesRead metric] :=
  (Run.asks_read _ _).bind fun _ =>
    ((Run.silent_emit _).bind fun _ => Run.silent_pure _).asks

theorem silent_correlate (metric : Metric) (series : List EntitySeries) :
    Run.Silent (e.correlate metric series) :=
  (Run.silent_emit _).bind fun _ => Run.silent_pure _

/-- What correlations do with the series that they read. -/
def relateAll (groups : List (Metric × List EntitySeries)) : Run (List Correlation.Pair) := do
  let pairs ← groups.mapM fun (metric, series) => e.correlate metric series
  let pairs := Correlation.sortPairs pairs.flatten
  Run.count .correlatedPairs pairs.length
  Run.count (.runs .correlate) 1
  Run.emit (.correlationRun e.label groups.length pairs.length)
  return pairs

theorem silent_relateAll (groups : List (Metric × List EntitySeries)) :
    Run.Silent (e.relateAll groups) :=
  (Run.Silent.mapM fun (metric, series) => e.silent_correlate metric series).bind fun _ =>
    (Run.silent_count _ rfl).bind fun _ => (Run.silent_count _ rfl).bind fun _ =>
      (Run.silent_emit _).bind fun _ => Run.silent_pure _

theorem stops_correlations : Run.Stops p e.correlations :=
  (Run.Reads.mapM e.reads_readSeries).bind_stops fun groups => (e.silent_relateAll groups).stops

theorem asks_correlations :
    Run.Asks e.correlations (e.settings.correlation.tracked.map e.seriesRead) := by
  have h := (Run.Asks.mapM (l := e.settings.correlation.tracked) e.asks_readSeries).bind
    fun groups => (e.silent_relateAll groups).asks
  rwa [← List.map_eq_flatMap, List.append_nil] at h

theorem stops_scanFleet (time : Instant) : Run.Stops p (e.scanFleet time) :=
  (Run.reads_read _ _).bind_stops fun _ =>
    (Run.Reads.mapM (e.reads_examine time)).bind_stops fun _ =>
      ((Run.silent_count _ rfl).bind fun _ =>
        (Run.silent_emit _).bind fun _ => Run.silent_pure _).stops

theorem stops_entityForecasts (entity : String) : Run.Stops p (e.entityForecasts entity) :=
  (Run.reads_read _ _).bind_stops fun name =>
    (Run.Reads.mapM (e.reads_forecastMetric entity name)).bind_stops fun _ =>
      ((Run.silent_count _ rfl).bind fun _ => Run.silent_pure _).stops

theorem stops_fleetForecast (now limit : Nat) : Run.Stops p (e.fleetForecast now limit) := by
  refine Run.reads_memo.bind_stops fun memo => ?_
  split
  next forecasts _ =>
    exact ((Run.silent_count _ rfl).bind fun _ =>
      (Run.silent_emit _).bind fun _ => Run.silent_pure _).stops
  next =>
    refine (Run.reads_count 1 rfl rfl).bind_stops fun _ => ?_
    refine (Run.reads_read _ _).bind_stops fun fleet => ?_
    -- from here on the run stores and counts, and reads nothing more
    exact (Run.silent_memo.bind fun _ => (Run.silent_setMemo _).bind fun _ =>
      (Run.silent_count _ rfl).bind fun _ => (Run.silent_count _ rfl).bind fun _ =>
        (Run.silent_emit _).bind fun _ => Run.silent_pure _).stops

end Engine

theorem Operation.stops (e : Engine) {p : Replies} (o : Operation) :
    Run.Stops p (o.perform e) := by
  cases o with
  | detect => exact (e.reads_detect _ _ _ _).stops
  | diagnose => exact (e.reads_diagnose _ _ _).stops
  | forecast => exact (Run.reads_pure _).stops
  | correlate => exact (e.silent_correlate _ _).stops
  | scanEntity => exact (e.reads_scanEntity _ _).stops
  | scanFleet => exact e.stops_scanFleet _
  | correlations => exact e.stops_correlations
  | entityForecasts => exact e.stops_entityForecasts _
  | fleetForecast => exact e.stops_fleetForecast _ _

/-- A fleet forecast that has a result asked for the fleet unless the memo served it. -/
theorem Engine.asked_fleetForecast (e : Engine) {source : Source} {now limit : Nat}
    {s s' : Session} {forecasts : List Capacity.Forecast}
    (h : (e.fleetForecast now limit).exec source s = (.ok forecasts, s')) :
    s'.journal.reads = s.journal.reads ++
      if (s.memo.get? now limit).isSome then [] else [e.fleetRead] := by
  rcases hm : s.memo.get? now limit with _ | served
  · rcases hf : source s.journal.reads e.fleetRead with i | fleet
    · obtain ⟨_, he, _⟩ := e.exec_fleetForecast_error source hm hf
      rw [he] at h
      cases h
    · obtain ⟨_, he, _, hr⟩ := e.exec_fleetForecast_miss source hm hf
      rw [he] at h
      obtain ⟨_, rfl⟩ := Prod.mk.inj h
      exact hr
  · obtain ⟨_, he, _, hr⟩ := e.exec_fleetForecast_hit source hm
    rw [he] at h
    obtain ⟨_, rfl⟩ := Prod.mk.inj h
    simpa using hr

/-- Whatever reads a store refuses, an operation fails exactly where one of its reads is refused,
with the error of the first such read and no read after it. Then that refusal is the only one
counted, the memo is as it was, and neither pairs nor forecasts nor runs are. With nothing refused
correlations make one read per tracked metric, and a fleet forecast makes one unless it is served
from the memo. -/
theorem Operation.stops_at_refusal (e : Engine) (p : Replies) (o : Operation) (s : Session) :
    let before := s.journal.reads
    let run := (o.perform e).exec p.source s
    let grown (c : Counter) (n : Nat) := run.2.journal.growth c = s.journal.growth c + n
    ∃ made, run.2.journal.reads = before ++ made ∧
      ((∃ i, run.1 = .error i) ↔ p.refusals before made ≠ []) ∧
      (∀ i, run.1 = .error i → ∃ earlier r error,
        i = .refused error ∧ made = earlier ++ [r] ∧ p.refusals before earlier = [] ∧
        p (before ++ earlier) r = .error error ∧
        (∀ operation, grown (.storeErrors operation) (if operation = r.operation then 1 else 0)) ∧
        run.2.memo = s.memo ∧ grown .correlatedPairs 0 ∧ grown .forecasts 0 ∧
        ∀ kind, grown (.runs kind) 0) ∧
      ∀ result, run.1 = .ok result →
        (∀ operation, grown (.storeErrors operation) 0) ∧
        (o = .correlations → made = e.settings.correlation.tracked.map e.seriesRead) ∧
        ∀ now limit, o = .fleetForecast now limit →
          made = if (s.memo.get? now limit).isSome then [] else [e.fleetRead] := by
  intro before run grown
  have h : Run.Ending p _ s run := o.stops e s
  rcases hrun : run with ⟨r, s'⟩
  rw [hrun] at h
  cases h with
  | finished made reads answered errors =>
    refine ⟨made, reads, ?_, fun i hi => ?_, fun result _ => ⟨?_, ?_, ?_⟩⟩
    · simp [answered, before]
    · cases hi
    · exact fun operation => by simpa [grown, hrun] using errors (.storeErrors operation) rfl
    · rintro rfl
      exact List.append_cancel_left (reads.symm.trans (e.asks_correlations _ _ _ _ hrun))
    · rintro now limit rfl
      exact List.append_cancel_left (reads.symm.trans (e.asked_fleetForecast hrun))
  | refused earlier r error reads answered refusal errors unfinished =>
    have hmet : p.refusals before (earlier ++ [r]) = [(r, error)] := by
      rw [p.refusals_append, answered]
      simp [Replies.refusals, before, refusal]
    have htotals (c : Counter) (hc : c.ofFinished) : grown c 0 := by
      simpa [grown, hrun] using unfinished.totals c hc
    refine ⟨earlier ++ [r], reads, ?_, fun i hi => ?_, fun result hr => ?_⟩
    · simp [hmet]
    · obtain rfl := Except.error.inj hi
      refine ⟨earlier, r, error, rfl, rfl, answered, refusal, fun operation => ?_,
        unfinished.memo, htotals _ rfl, htotals _ rfl, fun kind => htotals _ rfl⟩
      simpa [grown, hrun, eq_comm] using errors (.storeErrors operation) rfl
    · cases hr

end FleetHealth
