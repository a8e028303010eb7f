import FleetHealth.Proofs.Monitor.Operations
import Mathlib.Data.Option.Basic

/-!
# One memo for several engines

Engines with equal forecast settings may share a memo. A run of them mixes calls for any limit, each
with the answers that the store gives it, changes of the store, and invalidations. Beside the state
of the program a run keeps the last fleet that was read with success. The memo is then never seen:
a call comes out as a forecast of that fleet for its own limit.
-/
namespace FleetHealth

open Capacity

theorem Capacity.Memo.get?_eq_some {m : Memo} {now limit : Nat} {forecasts : List Forecast}
    (h : m.get? now limit = some forecasts) :
    ∃ entry, m.entry = some entry ∧ limit ≤ entry.limit ∧
      forecasts = entry.forecasts.take limit := by
  simp only [Memo.get?, Option.bind_eq_bind, Option.bind_eq_some_iff, Option.guard_eq_some',
    Option.pure_def, Option.some.injEq] at h
  obtain ⟨entry, he, _, ⟨_, hl⟩, ht⟩ := h
  exact ⟨entry, he, hl, ht.symm⟩

/-- The most urgent forecasts for a limit begin with those for any smaller one. -/
theorem Capacity.FleetForecaster.mostUrgent_take (f : FleetForecaster)
    (fleet : Index String EntityRecord) {m n : Nat} (h : m ≤ n) :
    (f.mostUrgent fleet n).take m = f.mostUrgent fleet m := by
  rw [mostUrgent, mostUrgent, List.take_take, Nat.min_eq_left h]

namespace SharedMemo

/-- An engine with the forecast settings that the others have too. -/
structure Sharer (settings : ForecastSettings) where
  engine : Engine
  agrees : engine.settings.forecast = settings

/-- How a call reaches the store: an answer to each read, or the reason why it is refused. -/
abbrev Access := Store → (r : Read) → Except Interruption r.Answer

inductive Step (settings : ForecastSettings) where
  /-- A call at moment `now` of the clock by which entries expire. -/
  | forecast (sharer : Sharer settings) (now limit : Nat) (access : Access)
  | invalidate
  /-- An insert, or whatever else happens to the store. -/
  | change (edit : Store → Store)

structure World where
  store : Store
  session : Session
  /-- The last fleet that was read with success. -/
  lastFleet : Option (Index String EntityRecord)

structure Call where
  result : Except Interruption (List Forecast)
  reads : List Read
  world : World

/-- The fleets among the answers to some reads. -/
def fleetsAnswered (answer : (r : Read) → Except Interruption r.Answer) :
    List Read → List (Index String EntityRecord)
  | .fleetSamples metrics lookback :: rest =>
    match answer (.fleetSamples metrics lookback) with
    | .ok fleet => fleet :: fleetsAnswered answer rest
    | .error _ => fleetsAnswered answer rest
  | _ :: rest => fleetsAnswered answer rest
  | [] => []

namespace World

/-- Before the first step: an empty memo, whatever the store holds. -/
def start (store : Store) (ttlSeconds : Nat) (journal : Journal) : World :=
  ⟨store, ⟨.ofTtl ttlSeconds, journal⟩, none⟩

def call (w : World) (e : Engine) (now limit : Nat) (access : Access) : Call :=
  let outcome := (e.fleetForecast now limit).exec (fun _ r => access w.store r) w.session
  let reads := outcome.2.journal.reads.drop w.session.journal.reads.length
  ⟨outcome.1, reads, { w with
    session := outcome.2
    lastFleet := (fleetsAnswered (access w.store) reads).getLast?.or w.lastFleet }⟩

variable {settings : ForecastSettings}

def step (w : World) : Step settings → World
  | .forecast sharer now limit access => (w.call sharer.engine now limit access).world
  | .invalidate => { w with session := { w.session with memo := w.session.memo.clear } }
  | .change edit => { w with store := edit w.store }

def run (w : World) (steps : List (Step settings)) : World := steps.foldl step w

def results (w : World) : List (Step settings) → List (Except Interruption (List Forecast))
  | [] => []
  | .forecast sharer now limit access :: rest =>
    let call := w.call sharer.engine now limit access
    call.result :: call.world.results rest
  | .invalidate :: rest => (w.step (.invalidate : Step settings)).results rest
  | .change edit :: rest => (w.step (.change edit : Step settings)).results rest

end World

theorem fleetsAnswered_ok {answer : (r : Read) → Except Interruption r.Answer} {e : Engine}
    {fleet : Index String EntityRecord} (h : answer e.fleetRead = .ok fleet) :
    (fleetsAnswered answer [e.fleetRead]).getLast? = some fleet := by
  simp only [fleetsAnswered, h]
  rfl

theorem fleetsAnswered_error {answer : (r : Read) → Except Interruption r.Answer} {e : Engine}
    {i : Interruption} (h : answer e.fleetRead = .error i) :
    (fleetsAnswered answer [e.fleetRead]).getLast? = none := by
  simp only [fleetsAnswered, h, List.getLast?_nil]

/-- The three ways in which a call can end, each with all that it leaves behind. -/
inductive Ending (w : World) (e : Engine) (now limit : Nat) (access : Access) (c : Call) : Prop
  | served (forecasts : List Forecast)
      (found : w.session.memo.get? now limit = some forecasts)
      (result : c.result = .ok forecasts) (reads : c.reads = [])
      (memo : c.world.session.memo = w.session.memo) (last : c.world.lastFleet = w.lastFleet)
  | computed (fleet : Index String EntityRecord)
      (missed : w.session.memo.get? now limit = none)
      (answered : access w.store e.fleetRead = .ok fleet)
      (result : c.result = .ok (e.fleetForecaster.mostUrgent fleet limit))
      (reads : c.reads = [e.fleetRead])
      (memo : c.world.session.memo =
        w.session.memo.store now limit (e.fleetForecaster.mostUrgent fleet limit))
      (last : c.world.lastFleet = some fleet)
  | refused (i : Interruption)
      (missed : w.session.memo.get? now limit = none)
      (answered : access w.store e.fleetRead = .error i)
      (result : c.result = .error i) (reads : c.reads = [e.fleetRead])
      (memo : c.world.session.memo = w.session.memo) (last : c.world.lastFleet = w.lastFleet)

theorem call_ending (w : World) (e : Engine) (now limit : Nat) (access : Access) :
    Ending w e now limit access (w.call e now limit access) := by
  let source : Source := fun _ r => access w.store r
  rcases hg : w.session.memo.get? now limit with _ | forecasts
  · rcases hf : access w.store e.fleetRead with i | fleet
    · obtain ⟨s', he, hm, hj⟩ :=
        e.exec_fleetForecast_error source hg hf
      refine .refused i hg hf ?_ ?_ ?_ ?_ <;>
        simp [World.call, source, he, hm, hj, fleetsAnswered_error hf]
    · obtain ⟨s', he, hm, hj⟩ :=
        e.exec_fleetForecast_miss source hg hf
      refine .computed fleet hg hf ?_ ?_ ?_ ?_ <;>
        simp [World.call, source, he, hm, hj, fleetsAnswered_ok hf]
      rfl
  · obtain ⟨s', he, hm, hj⟩ :=
      e.exec_fleetForecast_hit source hg
    refine .served forecasts hg ?_ ?_ ?_ ?_ <;>
      simp [World.call, source, he, hm, hj, fleetsAnswered]

variable {settings : ForecastSettings}

theorem Sharer.fleetForecaster (m : Sharer settings) :
    m.engine.fleetForecaster = settings.fleetForecaster := by
  rw [Engine.fleetForecaster, m.agrees]

/-- The memo holds the forecasts of the last fleet for the limit that it was filled for. -/
def Faithful (settings : ForecastSettings) (w : World) : Prop :=
  ∀ entry, w.session.memo.entry = some entry → ∃ fleet, w.lastFleet = some fleet ∧
    entry.forecasts = settings.fleetForecaster.mostUrgent fleet entry.limit

theorem start_faithful (store : Store) (ttlSeconds : Nat) (journal : Journal) :
    Faithful settings (.start store ttlSeconds journal) := by
  intro entry h
  simp [World.start, Memo.ofTtl] at h

theorem step_faithful {w : World} (h : Faithful settings w) (step : Step settings) :
    Faithful settings (w.step step) := by
  intro entry he
  cases step with
  | forecast m now limit access =>
    simp only [World.step] at he ⊢
    -- only a computed forecast touches the entry, and it notes its own fleet as the last one
    rcases call_ending w m.engine now limit access with
      ⟨_, _, _, _, hm, hl⟩ | ⟨fleet, _, _, _, _, hm, hl⟩ | ⟨_, _, _, _, _, hm, hl⟩
    · rw [hm] at he
      rw [hl]
      exact h entry he
    · rw [hm] at he
      obtain rfl := Option.some.inj he
      exact ⟨fleet, hl, by rw [m.fleetForecaster]⟩
    · rw [hm] at he
      rw [hl]
      exact h entry he
  | invalidate => simp [World.step, Memo.clear] at he
  | change edit => exact h entry he

theorem run_faithful {w : World} (h : Faithful settings w) (steps : List (Step settings)) :
    Faithful settings (w.run steps) := by
  induction steps generalizing w with
  | nil => exact h
  | cons step rest ih => exact ih (step_faithful h step)

def fleetAt (w : World) (e : Engine) (access : Access) :
    Except Interruption (Index String EntityRecord) := access w.store e.fleetRead

theorem call_result (w : World) (e : Engine) (now limit : Nat) (access : Access) :
    (w.call e now limit access).result =
      match w.session.memo.get? now limit with
      | some forecasts => .ok forecasts
      | none => (fleetAt w e access).map fun fleet => e.fleetForecaster.mostUrgent fleet limit := by
  rcases call_ending w e now limit access with
    ⟨_, hg, hr, _⟩ | ⟨_, hg, ha, hr, _⟩ | ⟨_, hg, ha, hr, _⟩
  · rw [hr, hg]
  · rw [hr, hg, fleetAt, ha]; rfl
  · rw [hr, hg, fleetAt, ha]; rfl

theorem call_memo (w : World) (e : Engine) (now limit : Nat) (access : Access) :
    (w.call e now limit access).world.session.memo =
      match w.session.memo.get? now limit, fleetAt w e access with
      | none, .ok fleet =>
        w.session.memo.store now limit (e.fleetForecaster.mostUrgent fleet limit)
      | _, _ => w.session.memo := by
  rcases call_ending w e now limit access with
    ⟨_, hg, _, _, hm, _⟩ | ⟨_, hg, ha, _, _, hm, _⟩ | ⟨_, hg, ha, _, _, hm, _⟩
  · rw [hm, hg]
  · rw [hm, hg, fleetAt, ha]
  · rw [hm, hg, fleetAt, ha]

/-- Results hang on the store and the memo alone. -/
theorem results_congr {v w : World} (hs : v.store = w.store)
    (hm : v.session.memo = w.session.memo) (steps : List (Step settings)) :
    v.results steps = w.results steps := by
  induction steps generalizing v w with
  | nil => rfl
  | cons step rest ih =>
    cases step with
    | forecast m now limit access =>
      -- equal results, and again an equal store and memo for the calls that follow
      have hr : (v.call m.engine now limit access).result =
          (w.call m.engine now limit access).result := by
        rw [call_result, call_result, hm, fleetAt, fleetAt, hs]
      have hk : (v.call m.engine now limit access).world.session.memo =
          (w.call m.engine now limit access).world.session.memo := by
        rw [call_memo, call_memo, hm, fleetAt, fleetAt, hs]
      simp only [World.results, hr]
      rw [ih (v := (v.call m.engine now limit access).world)
        (w := (w.call m.engine now limit access).world) hs hk]
    | invalidate => exact ih hs (by simp [World.step, hm])
    | change edit => exact ih (by simp [World.step, hs]) hm

/-- As long as no call has a result, an empty memo stays empty. -/
theorem run_empty {w : World} {steps : List (Step settings)} (h : w.session.memo.entry = none)
    (hr : ∀ r ∈ w.results steps, ∃ i, r = .error i) :
    (w.run steps).session.memo.entry = none := by
  induction steps generalizing w with
  | nil => exact h
  | cons step rest ih =>
    cases step with
    | forecast m now limit access =>
      simp only [World.results, List.mem_cons, forall_eq_or_imp] at hr
      obtain ⟨⟨i, hi⟩, hr⟩ := hr
      rcases call_ending w m.engine now limit access with
        ⟨_, _, hk, _⟩ | ⟨_, _, _, hk, _⟩ | ⟨_, _, _, _, _, hk, _⟩
      · rw [hk] at hi; cases hi
      · rw [hk] at hi; cases hi
      · exact ih (by rw [World.step, hk, h]) hr
    | invalidate => exact ih (by rfl) hr
    | change edit => exact ih h hr

/-- However engines share a memo, a call that comes out ok gives a forecast, for its own limit, of the
last fleet read with success: the one before it where it makes no read, and else its own. With no
result since an invalidation a call makes its read, whatever else happened in between. A call that
fails leaves the memo as it was, and every later call comes out as if it had not been made. -/
theorem call_transparent (store : Store) (ttlSeconds : Nat) (journal : Journal)
    (earlier : List (Step settings)) (m : Sharer settings) (now limit : Nat) (access : Access) :
    let w := (World.start store ttlSeconds journal).run earlier
    let c := w.call m.engine now limit access
    let invalidated := w.step (.invalidate : Step settings)
    (∀ forecasts, c.result = .ok forecasts → ∃ fleet,
      forecasts = m.engine.fleetForecaster.mostUrgent fleet limit ∧
      c.world.lastFleet = some fleet ∧
      (c.reads = [] ∧ w.lastFleet = some fleet ∨
        c.reads = [m.engine.fleetRead] ∧ access w.store m.engine.fleetRead = .ok fleet)) ∧
    (∀ quiet : List (Step settings), (∀ r ∈ invalidated.results quiet, ∃ i, r = .error i) →
      ((invalidated.run quiet).call m.engine now limit access).reads = [m.engine.fleetRead]) ∧
    (∀ i, c.result = .error i → c.reads = [m.engine.fleetRead] ∧
      c.world.session.memo = w.session.memo ∧ c.world.lastFleet = w.lastFleet ∧
      ∀ later : List (Step settings), c.world.results later = w.results later) := by
  intro w c invalidated
  have hw : Faithful settings w := run_faithful (start_faithful store ttlSeconds journal) earlier
  refine ⟨fun forecasts hf => ?_, fun quiet hq => ?_, fun i hi => ?_⟩
  · rcases call_ending w m.engine now limit access with
      ⟨_, hg, hr, hn, _, hl⟩ | ⟨fleet, _, ha, hr, hn, _, hl⟩ | ⟨_, _, _, hr, _⟩
    · -- served: a beginning of the entry, which holds the most urgent of the last fleet
      obtain ⟨entry, he, hle, ht⟩ := Memo.get?_eq_some hg
      obtain ⟨fleet, hlast, hres⟩ := hw entry he
      obtain rfl := Except.ok.inj (hr.symm.trans hf)
      refine ⟨fleet, ?_, hl.trans hlast, .inl ⟨hn, hlast⟩⟩
      rw [ht, hres, FleetForecaster.mostUrgent_take _ _ hle, m.fleetForecaster]
    · obtain rfl := Except.ok.inj (hr.symm.trans hf)
      exact ⟨fleet, rfl, hl, .inr ⟨hn, ha⟩⟩
    · cases hr.symm.trans hf
  · have he : (invalidated.run quiet).session.memo.entry = none := run_empty rfl hq
    rcases call_ending (invalidated.run quiet) m.engine now limit access with
      ⟨_, hg, _⟩ | ⟨_, _, _, _, hr, _⟩ | ⟨_, _, _, _, hr, _⟩
    · obtain ⟨entry, hs, _⟩ := Memo.get?_eq_some hg
      rw [he] at hs
      cases hs
    · exact hr
    · exact hr
  · rcases call_ending w m.engine now limit access with
      ⟨_, _, hr, _⟩ | ⟨_, _, _, hr, _⟩ | ⟨_, _, _, _, hn, hm, hl⟩
    · cases hr.symm.trans hi
    · cases hr.symm.trans hi
    · exact ⟨hn, hm, hl, results_congr rfl hm⟩

end SharedMemo

end FleetHealth
