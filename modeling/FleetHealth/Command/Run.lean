import FleetHealth.Command.Request
import FleetHealth.Json.Writer
import FleetHealth.Monitor.Engine
import FleetHealth.Report
import FleetHealth.Settings.Layers
import FleetHealth.Store.File
import FleetHealth.Toml.Reader

/-!
# Running a request

A request is run against what the machine holds: its files, its environment, its clock. Settings
come from a file, the environment and the request, in this order; they are checked before the
request has its say and after. Then the snapshot is loaded, and the engine does the rest.
-/
namespace FleetHealth.Command

/-- What a run sees of the machine. -/
structure Machine where
  env : List (String × String)
  /-- The content of a file, if it can be read. -/
  file? : String → Option ByteArray
  /-- The settings file of the user, used where no other is named. -/
  homeConfig : Option String
  now : Instant
  onTerminal : Bool

def Machine.lookup (m : Machine) (name : String) : Option String :=
  (m.env.find? (·.1 == name)).map (·.2)

inductive Failure where
  | settingsUnreadable
  | settingsMalformed
  | settingsInvalid (cause : SettingsError)
  | noSnapshot
  | snapshotUnusable (path : String) (cause : FileError)
  | interrupted (task : String) (cause : Interruption)

namespace Failure

def message : Failure → String
  | settingsUnreadable => "Failed to read configuration"
  | settingsMalformed => "Failed to parse configuration"
  | settingsInvalid _ => "Invalid configuration"
  | noSnapshot => "No metrics snapshot given; pass --snapshot <file> or set " ++ snapshotVariable
  | snapshotUnusable path _ => "Failed to load snapshot " ++ path
  | interrupted task _ => "Failed to " ++ task

/-- What was wrong beneath, where that can be said. -/
def cause? : Failure → Option String
  | settingsInvalid cause => some cause.message
  | interrupted _ (.refused cause) => some cause.message
  | _ => none

end Failure

inductive Answer where
  | json (value : Json)
  | page (lines : List String)

def Answer.text : Answer → String
  | json value => Json.Writer.pretty 0 value
  | page lines => "\n".intercalate lines

/-- The text of a settings file without the mark that can stand in front of it. -/
def settingsText? (content : ByteArray) : Option String :=
  (String.fromUTF8? content).map fun s =>
    if s.startsWith "\uFEFF" then (s.drop 1).toString else s

/-- The layer of a JSON text: an object whose numbers are in range, nested no deeper than 127. -/
def layerOfJson? (text : String) : Option Settings.Layer := do
  let j ← Json.Reader.read? text
  guard (j.nestedWithin 127 && j.inRange)
  match j with
  | .object members => some (Settings.Tree.ofMembers members)
  | _ => none

/-- The layer of a settings file, whose form is told by the end of its name. -/
def layerOf? (path text : String) : Option Settings.Layer :=
  if path.endsWith ".json" then layerOfJson? text
  else if path.endsWith ".toml" then Toml.Reader.read? text
  else none

/-- The layer of the settings file: the one named, which has to be there, or else the user's, which
may be missing. -/
def fileLayer (m : Machine) (named : Option String) : Except Failure Settings.Layer :=
  match named with
  | some path =>
    match ((m.file? path).bind settingsText?).bind (layerOf? path) with
    | some layer => .ok layer
    | none => .error .settingsUnreadable
  | none =>
    match m.homeConfig.bind fun path => ((m.file? path).bind settingsText?).map (layerOf? path) with
    | some (some layer) => .ok layer
    | some none => .error .settingsUnreadable
    | none => .ok []

/-- The checked settings of the file and the environment. -/
def loadSettings (m : Machine) (named : Option String) : Except Failure Settings := do
  let layer ← fileLayer m named
  match Settings.ofLayers? [layer, Settings.environmentLayer m.env] with
  | none => .error .settingsMalformed
  | some s => do
    s.validate.mapError .settingsInvalid
    return s

def Action.override (s : Settings) : Action → Settings
  | detect _ _ threshold => threshold.elim s fun x => RealSetting.set s x .anomalyThreshold
  | composite _ minScore => minScore.elim s fun x => RealSetting.set s x .minScore
  | correlate metrics threshold hours =>
    let s := threshold.elim s fun x => RealSetting.set s x .correlationThreshold
    let c := s.correlation
    { s with correlation := { c with
        tracked := if metrics.isEmpty then c.tracked else metrics
        lookbackHours := hours.getD c.lookbackHours } }
  | forecast _ _ threshold => threshold.elim s fun x => RealSetting.set s x .forecastThreshold
  | scan _ => s

def engineOf (m : Machine) (r : Request) : Except Failure Engine := do
  let s ← loadSettings m r.config
  let e ← (Engine.ofSettings (r.action.override s)).mapError .settingsInvalid
  return { e with label := "fleet-insight" }

def storeOf (m : Machine) (r : Request) : Except Failure Store :=
  match r.snapshot with
  | none => .error .noSnapshot
  | some path => (Store.ofSnapshotFile (m.file? path)).mapError (.snapshotUnusable path)

inductive Outcome where
  | report (report : Report)
  | fleet (report : FleetReport)

def Outcome.answer (styled asJson : Bool) : Outcome → Answer
  | report r => if asJson then .json r.data else .page (r.lines styled)
  | fleet r => if asJson then .json r.data else .page (r.lines styled)

/-- A step of an action. Where it is interrupted, the step is what failed. -/
abbrev Step := ExceptT Failure (StateM Session)

def perform {α : Type} (m : Machine) (store : Store) (task : String) (run : Run α) : Step α :=
  fun session =>
    let (result, session) := run.exec (store.source m.now) session
    (result.mapError (.interrupted task), session)

def detect (m : Machine) (store : Store) (e : Engine) (entity : String) (metrics : List Metric) :
    Step Outcome := do
  let metrics := if metrics.isEmpty then e.settings.anomaly.tracked else metrics
  let verdicts ← perform m store ("scan entity '" ++ entity ++ "'") (e.scanEntity entity metrics)
  return .report
    (.ofVerdicts ("Anomaly verdicts for " ++ entity) e.settings.anomaly.threshold verdicts)

def composite (m : Machine) (store : Store) (e : Engine) : Option String → Step Outcome
  | some entity => do
    let (_, diagnosis) ← perform m store ("scan entity '" ++ entity ++ "'") (e.examine m.now entity)
    return .report (.ofDiagnoses ("Composite anomalies for " ++ entity) diagnosis.toList)
  | none => do
    let found ← perform m store "scan fleet" (e.scanFleet m.now)
    return .report (.ofDiagnoses "Composite anomalies" found.diagnoses)

def correlate (m : Machine) (store : Store) (e : Engine) : Step (List Correlation.Pair) :=
  perform m store "correlate fleet metrics" e.correlations

def fleetForecasts (m : Machine) (store : Store) (e : Engine) (limit : Nat) :
    Step (List Capacity.Forecast) :=
  perform m store "forecast fleet capacity" (e.fleetForecast 0 limit)

def forecast (m : Machine) (store : Store) (e : Engine) (limit : Nat) : Option String → Step Outcome
  | some entity => do
    let forecasts ← perform m store ("forecast '" ++ entity ++ "'") (e.entityForecasts entity)
    return .report (.ofForecasts ("Capacity forecast for " ++ entity) forecasts)
  | none => do
    return .report (.ofForecasts ("Capacity forecast (top " ++ toString limit ++ ")")
      (← fleetForecasts m store e limit))

def scan (m : Machine) (store : Store) (e : Engine) (limit : Nat) : Step Outcome := do
  let found ← perform m store "scan fleet" (e.scanFleet m.now)
  let pairs ← correlate m store e
  let forecasts ← fleetForecasts m store e limit
  return .fleet ⟨store.entities.length, found.verdicts.length,
    .ofVerdicts "Anomalies" e.settings.anomaly.threshold found.anomalies,
    .ofDiagnoses "Composite anomalies" found.diagnoses, .ofPairs "Correlated entities" pairs,
    .ofForecasts "Capacity forecast" forecasts⟩

def act (m : Machine) (store : Store) (e : Engine) : Action → Step Outcome
  | .detect entity metrics _ => detect m store e entity metrics
  | .composite entity _ => composite m store e entity
  | .correlate _ _ _ => do return .report (.ofPairs "Correlated entities" (← correlate m store e))
  | .forecast entity limit _ => forecast m store e limit entity
  | .scan limit => scan m store e limit

def Request.run (m : Machine) (r : Request) : Except Failure Answer := do
  let e ← engineOf m r
  let store ← storeOf m r
  let (outcome, _) := (act m store e r.action).run ⟨e.newMemo, .empty⟩
  return (← outcome).answer (Terminal.stylesOn m.lookup m.onTerminal) r.asJson

def versionLine : String := "fleet-insight 0.1.0"

end FleetHealth.Command
