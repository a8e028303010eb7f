import FleetHealth.Decimal.Digits
import FleetHealth.Terminal
import FleetHealth.Wire.Results

/-!
# Reports

Results as a person reads them: under a title, one row a result, with what needs attention in
colour. A report also has its results as JSON.
-/
namespace FleetHealth

open Terminal

structure Report where
  title : String
  header : List String
  rows : List (List Styled)
  data : Json

/-- The colour of a z-score, by its magnitude in thresholds. -/
def zScoreStyle (threshold z : Float) : Style :=
  if z.abs > threshold * 2.0 then .boldIn .red
  else if z.abs > threshold then .inColour .red
  else if z.abs > threshold / 2.0 then .inColour .yellow
  else .inColour .green

def Severity.style : Severity → Style
  | critical => .boldIn .red
  | high => .inColour .red
  | medium => .inColour .yellow
  | low => .inColour .blue

def Correlation.Strength.style : Correlation.Strength → Style
  | veryStrong => .boldIn .magenta
  | strong => .inColour .magenta
  | _ => .plain

def Capacity.Trend.style : Capacity.Trend → Style
  | increasing => .inColour .red
  | decreasing => .inColour .green
  | stable => .plain

def Capacity.Confidence.style : Capacity.Confidence → Style
  | high => .inColour .green
  | medium => .inColour .yellow
  | low => .inColour .red

/-- An entity, with its display name where that says more. -/
def entityLabel (entity : String) : Option String → String
  | none => entity
  | some name => if name = entity then entity else entity ++ " (" ++ name ++ ")"

namespace Report

def verdictRow (threshold : Float) (v : Verdict) : List Styled :=
  [.plain v.entity, .plain v.metric.name, .plain (Decimal.fixed 2 v.current),
    .plain (Decimal.fixed 2 v.mean), .plain (Decimal.fixed 2 v.deviation),
    ⟨Decimal.signedFixed 2 v.zScore, zScoreStyle threshold v.zScore⟩,
    .plain (if v.isAnomalous then "yes" else "no")]

/-- Verdicts, coloured against the threshold of anomalies. -/
def ofVerdicts (title : String) (threshold : Float) (vs : List Verdict) : Report where
  title := title
  header := ["Entity", "Metric", "Current", "Mean", "Std Dev", "Z-Score", "Anomalous"]
  rows := vs.map (verdictRow threshold)
  data := .array (vs.map Verdict.toJson)

def diagnosisRow (d : Diagnosis) : List Styled :=
  let deviations := d.deviations.map fun v =>
    v.metric.name ++ " z=" ++ Decimal.signedFixed 2 v.zScore
  [.plain d.entity, .plain (Decimal.fixed 2 d.score), ⟨d.severity.name, d.severity.style⟩,
    .plain (d.pattern.elim "-" Pattern.name), .plain (", ".intercalate deviations)]

def ofDiagnoses (title : String) (ds : List Diagnosis) : Report where
  title := title
  header := ["Entity", "Score", "Severity", "Pattern", "Elevated Metrics"]
  rows := ds.map diagnosisRow
  data := .array (ds.map Diagnosis.toJson)

def pairRow (p : Correlation.Pair) : List Styled :=
  [.plain p.metric.name, .plain (entityLabel p.entityA p.nameA),
    .plain (entityLabel p.entityB p.nameB),
    .plain (Decimal.signedFixed 3 p.coefficient), ⟨p.strength.name, p.strength.style⟩,
    .plain p.direction.name, .plain (toString p.sampleCount)]

def ofPairs (title : String) (ps : List Correlation.Pair) : Report where
  title := title
  header := ["Metric", "Entity A", "Entity B", "r", "Strength", "Direction", "Points"]
  rows := ps.map pairRow
  data := .array (ps.map Correlation.Pair.toJson)

def forecastRow (f : Capacity.Forecast) : List Styled :=
  [.plain (entityLabel f.entity f.displayName), .plain f.metric.name,
    .plain (Decimal.fixed 2 f.current),
    ⟨f.trend.name, f.trend.style⟩, .plain (Decimal.signedFixed 4 f.slope),
    .plain (Decimal.fixed 3 f.fit), ⟨f.confidence.name, f.confidence.style⟩,
    .plain (f.hoursToThreshold.elim "-" fun h => Decimal.fixed 1 h ++ "h")]

def ofForecasts (title : String) (fs : List Capacity.Forecast) : Report where
  title := title
  header := ["Entity", "Metric", "Current", "Trend", "Slope/h", "R²", "Confidence", "Threshold In"]
  rows := fs.map forecastRow
  data := .array (fs.map Capacity.Forecast.toJson)

def notice (styled : Bool) (symbol : String) (colour : Colour) (text : String) : String :=
  Styled.render styled ⟨symbol, .boldIn colour⟩ ++ " " ++ text

/-- The report as a titled table and the number of its rows. -/
def lines (styled : Bool) (r : Report) : List String :=
  Styled.render styled ⟨r.title, .bolded⟩ ::
    if r.rows.isEmpty then [notice styled "⚠" .yellow "Nothing to report"]
    else
      (Grid.mk r.header (r.rows.map fun row => row.map (Styled.render styled))).render ++
        ["", "Total: " ++ toString r.rows.length]

end Report

/-- What one pass over a whole fleet finds. -/
structure FleetReport where
  entityCount : Nat
  verdictCount : Nat
  anomalies : Report
  diagnoses : Report
  pairs : Report
  forecasts : Report

namespace FleetReport

def data (r : FleetReport) : Json :=
  .object [("entities", .natural r.entityCount), ("anomalies", r.anomalies.data),
    ("composites", r.diagnoses.data), ("correlations", r.pairs.data),
    ("forecasts", r.forecasts.data)]

/-- A line of counts, then each report after an empty line. -/
def lines (styled : Bool) (r : FleetReport) : List String :=
  Report.notice styled "ℹ" .blue ("Scanned " ++ toString r.entityCount ++ " entities, " ++
      toString r.verdictCount ++ " verdicts") ::
    [r.anomalies, r.diagnoses, r.pairs, r.forecasts].flatMap fun report => "" :: report.lines styled

end FleetReport

end FleetHealth
