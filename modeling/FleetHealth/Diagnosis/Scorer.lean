import FleetHealth.Decimal.Digits
import FleetHealth.Diagnosis.Pattern

/-!
# Diagnoses

The verdicts of one entity that deviate enough at the same time make one diagnosis. Its score is the
root mean square of their z-scores, so it lies between the smallest and the largest of them.
-/
namespace FleetHealth

inductive Severity where
  | low
  | medium
  | high
  | critical
  deriving DecidableEq, Repr

namespace Severity

def all : List Severity := [low, medium, high, critical]

def name : Severity → String
  | low => "low"
  | medium => "medium"
  | high => "high"
  | critical => "critical"

def ofName? (s : String) : Option Severity := all.find? (fun v => v.name == s)

theorem ofName?_name (v : Severity) : ofName? v.name = some v := by cases v <;> decide

def ofScore (score : Float) : Severity :=
  if score ≥ 5.0 then critical
  else if score ≥ 3.5 then high
  else if score ≥ 2.0 then medium
  else low

/-- Whether an operator should be woken. -/
def isUrgent : Severity → Bool
  | high | critical => true
  | _ => false

end Severity

structure Diagnosis where
  entity : String
  deviations : List Deviation
  score : Float
  pattern : Option Pattern
  severity : Severity
  time : Instant

namespace Diagnosis

/-- One line for an operator: pattern, deviating metrics, score and severity. -/
def summary (d : Diagnosis) : String :=
  let label := (d.pattern.map Pattern.name).getD "Concurrent deviation"
  let parts := d.deviations.map fun v => v.metric.name ++ " z=" ++ Decimal.fixed 2 v.zScore
  label ++ ": " ++ ", ".intercalate parts ++ " (score " ++ Decimal.fixed 2 d.score ++ ", " ++
    d.severity.name ++ ")"

/-- Highest score first, ties by entity. -/
def precedes (a b : Diagnosis) : Bool :=
  ((Binary64.totalCompare b.score a.score).then (compare a.entity b.entity)).isLE

def sortByScore (ds : List Diagnosis) : List Diagnosis := ds.mergeSort precedes

end Diagnosis

/-- Root mean square of a list that is not empty; squares are added from the left. -/
def rootMeanSquare (xs : List Float) : Float :=
  (Binary64.sumFrom 0.0 (xs.map fun x => x * x) / Binary64.count xs).sqrt

structure Scorer where
  /-- A z-score of larger magnitude is elevated. -/
  elevated : Float
  /-- A diagnosis of smaller score is dropped. -/
  minScore : Float
  rules : List Rule

namespace Scorer

def isElevated (s : Scorer) (v : Verdict) : Bool :=
  v.zScore.isFinite && decide (v.zScore.abs > s.elevated)

/-- Larger magnitude of the z-score first. -/
def deviatesMore (a b : Deviation) : Bool :=
  (Binary64.totalCompare b.zScore.abs a.zScore.abs).isLE

/-- The elevated verdicts, largest deviation first, equal ones in the order given. -/
def deviations (s : Scorer) (verdicts : List Verdict) : List Deviation :=
  ((verdicts.filter s.isElevated).map fun v => ⟨v.metric, v.current, v.mean, v.zScore⟩).mergeSort
    deviatesMore

/-- The diagnosis of one entity's verdicts; none where nothing is elevated or the score is
too low. -/
def diagnose (s : Scorer) (entity : String) (verdicts : List Verdict) (time : Instant) :
    Option Diagnosis :=
  let elevated := s.deviations verdicts
  let score := Binary64.roundTo (rootMeanSquare (elevated.map (·.zScore.abs))) 2
  if elevated.isEmpty ∨ score < s.minScore then none
  else some ⟨entity, elevated, score, Rule.classify? s.rules ⟨verdicts, elevated⟩,
    Severity.ofScore score, time⟩

def byEntity (verdicts : List Verdict) : Index String (List Verdict) :=
  verdicts.foldl (fun i v => i.alter v.entity fun vs => vs.getD [] ++ [v]) .empty

/-- The diagnoses of all entities among the verdicts, highest score first. -/
def diagnoseFleet (s : Scorer) (verdicts : List Verdict) (time : Instant) : List Diagnosis :=
  Diagnosis.sortByScore ((byEntity verdicts).entries.filterMap fun (entity, vs) =>
    s.diagnose entity vs time)

end Scorer

end FleetHealth
