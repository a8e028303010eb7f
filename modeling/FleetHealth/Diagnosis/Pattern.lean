import FleetHealth.Anomaly.Detector

/-!
# Failure patterns

A pattern names a known failure. Rules tie patterns to conditions on the verdicts of one entity and
on the elevated ones among them; the first rule that holds decides.
-/
namespace FleetHealth

inductive Pattern where
  | resourceExhaustion
  | memoryLeakSuspected
  | cpuSpike
  deriving DecidableEq, Repr

namespace Pattern

def all : List Pattern := [resourceExhaustion, memoryLeakSuspected, cpuSpike]

def name : Pattern → String
  | resourceExhaustion => "Resource Exhaustion"
  | memoryLeakSuspected => "Memory Leak Suspected"
  | cpuSpike => "CPU Spike"

def ofName? (s : String) : Option Pattern := all.find? (fun p => p.name == s)

theorem ofName?_name (p : Pattern) : ofName? p.name = some p := by cases p <;> decide

end Pattern

structure Deviation where
  metric : Metric
  current : Float
  mean : Float
  zScore : Float

structure Findings where
  verdicts : List Verdict
  elevated : List Deviation

namespace Findings

def cpuElevated (f : Findings) : Bool := f.elevated.any (·.metric.inCpuFamily)

def memoryElevated (f : Findings) : Bool := f.elevated.any (·.metric.inMemoryFamily)

/-- Some processor verdict has a signed z-score above the threshold. -/
def cpuAbove (f : Findings) (threshold : Float) : Bool :=
  f.verdicts.any fun v => v.metric.inCpuFamily && decide (v.zScore > threshold)

def memoryAbove (f : Findings) (threshold : Float) : Bool :=
  f.verdicts.any fun v => v.metric.inMemoryFamily && decide (v.zScore > threshold)

end Findings

/-- The questions that rules are commonly made of. -/
inductive Condition where
  | always
  | cpuElevated
  | memoryElevated
  | cpuAbove (threshold : Float)
  | memoryAbove (threshold : Float)
  | negation (c : Condition)
  | either (a b : Condition)

def Condition.holds (f : Findings) : Condition → Bool
  | always => true
  | cpuElevated => f.cpuElevated
  | memoryElevated => f.memoryElevated
  | cpuAbove threshold => f.cpuAbove threshold
  | memoryAbove threshold => f.memoryAbove threshold
  | negation c => !c.holds f
  | either a b => a.holds f || b.holds f

/-- Whether all of the conditions hold. -/
def Findings.meet (f : Findings) (conditions : List Condition) : Bool :=
  conditions.all (·.holds f)

/-- A rule can ask anything of the findings. -/
structure Rule where
  pattern : Pattern
  applies : Findings → Bool

/-- Conditions that have to hold together are something to ask. -/
instance : Coe (List Condition) (Findings → Bool) := ⟨fun conditions f => f.meet conditions⟩

namespace Rule

def ofConditions (pattern : Pattern) (conditions : List Condition) : Rule := ⟨pattern, conditions⟩

/-- Exhaustion of both families first, then a memory leak, then a processor spike. -/
def standard (exhaustion : Float) : List Rule :=
  [ofConditions .resourceExhaustion [.cpuAbove exhaustion, .memoryAbove exhaustion],
    ofConditions .memoryLeakSuspected [.memoryElevated, .negation .cpuElevated],
    ofConditions .cpuSpike [.cpuElevated, .negation .memoryElevated]]

def classify? (rules : List Rule) (f : Findings) : Option Pattern :=
  (rules.find? (·.applies f)).map (·.pattern)

end Rule

end FleetHealth
