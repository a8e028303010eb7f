import FleetHealth.Binary64

/-!
# Kinds of measurement

The measurements a fleet reports, their names in texts, the families a diagnosis looks at, and the
range a value can lie in.
-/
namespace FleetHealth

inductive Metric where
  | cpu
  | memory
  | memoryBytes
  | networkRxBytes
  | networkTxBytes
  | disk
  deriving DecidableEq, Repr, Inhabited

namespace Metric

/-- All metrics, in the order by which they sort. -/
def all : List Metric := [cpu, memory, memoryBytes, networkRxBytes, networkTxBytes, disk]

def name : Metric → String
  | cpu => "cpu"
  | memory => "memory"
  | memoryBytes => "memory_bytes"
  | networkRxBytes => "network_rx_bytes"
  | networkTxBytes => "network_tx_bytes"
  | disk => "disk"

def ofName? (s : String) : Option Metric := all.find? (fun m => m.name == s)

theorem ofName?_name (m : Metric) : ofName? m.name = some m := by cases m <;> decide

def position : Metric → Nat
  | cpu => 0
  | memory => 1
  | memoryBytes => 2
  | networkRxBytes => 3
  | networkTxBytes => 4
  | disk => 5

instance : Ord Metric := ⟨fun a b => compare a.position b.position⟩

instance : Std.TransOrd Metric where
  eq_swap := by intro a b; cases a <;> cases b <;> decide
  isLE_trans := by intro a b c; cases a <;> cases b <;> cases c <;> decide

instance : Std.LawfulEqOrd Metric where
  eq_of_compare := by intro a b; cases a <;> cases b <;> decide

/-- Utilisation in percent. -/
def isPercentage : Metric → Bool
  | cpu | memory | disk => true
  | _ => false

def inCpuFamily : Metric → Bool
  | cpu => true
  | _ => false

def inMemoryFamily : Metric → Bool
  | memory | memoryBytes => true
  | _ => false

def least (_ : Metric) : Float := 0.0

def greatest (m : Metric) : Float := if m.isPercentage then 100.0 else Binary64.greatest

/-- The nearest value a measurement can have. -/
def clamp (m : Metric) (x : Float) : Float := Binary64.clamp m.least m.greatest x

end Metric

end FleetHealth
