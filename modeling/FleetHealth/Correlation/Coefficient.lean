import FleetHealth.Binary64
import FleetHealth.Sample
import Std.Data.TreeMap

/-!
# Alignment and correlation coefficients

Two series are paired at the instants at which both have a finite value. Where a series has several
samples of one instant, the last of them counts; pairs come in the order in which the first series
first reaches their instants. The coefficient of paired values is made of the sums of their products,
with guards that make a series without variance uncorrelated with everything; there are words for its
strength and direction.
-/
namespace FleetHealth.Correlation

/-! ### Alignment -/

/-- The last finite value at each instant. -/
def lastValues (samples : List Sample) : Std.TreeMap Instant Float :=
  (Series.finite samples).foldl (fun m s => m.insert s.time s.value) ∅

/-- The values paired so far, one column for each series, and the place of each instant in them. -/
structure Found where
  places : Std.TreeMap Instant Nat
  xs : Array Float
  ys : Array Float

def Found.empty : Found := ⟨∅, #[], #[]⟩

/-- Take in a sample of the first series, with the values of the second. At an instant met before, its
value takes the place of the earlier one. -/
def Found.add (there : Std.TreeMap Instant Float) (f : Found) (s : Sample) : Found :=
  match there[s.time]?, f.places[s.time]? with
  | none, _ => f
  | some _, some i => { f with xs := f.xs.setIfInBounds i s.value }
  | some y, none => ⟨f.places.insert s.time f.xs.size, f.xs.push s.value, f.ys.push y⟩

def found (a b : List Sample) : Found := (Series.finite a).foldl (Found.add (lastValues b)) .empty

/-- The values of the two series at the instants that they share. -/
def columns (a b : List Sample) : List Float × List Float :=
  ((found a b).xs.toList, (found a b).ys.toList)

def align (a b : List Sample) : List (Float × Float) := (columns a b).1.zip (columns a b).2

/-! ### Coefficients -/

open Binary64 (sumFrom)

/-- Part of the sum of squares below which a variance is cancellation noise. -/
def relativeTolerance : Float := 1e-12

/-- `n² ·` variance of values whose sum is `s` and sum of squares `ss`. -/
def spread (n ss s : Float) : Float := n * ss - s * s

def isFlat (n ss s : Float) : Bool := decide (spread n ss s ≤ relativeTolerance * n * ss)

/-- The correlation coefficient, within [-1, 1]; 0 for fewer than two pairs, without variance, or
where a sum leaves the range of doubles. -/
def coefficient (pairs : List (Float × Float)) : Float :=
  if pairs.length < 2 then 0.0
  else
    let n := Binary64.count pairs
    let sx := sumFrom 0.0 (pairs.map fun (x, _) => x)
    let sy := sumFrom 0.0 (pairs.map fun (_, y) => y)
    let sxy := sumFrom 0.0 (pairs.map fun (x, y) => x * y)
    let sxx := sumFrom 0.0 (pairs.map fun (x, _) => x * x)
    let syy := sumFrom 0.0 (pairs.map fun (_, y) => y * y)
    if isFlat n sxx sx || isFlat n syy sy then 0.0
    else
      let denominator := (spread n sxx sx * spread n syy sy).sqrt
      if !denominator.isFinite || denominator == 0.0 then 0.0
      else
        let r := (n * sxy - sx * sy) / denominator
        if r.isFinite then Binary64.clamp (-1.0) 1.0 r else 0.0

inductive Strength where
  | weak
  | moderate
  | strong
  | veryStrong
  deriving DecidableEq, Repr

namespace Strength

def all : List Strength := [weak, moderate, strong, veryStrong]

def name : Strength → String
  | weak => "weak"
  | moderate => "moderate"
  | strong => "strong"
  | veryStrong => "very_strong"

def ofName? (s : String) : Option Strength := all.find? (fun v => v.name == s)

theorem ofName?_name (v : Strength) : ofName? v.name = some v := by cases v <;> decide

/-- The word for the magnitude of a coefficient. -/
def ofCoefficient (r : Float) : Strength :=
  let a := r.abs
  if a ≥ 0.9 then veryStrong
  else if a ≥ 0.7 then strong
  else if a ≥ 0.4 then moderate
  else weak

def isReported : Strength → Bool
  | strong | veryStrong => true
  | _ => false

end Strength

inductive Direction where
  | positive
  | negative
  deriving DecidableEq, Repr

namespace Direction

def all : List Direction := [positive, negative]

def name : Direction → String
  | positive => "positive"
  | negative => "negative"

def ofName? (s : String) : Option Direction := all.find? (fun v => v.name == s)

theorem ofName?_name (v : Direction) : ofName? v.name = some v := by cases v <;> decide

def ofCoefficient (r : Float) : Direction := if r > 0.0 then positive else negative

end Direction

end FleetHealth.Correlation
