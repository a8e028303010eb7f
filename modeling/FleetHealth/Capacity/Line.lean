import FleetHealth.Binary64
import FleetHealth.Sample

/-!
# Fitted lines

Least-squares line through values over hours, in closed form. Fitting takes sums, products, quotients,
and a test for what counts as nothing. Doubles have these, rounding each result and sometimes leaving
their range; rationals have them exactly. Where the hours do not spread, or a coefficient leaves the range
of the numbers, the line is flat through the mean. In rationals the same definitions give the line of
least squared error itself.
-/
namespace FleetHealth.Capacity

/-- Numbers in which a line can be fitted. -/
class Quantity (α : Type) extends Add α, Sub α, Mul α, Div α where
  zero : α
  one : α
  ofInt : Int → α
  isFinite : α → Bool
  /-- Whether a spread is too small to divide by. -/
  isNegligible : α → Bool
  /-- The nearest number from zero to one. -/
  toUnit : α → α

namespace Quantity

variable {α : Type} [Quantity α]

def total (xs : List α) : α := xs.foldl (· + ·) zero

instance : Quantity Float where
  zero := 0.0
  one := 1.0
  ofInt := Float.ofInt
  isFinite := Float.isFinite
  isNegligible x := decide (x.abs < Binary64.epsilon)
  toUnit := Binary64.clamp 0.0 1.0

/-- The bound on what is negligible is that of doubles. -/
instance : Quantity Rat where
  zero := 0
  one := 1
  ofInt := Rat.ofInt
  isFinite _ := true
  isNegligible x := x.abs.blt (mkRat 1 0x10000000000000)
  toUnit x := if x.blt 0 then 0 else if Rat.blt 1 x then 1 else x

end Quantity

/-! ### Lines -/

open Quantity (total)

structure Line (α : Type) where
  slope : α
  intercept : α
  /-- Part of the variation that the line explains, within [0, 1]. -/
  fit : α

namespace Line

variable {α : Type} [Quantity α]

def value (l : Line α) (x : α) : α := l.slope * x + l.intercept

/-- Hours from one instant to another, counted in whole milliseconds. -/
def hoursSince (first time : Instant) : α :=
  Quantity.ofInt (time.millisSince first) / Quantity.ofInt 3600000

/-- Hours since the first sample, with the value as `read` takes it. -/
def hours (read : Sample → α) (samples : List Sample) : List (α × α) :=
  match samples with
  | [] => []
  | first :: _ => samples.map fun s => (hoursSince first.time s.time, read s)

def count (points : List (α × α)) : α := Quantity.ofInt points.length

/-- Slope and intercept that minimise the squared error, or a flat line through the mean. -/
def coefficients (points : List (α × α)) : α × α :=
  let n := count points
  let sx := total (points.map fun (x, _) => x)
  let sy := total (points.map fun (_, y) => y)
  let sxy := total (points.map fun (x, y) => x * y)
  let sxx := total (points.map fun (x, _) => x * x)
  let denominator := n * sxx - sx * sx
  let flat := (Quantity.zero, sy / n)
  if Quantity.isNegligible denominator then flat
  else
    let slope := (n * sxy - sx * sy) / denominator
    let intercept := (sy - slope * sx) / n
    if Quantity.isFinite slope && Quantity.isFinite intercept then (slope, intercept) else flat

/-- One minus the ratio of residual to total variation, kept within [0, 1]; 0 for values that do not
vary. -/
def explained (points : List (α × α)) (slope intercept : α) : α :=
  let mean := total (points.map fun (_, y) => y) / count points
  let residual := total (points.map fun (x, y) =>
    (y - (slope * x + intercept)) * (y - (slope * x + intercept)))
  let variation := total (points.map fun (_, y) => (y - mean) * (y - mean))
  if Quantity.isNegligible variation then Quantity.zero
  else
    let part := Quantity.one - residual / variation
    if Quantity.isFinite part then Quantity.toUnit part else Quantity.zero

/-- The line fitted to some points; without points it is zero. -/
def through (points : List (α × α)) : Line α :=
  if points.isEmpty then ⟨Quantity.zero, Quantity.zero, Quantity.zero⟩
  else
    let (slope, intercept) := coefficients points
    ⟨slope, intercept, explained points slope intercept⟩

theorem through_eq {points : List (α × α)} (hne : points ≠ []) : through points =
    ⟨(coefficients points).1, (coefficients points).2,
      explained points (coefficients points).1 (coefficients points).2⟩ :=
  if_neg (by simpa using hne)

end Line

end FleetHealth.Capacity
