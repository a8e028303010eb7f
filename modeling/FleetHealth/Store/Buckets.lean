import FleetHealth.Binary64
import FleetHealth.Sample

/-!
# Bucketed averages

Samples are grouped into buckets of equal width counted from the epoch, and each bucket is averaged.
A bucket starts at the greatest multiple of the width that is not after its samples.
-/
namespace FleetHealth.Buckets

/-- What makes an operation impossible to finish. -/
inductive Fault where
  | divisionByZero
  deriving DecidableEq, Repr

def Fault.message : Fault → String
  | divisionByZero => "attempt to divide by zero"

/-- A width in milliseconds as a signed 64-bit word, of at least one before it is cut to
the word. -/
def wordWidth (milliseconds : Nat) : Int := Int.bmod (max milliseconds 1 : Nat) UInt64.size

/-- Start of the bucket that holds a sample, in milliseconds since the epoch. -/
def start (width : Int) (s : Sample) : Int := s.time.millis / width * width

def tally (value : Float) : Option (Float × Nat) → Float × Nat
  | none => (0.0 + value, 1)
  | some (sum, n) => (sum + value, n + 1)

/-- The finite samples by bucket start: sum in the order given, and number. -/
def group (width : Int) (samples : List Sample) : Index Int (Float × Nat) :=
  (Series.finite samples).foldl (fun i s => i.alter (start width s) (tally s.value)) .empty

/-- The average of each bucket at its start, in time order; a start outside the calendar
is dropped. -/
def averages (buckets : Index Int (Float × Nat)) : List Sample :=
  buckets.entries.filterMap fun (key, sum, n) =>
    (Instant.ofMillis? key).map fun time => ⟨time, sum / Float.ofNat n⟩

/-- Whether no sample has to be divided by a width of zero. -/
def divides (width : Int) (samples : List Sample) : Bool :=
  width != 0 || (Series.finite samples).isEmpty

/-- The averages of samples in buckets of a width in milliseconds. -/
def average (width : Int) (samples : List Sample) : List Sample := averages (group width samples)

/-- Average the finite samples in buckets of a width given in milliseconds. A width of zero divides
the first of them by nothing. -/
def bucketize (milliseconds : Nat) (samples : List Sample) : Except Fault (List Sample) :=
  let width := wordWidth milliseconds
  if divides width samples then .ok (average width samples) else .error .divisionByZero

end FleetHealth.Buckets
