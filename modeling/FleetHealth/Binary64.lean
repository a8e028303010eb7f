/-!
# Doubles as exact numbers

A finite double is `± significand * 2 ^ exponent` with a natural significand. `Scaled.ofFloat` reads
that form off the bits, so rounding and printing can be done in exact integer arithmetic. Sums run
from the left and start at an explicit zero, because double addition is not associative. Rounding to an
integer takes a half away from zero; rounding to decimal places scales by a power of ten, rounds, and
scales back.
-/
namespace FleetHealth.Binary64

/-- The number `± significand * 2 ^ exponent`. -/
structure Scaled where
  negative : Bool
  significand : Nat
  exponent : Int
  deriving DecidableEq, Repr

/-- The sign bit, set also for negative zero. -/
def signBit (x : Float) : Bool := x.toBits >>> 63 == 1

/-- The bits without the sign bit; on these, order of bits is order of magnitude. -/
def magnitudeBits (x : Float) : Nat := (x.toBits &&& 0x7FFFFFFFFFFFFFFF).toNat

/-- The exact value of a finite double. Infinities and NaN have none, so test for them first. -/
def Scaled.ofFloat (x : Float) : Scaled :=
  let field : Nat := magnitudeBits x / 0x10000000000000
  let fraction : Nat := magnitudeBits x % 0x10000000000000
  if field = 0 then ⟨signBit x, fraction, -1074⟩
  else ⟨signBit x, 0x10000000000000 + fraction, (field : Int) - 1075⟩

/-- Position in the total order of doubles, in which `-0.0` stands below `0.0` and every bit pattern
has its own place. -/
def rank (x : Float) : Int :=
  if signBit x then -(magnitudeBits x : Int) - 1 else magnitudeBits x

def totalCompare (x y : Float) : Ordering := compare (rank x) (rank y)

/-- Distance from 1 to the next larger double. -/
def epsilon : Float := 2.220446049250313e-16

/-- Greatest finite double. -/
def greatest : Float := 1.7976931348623157e308

def infinity : Float := Float.ofBits 0x7FF0000000000000

def nan : Float := Float.ofBits 0x7FF8000000000000

/-- Raises `x` to `low`, then lowers it to `high`; NaN passes, and so does a zero of either sign. -/
def clamp (low high x : Float) : Float :=
  let raised := if x < low then low else x
  if raised > high then high else raised

/-- Sum from the left, starting at `start`. -/
def sumFrom (start : Float) (xs : List Float) : Float := xs.foldl (· + ·) start

/-- Sum from the left of the terms alone: `-0.0` is the neutral element of addition. -/
def sum (xs : List Float) : Float := sumFrom (-0.0) xs

def count {α : Type} (xs : List α) : Float := Float.ofNat xs.length

/-! ### Rounding -/

/-- The integer nearest to the magnitude, a half going up. -/
def Scaled.nearest (s : Scaled) : Nat :=
  match s.exponent with
  | .ofNat k => s.significand * Nat.pow 2 k
  | .negSucc k => (s.significand + Nat.pow 2 k) / Nat.pow 2 (k + 1)

def Scaled.floor (s : Scaled) : Nat :=
  match s.exponent with
  | .ofNat k => s.significand * Nat.pow 2 k
  | .negSucc k => s.significand / Nat.pow 2 (k + 1)

/-- Nearest integral double, a half going away from zero; the sign stays on a zero result. -/
def roundHalfAway (x : Float) : Float :=
  if x.isFinite then
    let s := Scaled.ofFloat x
    if s.negative then -Float.ofNat s.nearest else Float.ofNat s.nearest
  else x

/-- Integer part of a finite double, toward zero. -/
def truncate (x : Float) : Int :=
  let s := Scaled.ofFloat x
  if s.negative then -(s.floor : Int) else s.floor

/-- `base ^ n` times `acc` by repeated squaring, each product rounded. -/
def powerTimes (acc base : Float) (n : Nat) : Float :=
  let acc := if n % 2 = 1 then acc * base else acc
  if n / 2 = 0 then acc else powerTimes acc (base * base) (n / 2)
termination_by n
decreasing_by omega

/-- Ten to an integer power; a negative power is the reciprocal of the positive one. -/
def powerOfTen (places : Int) : Float :=
  let magnitude := powerTimes 1.0 10.0 places.natAbs
  if places < 0 then 1.0 / magnitude else magnitude

/-- Round to decimal places, a half going away from zero. A value that is not finite becomes 0, one
too large to scale is kept as it is, and a zero result is positive. -/
def roundTo (value : Float) (places : Int) : Float :=
  if value.isFinite then
    let factor := powerOfTen places
    let scaled := value * factor
    if scaled.isFinite then
      let rounded := roundHalfAway scaled / factor
      if rounded == 0.0 then 0.0 else rounded
    else value
  else 0.0

end FleetHealth.Binary64
