import FleetHealth.Binary64

/-!
# Decimal digits

Digit characters, padding and reading back, shared by every text that holds a number. A double is
written to a fixed number of places: the exact binary value is rounded, an exact tie going to the even
last digit. Every integer digit is written, and the sign stays on a negative zero.
-/
namespace FleetHealth.Decimal

def digitChar (d : Nat) : Char := Char.ofNat (48 + d % 10)

/-- The decimal digits of a number, most significant first; zero has the one digit 0. -/
def digits (n : Nat) : List Char :=
  if n < 10 then [digitChar n] else digits (n / 10) ++ [digitChar n]
termination_by n
decreasing_by omega

/-- The digits, with zeros in front up to `width` characters. -/
def padded (width n : Nat) : List Char :=
  let ds := digits n
  List.replicate (width - ds.length) '0' ++ ds

def digitValue? (c : Char) : Option Nat :=
  if '0' ≤ c ∧ c ≤ '9' then some (c.toNat - 48) else none

/-- The number written by a run of digit characters; other characters count as 0. -/
def value (cs : List Char) : Nat :=
  cs.foldl (fun n c => 10 * n + (digitValue? c).getD 0) 0

/-- The longest run of digits in front, and the rest. -/
def takeDigits (cs : List Char) : List Char × List Char :=
  cs.span (fun c => (digitValue? c).isSome)

/-! ### A fixed number of places -/

open FleetHealth.Binary64 (Scaled)

/-- Nearest natural to `num / den`, a tie going to the even one. -/
def nearestEven (num den : Nat) : Nat :=
  let q := num / den
  match compare (2 * (num % den)) den with
  | .lt => q
  | .gt => q + 1
  | .eq => if q % 2 = 0 then q else q + 1

/-- The magnitude of `x` in units of `10 ^ -places`. -/
def unitsAt (places : Nat) (x : Scaled) : Nat :=
  nearestEven (x.significand * Nat.pow 2 x.exponent.toNat * Nat.pow 10 places)
    (Nat.pow 2 (-x.exponent).toNat)

/-- Units of `10 ^ -places` with the decimal point set. -/
def withPoint (places units : Nat) : List Char :=
  let ds := padded (places + 1) units
  if places = 0 then ds
  else ds.take (ds.length - places) ++ '.' :: ds.drop (ds.length - places)

/-- A double to a fixed number of places, with `plus` in front unless it has a minus sign; NaN has
no sign at all. -/
def fixedWith (plus : String) (places : Nat) (x : Float) : String :=
  if x.isNaN then "NaN"
  else
    let sign := if Binary64.signBit x then "-" else plus
    if x.isFinite then sign ++ String.ofList (withPoint places (unitsAt places (Scaled.ofFloat x)))
    else sign ++ "inf"

def fixed (places : Nat) (x : Float) : String := fixedWith "" places x

/-- A double to a fixed number of places, its sign always written. -/
def signedFixed (places : Nat) (x : Float) : String := fixedWith "+" places x

end FleetHealth.Decimal
