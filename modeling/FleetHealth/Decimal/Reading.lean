import FleetHealth.Binary64
import FleetHealth.Decimal.Digits

/-!
# Reading decimals

`nearestDouble` is the double nearest to a decimal; exponents far outside the range of doubles are
settled without computing the power. `double?` reads the number texts of options and environment
values, `unsigned?` and `signed?` the integer ones.
-/
namespace FleetHealth.Decimal

/-- The double nearest to `digits * 10 ^ exponent`, infinite when too large. -/
def nearestMagnitude (ds : Nat) (exponent : Int) : Float :=
  let lead := exponent + (digits ds).length
  if ds = 0 then 0.0
  else if lead > 400 then Binary64.infinity
  else if lead < -400 then 0.0
  else Float.ofScientific ds (exponent < 0) exponent.natAbs

/-- The double nearest to `± digits * 10 ^ exponent`; the sign stays on a zero. -/
def nearestDouble (negative : Bool) (ds : Nat) (exponent : Int) : Float :=
  if negative then -nearestMagnitude ds exponent else nearestMagnitude ds exponent

/-- A sign in front, if any: whether it is a minus, and the rest. -/
def takeSign : List Char → Bool × List Char
  | '-' :: rest => (true, rest)
  | '+' :: rest => (false, rest)
  | cs => (false, cs)

/-- An exponent part `e12`, `E-3`, or nothing at all. -/
def exponentPart? : List Char → Option Int
  | [] => some 0
  | c :: rest =>
    if c = 'e' ∨ c = 'E' then
      let (negative, rest) := takeSign rest
      let (ds, tail) := takeDigits rest
      if ds.isEmpty ∨ tail ≠ [] then none
      else some (if negative then -(value ds : Int) else value ds)
    else none

/-- Digits with an optional point, at least one digit in all, then an optional exponent. -/
def unsignedDouble? (negative : Bool) (cs : List Char) : Option Float :=
  let (whole, rest) := takeDigits cs
  let (part, rest) := match rest with
    | '.' :: rest => takeDigits rest
    | rest => ([], rest)
  if whole.isEmpty ∧ part.isEmpty then none
  else (exponentPart? rest).map fun e =>
    nearestDouble negative (value (whole ++ part)) (e - part.length)

/-- A double as written in options: decimal or scientific, or `inf`, `infinity`, `nan` in any case,
each with an optional sign. -/
def double? (s : String) : Option Float :=
  let (negative, rest) := takeSign s.toList
  let word := String.ofList (rest.map Char.toLower)
  if word = "inf" ∨ word = "infinity" then
    some (if negative then -Binary64.infinity else Binary64.infinity)
  else if word = "nan" then some Binary64.nan
  else unsignedDouble? negative rest

def natural? (cs : List Char) : Option Nat :=
  if cs.isEmpty ∨ ¬ cs.all (fun c => (digitValue? c).isSome) then none else some (value cs)

/-- An unsigned 64-bit integer, with an optional plus sign. -/
def unsigned? (s : String) : Option Nat :=
  let cs := match s.toList with
    | '+' :: rest => rest
    | cs => cs
  (natural? cs).filter (· < UInt64.size)

/-- A signed 64-bit integer, with an optional sign. -/
def signed? (s : String) : Option Int :=
  let (negative, rest) := takeSign s.toList
  (natural? rest).bind fun n =>
    if negative then (if n ≤ 0x8000000000000000 then some (-(n : Int)) else none)
    else if n < 0x8000000000000000 then some (n : Int) else none

end FleetHealth.Decimal
