import FleetHealth.Binary64
import FleetHealth.Decimal.Digits

/-!
# The fewest digits that read back

Every finite double is the nearest double to a whole interval of reals. `shortest` takes the
decimal with the fewest digits inside that interval and, among those of equal length, the one
nearest to the value, a tie going up. All comparisons are exact.
-/
namespace FleetHealth.Decimal

open FleetHealth.Binary64 (Scaled)

structure Numeral where
  digits : Nat
  exponent : Int
  deriving DecidableEq, Repr

/-- Order of `a * 10 ^ i` and `n * 2 ^ j`. -/
def compareScaled (a : Nat) (i : Int) (n : Nat) (j : Int) : Ordering :=
  compare (a * Nat.pow 10 i.toNat * Nat.pow 2 (-j).toNat)
    (n * Nat.pow 2 j.toNat * Nat.pow 10 (-i).toNat)

/-- Whether the numeral lies among the reals that round to the magnitude of `x`, ties going to the
even significand. Below a power of two the gap is half as wide. -/
def readsBack (x : Scaled) (d : Numeral) : Bool :=
  let narrow := x.significand == 0x10000000000000 && decide (-1074 < x.exponent)
  let low := if narrow then 4 * x.significand - 1 else 4 * x.significand - 2
  let high := 4 * x.significand + 2
  let even := x.significand % 2 == 0
  let aboveLow := compareScaled d.digits d.exponent low (x.exponent - 2)
  let belowHigh := compareScaled d.digits d.exponent high (x.exponent - 2)
  (aboveLow == .gt || (even && aboveLow == .eq)) && (belowHigh == .lt || (even && belowHigh == .eq))

/-- The magnitude as a quotient of naturals. -/
def quotient (x : Scaled) : Nat × Nat :=
  (x.significand * Nat.pow 2 x.exponent.toNat, Nat.pow 2 (-x.exponent).toNat)

/-- Least `k ≤ bound` counted up from `k` with `den ≤ num * 10 ^ k`. -/
def leadingZeros (num den : Nat) : (bound k : Nat) → Nat
  | 0, k => k
  | bound + 1, k => if den ≤ num * Nat.pow 10 k then k else leadingZeros num den bound (k + 1)

/-- Decimal exponent of the leading digit of a positive magnitude. -/
def leadingExponent (x : Scaled) : Int :=
  let (num, den) := quotient x
  if den ≤ num then ((digits (num / den)).length : Int) - 1
  else -(leadingZeros num den 330 0 : Int)

/-- The best decimal on the grid `10 ^ exponent`: of the value's two neighbours on the grid, the
ones that read back, and of two the nearer. -/
def onGrid (x : Scaled) (exponent : Int) : Option Numeral :=
  let (num, den) := quotient x
  let num := num * Nat.pow 10 (-exponent).toNat
  let den := den * Nat.pow 10 exponent.toNat
  let below : Numeral := ⟨num / den, exponent⟩
  let above : Numeral := ⟨num / den + 1, exponent⟩
  match readsBack x below, readsBack x above with
  | true, true => some (if 2 * (num % den) < den then below else above)
  | true, false => some below
  | false, true => some above
  | false, false => none

def stripZeros (digits : Nat) (exponent : Int) : Numeral :=
  if digits ≠ 0 ∧ digits % 10 = 0 then stripZeros (digits / 10) (exponent + 1)
  else ⟨digits, exponent⟩
termination_by digits
decreasing_by omega

def exact (x : Scaled) : Numeral :=
  ⟨x.significand * Nat.pow 2 x.exponent.toNat * Nat.pow 5 (-x.exponent).toNat, min x.exponent 0⟩

/-- The shortest numeral that reads back as the magnitude of `x`. -/
def shortest (x : Scaled) : Numeral :=
  if x.significand = 0 then ⟨0, 0⟩
  else
    let lead := leadingExponent x
    let found := (List.range 17).findSome? fun (n : Nat) => onGrid x (lead - n)
    let d := found.getD (exact x)
    stripZeros d.digits d.exponent

/-- Digits with a decimal point and no exponent; whole numbers have no point. -/
def positional (d : Numeral) : List Char :=
  match d.exponent with
  | .ofNat k => digits (d.digits * Nat.pow 10 k)
  | .negSucc k =>
    let ds := padded (k + 2) d.digits
    ds.take (ds.length - (k + 1)) ++ '.' :: ds.drop (ds.length - (k + 1))

/-- The plain text of a double: shortest digits, never an exponent, `NaN`, `inf`, `-inf`. -/
def plain (x : Float) : String :=
  if x.isNaN then "NaN"
  else
    let sign := if Binary64.signBit x then "-" else ""
    if x.isFinite then sign ++ String.ofList (positional (shortest (Scaled.ofFloat x)))
    else sign ++ "inf"

end FleetHealth.Decimal
