import FleetHealth.Decimal.Shortest
import FleetHealth.Json

/-!
# Writing JSON text

Reals are written with the fewest digits that read back, whole ones with `.0`, and with an exponent
from 1e16 up and below 1e-5. A real that is not finite is written `null`.
-/
namespace FleetHealth.Json.Writer

open FleetHealth.Decimal (digits shortest positional Numeral)

/-- Least and greatest exponent of a leading digit that is written without an exponent. -/
def leastPlain : Int := -5

def greatestPlain : Int := 15

/-- Digits with the point after the first, and the exponent. -/
def scientific (ds : List Char) (lead : Int) : List Char :=
  let mantissa := match ds with
    | c :: rest => if rest.isEmpty then [c] else c :: '.' :: rest
    | [] => []
  mantissa ++ 'e' :: (if lead < 0 then '-' else '+') :: digits lead.natAbs

def realText (x : Float) : String :=
  let d := shortest (Binary64.Scaled.ofFloat x)
  let ds := digits d.digits
  let lead := d.exponent + ds.length - 1
  let body :=
    if d.digits ≠ 0 ∧ (lead < leastPlain ∨ greatestPlain < lead) then scientific ds lead
    else if 0 ≤ d.exponent then positional d ++ ['.', '0']
    else positional d
  String.ofList (if Binary64.signBit x then '-' :: body else body)

def hexDigit (n : Nat) : Char := if n < 10 then Char.ofNat (48 + n) else Char.ofNat (87 + n)

def escaped (c : Char) : List Char :=
  if c = '"' then ['\\', '"']
  else if c = '\\' then ['\\', '\\']
  else if c = '\n' then ['\\', 'n']
  else if c = '\r' then ['\\', 'r']
  else if c = '\t' then ['\\', 't']
  else if c.toNat = 8 then ['\\', 'b']
  else if c.toNat = 12 then ['\\', 'f']
  else if c.toNat < 0x20 then
    ['\\', 'u', '0', '0', hexDigit (c.toNat / 16), hexDigit (c.toNat % 16)]
  else [c]

def quoted (s : String) : String :=
  "\"" ++ String.ofList (s.toList.flatMap escaped) ++ "\""

/-- A value that holds no others. -/
def leaf : Json → String
  | .null => "null"
  | .bool b => if b then "true" else "false"
  | .natural n => toString n
  | .negative n => "-" ++ toString n
  | .real x => if x.isFinite then realText x else "null"
  | .string s => quoted s
  | .array _ => "[]"
  | .object _ => "\x7b\x7d"

mutual

/-- The text on one line. -/
def compact : Json → String
  | .array items => "[" ++ compactItems items ++ "]"
  | .object members => "\x7b" ++ compactMembers members ++ "\x7d"
  | j => leaf j

def compactItems : List Json → String
  | [] => ""
  | [j] => compact j
  | j :: rest => compact j ++ "," ++ compactItems rest

def compactMembers : List (String × Json) → String
  | [] => ""
  | [(name, j)] => quoted name ++ ":" ++ compact j
  | (name, j) :: rest => quoted name ++ ":" ++ compact j ++ "," ++ compactMembers rest

end

/-- A line break and the blanks in front of the next line. -/
def newline (depth : Nat) : String := "\n" ++ String.ofList (List.replicate (2 * depth) ' ')

mutual

/-- The text with one item or member on each line, each level two blanks further in. -/
def pretty (depth : Nat) : Json → String
  | .array [] => "[]"
  | .array (j :: rest) => "[" ++ prettyItems (depth + 1) (j :: rest) ++ newline depth ++ "]"
  | .object [] => "\x7b\x7d"
  | .object (m :: rest) =>
    "\x7b" ++ prettyMembers (depth + 1) (m :: rest) ++ newline depth ++ "\x7d"
  | j => leaf j

def prettyItems (depth : Nat) : List Json → String
  | [] => ""
  | [j] => newline depth ++ pretty depth j
  | j :: rest => newline depth ++ pretty depth j ++ "," ++ prettyItems depth rest

def prettyMembers (depth : Nat) : List (String × Json) → String
  | [] => ""
  | [(name, j)] => newline depth ++ quoted name ++ ": " ++ pretty depth j
  | (name, j) :: rest =>
    newline depth ++ quoted name ++ ": " ++ pretty depth j ++ "," ++ prettyMembers depth rest

end

end FleetHealth.Json.Writer
