import FleetHealth.Decimal.Reading
import FleetHealth.Settings.Tree
import FleetHealth.Toml.Text

/-!
# Numbers and moments in TOML

Integers of 64 signed bits in four bases, reals, and dates and times, which are kept as they are
written. Digits can be set apart by single underscores.
-/
namespace FleetHealth.Toml

open FleetHealth.Settings (Tree)

/-- A run of digits, with single underscores between them left out. -/
def digitRun (isDigit : Char → Bool) : List Char → List Char × List Char
  | [] => ([], [])
  | '_' :: c :: rest =>
    if isDigit c then
      let (ds, rest) := digitRun isDigit rest
      (c :: ds, rest)
    else ([], '_' :: c :: rest)
  | c :: rest =>
    if isDigit c then
      let (ds, rest) := digitRun isDigit rest
      (c :: ds, rest)
    else ([], c :: rest)

/-- Digits that do not start with an underscore; at least one of them. -/
def digits? (isDigit : Char → Bool) (cs : List Char) : Option (List Char × List Char) :=
  match cs with
  | c :: _ => if isDigit c then some (digitRun isDigit cs) else none
  | [] => none

/-- An integer of 64 signed bits. -/
def integer? (negative : Bool) (n : Nat) : Option Tree :=
  if negative then (if n ≤ 0x8000000000000000 then some (.integer (-(n : Int))) else none)
  else if n < 0x8000000000000000 then some (.integer n) else none

/-- The digits after the two characters that name a base. -/
def inBase? (base : Nat) (cs : List Char) : Option (Tree × List Char) := do
  let isDigit c := (Json.Reader.hexValue? c).any (· < base)
  let (ds, rest) ← digits? isDigit cs
  let n := ds.foldl (fun n c => n * base + (Json.Reader.hexValue? c).getD 0) 0
  return (← integer? false n, rest)

/-- The digits in front of a point: a single zero, or digits that do not start with one. -/
def whole? (cs : List Char) : Option (List Char × List Char) :=
  match cs with
  | '0' :: rest => some (['0'], rest)
  | cs => digits? Char.isDigit cs

def part? : List Char → Option (List Char × List Char)
  | '.' :: rest => digits? Char.isDigit rest
  | cs => some ([], cs)

def exponent? : List Char → Option (Option Int × List Char)
  | [] => some (none, [])
  | c :: rest =>
    if c = 'e' ∨ c = 'E' then do
      let (minus, rest) := Decimal.takeSign rest
      let (ds, rest) ← digits? Char.isDigit rest
      return (some (if minus then -(Decimal.value ds : Int) else Decimal.value ds), rest)
    else some (none, c :: rest)

/-- A real that is not too large above. -/
def real? (x : Float) : Option Tree :=
  if x == Binary64.infinity then none else some (.real x)

/-- A decimal number after its sign: a real if it has a point or an exponent, an
integer otherwise. -/
def decimal? (negative : Bool) (cs : List Char) : Option (Tree × List Char) := do
  let (whole, rest) ← whole? cs
  let (part, rest) ← part? rest
  let (exponent, rest) ← exponent? rest
  if part.isEmpty ∧ exponent.isNone then return (← integer? negative (Decimal.value whole), rest)
  else
    let x := Decimal.nearestDouble negative (Decimal.value (whole ++ part))
      (exponent.getD 0 - part.length)
    return (← real? x, rest)

def number? (cs : List Char) : Option (Tree × List Char) :=
  match cs with
  | '0' :: 'x' :: rest => inBase? 16 rest
  | '0' :: 'o' :: rest => inBase? 8 rest
  | '0' :: 'b' :: rest => inBase? 2 rest
  | cs =>
    let (negative, rest) := Decimal.takeSign cs
    match rest with
    | 'i' :: 'n' :: 'f' :: rest =>
      some (.real (if negative then -Binary64.infinity else Binary64.infinity), rest)
    | 'n' :: 'a' :: 'n' :: rest => some (.real Binary64.nan, rest)
    | rest => decimal? negative rest

/-- A number of `n` digits between two bounds. -/
def fieldOf? (n least greatest : Nat) (cs : List Char) : Option (Nat × List Char) :=
  let ds := cs.take n
  if ds.length = n ∧ ds.all Char.isDigit ∧ least ≤ Decimal.value ds ∧
    Decimal.value ds ≤ greatest then
    some (Decimal.value ds, cs.drop n)
  else none

def after? (c : Char) : List Char → Option (List Char)
  | d :: rest => if c = d then some rest else none
  | [] => none

def daysOfMonth (year month : Nat) : Nat :=
  if month = 2 then if year % 4 = 0 ∧ (year % 100 ≠ 0 ∨ year % 400 = 0) then 29 else 28
  else if month ∈ [4, 6, 9, 11] then 30
  else 31

/-- What follows a date. -/
def afterDate? (cs : List Char) : Option (List Char) := do
  let (year, rest) ← fieldOf? 4 0 9999 cs
  let (month, rest) ← fieldOf? 2 1 12 (← after? '-' rest)
  let (_, rest) ← fieldOf? 2 1 (daysOfMonth year month) (← after? '-' rest)
  return rest

/-- What follows a time of day, with or without a fraction. -/
def afterTime? (cs : List Char) : Option (List Char) := do
  let (_, rest) ← fieldOf? 2 0 23 cs
  let (_, rest) ← fieldOf? 2 0 59 (← after? ':' rest)
  let (_, rest) ← fieldOf? 2 0 60 (← after? ':' rest)
  match rest with
  | '.' :: c :: rest => if c.isDigit then return rest.dropWhile Char.isDigit else none
  | rest => return rest

/-- What follows an offset from universal time; nothing may be there. -/
def afterOffset : List Char → List Char
  | 'Z' :: rest => rest
  | 'z' :: rest => rest
  | cs =>
    let rest? : Option (List Char) := do
      let rest ← (after? '+' cs).or (after? '-' cs)
      let (_, rest) ← fieldOf? 2 0 23 rest
      let (_, rest) ← fieldOf? 2 0 59 (← after? ':' rest)
      return rest
    rest?.getD cs

/-- What follows a date, a time, or both. -/
def afterMoment? (cs : List Char) : Option (List Char) :=
  match afterDate? cs with
  | some rest =>
    let time? := match rest with
      | c :: rest => if c = 'T' ∨ c = 't' ∨ c = ' ' then afterTime? rest else none
      | [] => none
    some ((time?.map afterOffset).getD rest)
  | none => afterTime? cs

/-- A value that holds no others and is no string. -/
def scalarValue? (cs : List Char) : Option (Tree × List Char) :=
  match cs with
  | 't' :: 'r' :: 'u' :: 'e' :: rest => some (.flag true, rest)
  | 'f' :: 'a' :: 'l' :: 's' :: 'e' :: rest => some (.flag false, rest)
  | cs =>
    match afterMoment? cs with
    | some rest => some (.text (String.ofList (cs.take (cs.length - rest.length))), rest)
    | none => number? cs

end FleetHealth.Toml
