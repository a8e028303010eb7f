import FleetHealth.Decimal.Digits
import FleetHealth.Instant
import FleetHealth.Instant.Calendar

/-!
# Instants as text

`Instant.text` writes an instant as an RFC 3339 date and time in UTC, with as few of 0, 3, 6 or 9
fraction digits as are exact, and with a sign before a year that four digits cannot hold.
`Instant.ofText?` reads a relaxed form: any offset, numbers without leading zeros, a space in place
of the `T`, and blanks between the parts.
-/
namespace FleetHealth.Instant

open FleetHealth.Decimal (padded digitValue?)
open FleetHealth.Calendar (Date dayNumber dateOfDay)

def yearText (year : Int) : List Char :=
  if 0 ≤ year ∧ year ≤ 9999 then padded 4 year.toNat
  else (if year < 0 then '-' else '+') :: padded 4 year.natAbs

/-- The fraction of a second, with its point, in the fewest groups of three digits. -/
def fractionText (nano : Nat) : List Char :=
  if nano = 0 then []
  else if nano % 1000000 = 0 then '.' :: padded 3 (nano / 1000000)
  else if nano % 1000 = 0 then '.' :: padded 6 (nano / 1000)
  else '.' :: padded 9 nano

def dateText (d : Date) : List Char :=
  yearText d.year ++ '-' :: padded 2 d.month ++ '-' :: padded 2 d.day

/-- RFC 3339 in UTC; a leap second is second 60. -/
def text (t : Instant) : String :=
  let ofDay := t.secondOfDay.toNat
  let second := ofDay % 60 + (if t.inLeap then 1 else 0)
  let nano := if t.inLeap then t.nano - 1000000000 else t.nano
  String.ofList
    (dateText (dateOfDay (t.second / 86400)) ++ 'T' :: padded 2 (ofDay / 3600) ++
      ':' :: padded 2 (ofDay / 60 % 60) ++ ':' :: padded 2 second ++ fractionText nano ++ ['Z'])

/-- White space that may stand between the parts of a date and time. -/
def isBlank (c : Char) : Bool :=
  let n := c.toNat
  (9 ≤ n && n ≤ 13) || n == 0x20 || n == 0x85 || n == 0xA0 || n == 0x1680 ||
    (0x2000 ≤ n && n ≤ 0x200A) || n == 0x2028 || n == 0x2029 || n == 0x202F || n == 0x205F ||
    n == 0x3000

def skipBlanks (cs : List Char) : List Char := cs.dropWhile isBlank

/-- A number of at least one and at most `width` digits, after blanks. -/
def number? (width : Nat) (cs : List Char) : Option (Nat × List Char) :=
  let cs := skipBlanks cs
  let ds := (cs.take width).takeWhile (fun c => (digitValue? c).isSome)
  if ds.isEmpty then none else some (Decimal.value ds, cs.drop ds.length)

/-- A year: up to four digits, or any number of them after a sign. -/
def year? (cs : List Char) : Option (Int × List Char) :=
  match skipBlanks cs with
  | '-' :: rest => signed rest fun n => -(n : Int)
  | '+' :: rest => signed rest fun n => (n : Int)
  | cs => (number? 4 cs).map fun (n, rest) => ((n : Int), rest)
where
  signed (cs : List Char) (f : Nat → Int) : Option (Int × List Char) :=
    let ds := cs.takeWhile (fun c => (digitValue? c).isSome)
    if ds.isEmpty then none else some (f (Decimal.value ds), cs.drop ds.length)

/-- The character `c` after blanks. -/
def mark? (c : Char) (cs : List Char) : Option (List Char) :=
  match skipBlanks cs with
  | d :: rest => if d = c then some rest else none
  | [] => none

/-- Nanoseconds after a point; digits past the ninth are dropped. No point means none. -/
def fraction? (cs : List Char) : Option (Nat × List Char) :=
  match cs with
  | '.' :: rest =>
    let ds := rest.takeWhile (fun c => (digitValue? c).isSome)
    let kept := ds.take 9
    if ds.isEmpty then none
    else some (Decimal.value kept * Nat.pow 10 (9 - kept.length), rest.drop ds.length)
  | cs => some (0, cs)

/-- Two digits, the first at most `5` where `sexagesimal` holds. -/
def twoDigits? (sexagesimal : Bool) : List Char → Option (Nat × List Char)
  | a :: b :: rest =>
    match digitValue? a, digitValue? b with
    | some x, some y => if sexagesimal && 5 < x then none else some (10 * x + y, rest)
    | _, _ => none
  | _ => none

/-- Offset from UTC in seconds: `Z`, `UTC`, or signed hours and minutes with or without a colon. -/
def offset? (cs : List Char) : Option (Int × List Char) :=
  if (cs.take 3).map Char.toUpper = ['U', 'T', 'C'] then some (0, cs.drop 3)
  else match cs with
    | 'Z' :: rest => some (0, rest)
    | 'z' :: rest => some (0, rest)
    | '+' :: rest => hoursMinutes rest 1
    | '-' :: rest => hoursMinutes rest (-1)
    | '−' :: rest => hoursMinutes rest (-1)
    | _ => none
where
  hoursMinutes (cs : List Char) (sign : Int) : Option (Int × List Char) := do
    let (hours, cs) ← twoDigits? false cs
    let (minutes, cs) ← twoDigits? true (cs.dropWhile fun c => c == ':' || isBlank c)
    some (sign * (3600 * hours + 60 * minutes : Nat), cs)

/-- The instant of a local date, time of day and offset. Second 60 is a leap second. -/
def ofParts? (date : Date) (hour minute second nano : Nat) (offset : Int) : Option Instant :=
  if date.isValid ∧ -262143 ≤ date.year ∧ date.year ≤ 262142 ∧ hour < 24 ∧ minute < 60 ∧
      second ≤ 60 ∧ -86400 < offset ∧ offset < 86400 then
    let leap := second = 60
    let ofDay := 3600 * hour + 60 * minute + (if leap then 59 else second)
    ofSecond? (dayNumber date * 86400 + (ofDay : Nat) - offset)
      (if leap then nano + 1000000000 else nano)
  else none

/-- Read a date and time with its offset. -/
def ofText? (s : String) : Option Instant := do
  let (year, cs) ← year? s.toList
  let (month, cs) ← number? 2 (← mark? '-' cs)
  let (day, cs) ← number? 2 (← mark? '-' cs)
  let cs ← match cs with
    | c :: rest => if c = 'T' ∨ c = 't' ∨ c = ' ' then some rest else none
    | [] => none
  let (hour, cs) ← number? 2 cs
  let (minute, cs) ← number? 2 (← mark? ':' cs)
  let (second, cs) ← number? 2 (← mark? ':' cs)
  let (nano, cs) ← fraction? cs
  let (offset, cs) ← offset? (skipBlanks cs)
  if (skipBlanks cs).isEmpty then ofParts? ⟨year, month, day⟩ hour minute second nano offset
  else none

end FleetHealth.Instant
