import FleetHealth.Decimal.Reading
import FleetHealth.Json

/-!
# Reading JSON text

A reader of RFC 8259 texts over the list of characters left. Every step takes fuel; no character
needs more than two steps, so `read?` starts with enough.
-/
namespace FleetHealth.Json.Reader

open FleetHealth.Decimal (takeDigits value)

def isSpace (c : Char) : Bool := c == ' ' || c == '\t' || c == '\n' || c == '\r'

def skipSpace (cs : List Char) : List Char := cs.dropWhile isSpace

/-- The characters of `word`, and what follows them. -/
def word? (word : List Char) (cs : List Char) : Option (List Char) :=
  if word.isPrefixOf cs then some (cs.drop word.length) else none

def hexValue? (c : Char) : Option Nat :=
  if '0' ≤ c ∧ c ≤ '9' then some (c.toNat - 48)
  else if 'a' ≤ c ∧ c ≤ 'f' then some (c.toNat - 87)
  else if 'A' ≤ c ∧ c ≤ 'F' then some (c.toNat - 55)
  else none

def unit? : List Char → Option (Nat × List Char)
  | a :: b :: c :: d :: rest => do
    let a ← hexValue? a
    let b ← hexValue? b
    let c ← hexValue? c
    let d ← hexValue? d
    some (((a * 16 + b) * 16 + c) * 16 + d, rest)
  | _ => none

/-- The character of an escape with four digits, or of a surrogate pair of two such escapes. A
surrogate without its partner is refused. -/
def unicode? (cs : List Char) : Option (Char × List Char) := do
  let (high, rest) ← unit? cs
  if 0xD800 ≤ high ∧ high ≤ 0xDBFF then
    match rest with
    | '\\' :: 'u' :: rest =>
      let (low, rest) ← unit? rest
      if 0xDC00 ≤ low ∧ low ≤ 0xDFFF then
        some (Char.ofNat (0x10000 + (high - 0xD800) * 0x400 + (low - 0xDC00)), rest)
      else none
    | _ => none
  else if 0xDC00 ≤ high ∧ high ≤ 0xDFFF then none
  else some (Char.ofNat high, rest)

def escape? : Char → Option Char
  | '"' => some '"'
  | '\\' => some '\\'
  | '/' => some '/'
  | 'b' => some '\x08'
  | 'f' => some '\x0c'
  | 'n' => some '\n'
  | 'r' => some '\r'
  | 't' => some '\t'
  | _ => none

/-- The rest of a string after its opening quote; `done` holds its characters in reverse. -/
def string? : (fuel : Nat) → (done : List Char) → List Char → Option (String × List Char)
  | 0, _, _ => none
  | _, _, [] => none
  | fuel + 1, done, c :: rest =>
    if c = '"' then some (String.ofList done.reverse, rest)
    else if c = '\\' then
      match rest with
      | 'u' :: rest => do
        let (c, rest) ← unicode? rest
        string? fuel (c :: done) rest
      | e :: rest => do
        let c ← escape? e
        string? fuel (c :: done) rest
      | [] => none
    else if c.toNat < 0x20 then none
    else string? fuel (c :: done) rest

/-- A number without fraction and exponent, in the narrowest form that holds it. -/
def integer (negative : Bool) (n : Nat) : Json :=
  if negative then
    if n = 0 then .real (-0.0)
    else if n ≤ 0x8000000000000000 then .negative n
    else .real (Decimal.nearestDouble true n 0)
  else if n < UInt64.size then .natural n
  else .real (Decimal.nearestDouble false n 0)

/-- The digits after a point, at least one of them; none at all without a point. -/
def fraction? : List Char → Option (List Char × List Char)
  | '.' :: rest =>
    let (ds, rest) := takeDigits rest
    if ds.isEmpty then none else some (ds, rest)
  | cs => some ([], cs)

/-- The exponent, if there is one. -/
def exponent? : List Char → Option (Option Int × List Char)
  | [] => some (none, [])
  | c :: rest =>
    if c = 'e' ∨ c = 'E' then
      let (minus, rest) := Decimal.takeSign rest
      let (ds, rest) := takeDigits rest
      if ds.isEmpty then none
      else some (some (if minus then -(value ds : Int) else value ds), rest)
    else some (none, c :: rest)

/-- A number: no leading zeros, at least one digit on each side of a point. -/
def number? (cs : List Char) : Option (Json × List Char) := do
  let (minus, rest) := match cs with
    | '-' :: rest => (true, rest)
    | cs => (false, cs)
  let (whole, rest) := takeDigits rest
  if whole.isEmpty ∨ (whole.head? = some '0' ∧ whole.length ≠ 1) then none
  else
    let (part, rest) ← fraction? rest
    let (exponent, rest) ← exponent? rest
    if part.isEmpty ∧ exponent.isNone then some (integer minus (value whole), rest)
    else
      some (.real (Decimal.nearestDouble minus (value (whole ++ part))
        (exponent.getD 0 - part.length)), rest)

mutual

/-- A value after white space. -/
def value? : (fuel : Nat) → List Char → Option (Json × List Char)
  | 0, _ => none
  | fuel + 1, cs =>
    match skipSpace cs with
    | [] => none
    | '"' :: rest => (string? fuel [] rest).map fun (s, rest) => (.string s, rest)
    | '[' :: rest =>
      match skipSpace rest with
      | ']' :: rest => some (.array [], rest)
      | rest => (items? fuel [] rest).map fun (items, rest) => (.array items, rest)
    | '\x7b' :: rest =>
      match skipSpace rest with
      | '\x7d' :: rest => some (.object [], rest)
      | rest => (members? fuel [] rest).map fun (members, rest) => (.object members, rest)
    | 't' :: rest => (word? ['r', 'u', 'e'] rest).map fun rest => (.bool true, rest)
    | 'f' :: rest => (word? ['a', 'l', 's', 'e'] rest).map fun rest => (.bool false, rest)
    | 'n' :: rest => (word? ['u', 'l', 'l'] rest).map fun rest => (.null, rest)
    | rest => number? rest

/-- The rest of an array that is not empty; `done` holds its items in reverse. -/
def items? : (fuel : Nat) → (done : List Json) → List Char → Option (List Json × List Char)
  | 0, _, _ => none
  | fuel + 1, done, cs => do
    let (j, rest) ← value? fuel cs
    match skipSpace rest with
    | ',' :: rest => items? fuel (j :: done) rest
    | ']' :: rest => some ((j :: done).reverse, rest)
    | _ => none

/-- The rest of an object that is not empty; `done` holds its members in reverse. -/
def members? : (fuel : Nat) → (done : List (String × Json)) → List Char →
    Option (List (String × Json) × List Char)
  | 0, _, _ => none
  | fuel + 1, done, cs => do
    match skipSpace cs with
    | '"' :: rest =>
      let (name, rest) ← string? fuel [] rest
      match skipSpace rest with
      | ':' :: rest =>
        let (j, rest) ← value? fuel rest
        match skipSpace rest with
        | ',' :: rest => members? fuel ((name, j) :: done) rest
        | '\x7d' :: rest => some (((name, j) :: done).reverse, rest)
        | _ => none
      | _ => none
    | _ => none

end

/-- The value of a text that holds one value and white space around it. -/
def read? (text : String) : Option Json := do
  let cs := text.toList
  let (j, rest) ← value? (2 * cs.length + 2) cs
  if (skipSpace rest).isEmpty then some j else none

end FleetHealth.Json.Reader
